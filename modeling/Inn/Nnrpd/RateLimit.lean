import Inn.Foundation.Runs
import Inn.Innd.Channel

/-!
# Sending pieces with a rate limit

What is to be sent is queued as pieces of memory, where a piece that goes on
with the last one is merged with it. With a limit the queue is written in rounds,
each up to the limit, and a piece is split where a round ends.

Memory does not change while it is queued. A write that fails ends the process.
-/

namespace Inn.Nnrpd.RateLimit

open Foundation.Runs

structure iovec where
  iovBase : Nat
  iovLen : Nat
  deriving DecidableEq

inductive Fault
  | beyond
  | overflow
  | loops
  deriving DecidableEq

def declared (IOV_MAX : Nat) : Nat := if 1024 < IOV_MAX then 1024 else IOV_MAX

def add (a b : Int) : Except Fault Int :=
  if -2 ^ 31 ≤ a + b ∧ a + b < 2 ^ 31 then .ok (a + b) else .error .overflow

def take (size : Nat) (MaxBytesPerSecond : Int) :
    List iovec → Nat → Int → Except Fault (List iovec × List iovec)
  | [], _, _ => .ok ([], [])
  | piece :: iov, newiov_len, bytesfound =>
    if bytesfound < MaxBytesPerSecond then do
      let sum ← add (int piece.iovLen) bytesfound
      if size ≤ newiov_len then .error .beyond
      else if MaxBytesPerSecond < sum then
        let chunkbittenoff := (MaxBytesPerSecond - bytesfound).toNat
        return ([⟨piece.iovBase, chunkbittenoff⟩],
          ⟨piece.iovBase + chunkbittenoff, piece.iovLen - chunkbittenoff⟩ :: iov)
      else
        let (newiov, left) ← take size MaxBytesPerSecond iov (newiov_len + 1)
          (int (bytesfound + piece.iovLen))
        return (piece :: newiov, left)
    else .ok ([], piece :: iov)

def total (iov : List iovec) : Nat := (iov.map iovec.iovLen).sum

def rounds (size : Nat) (MaxBytesPerSecond : Int) (iov : List iovec) :
    Except Fault (List (List iovec)) :=
  if iov = [] then .ok []
  else
    match take size MaxBytesPerSecond iov 0 0 with
    | .error e => .error e
    | .ok (newiov, left) =>
      if _h : total left + left.length < total iov + iov.length then
        (rounds size MaxBytesPerSecond left).map (newiov :: ·)
      else .error .loops
termination_by total iov + iov.length

structure State where
  iov : List iovec
  out : Octets
  sizes : List Nat
  deriving DecidableEq

def contents (mem : Nat → UInt8) (piece : iovec) : Octets :=
  (List.range piece.iovLen).map fun i => mem (piece.iovBase + i)

def State.write (mem : Nat → UInt8) (s : State) (vec : List iovec) : State :=
  { s with out := s.out ++ vec.flatMap (contents mem), sizes := s.sizes ++ [total vec] }

def PushIOv (mem : Nat → UInt8) (IOV_MAX : Nat) (MaxBytesPerSecond : Int) (s : State) :
    Except Fault State :=
  if MaxBytesPerSecond ≠ 0 then do
    let rounds ← rounds (declared IOV_MAX) MaxBytesPerSecond s.iov
    return { rounds.foldl (State.write mem) s with iov := [] }
  else .ok { s.write mem s.iov with iov := [] }

def SendIOv (mem : Nat → UInt8) (IOV_MAX : Nat) (MaxBytesPerSecond : Int) (s : State)
    (p len : Nat) : Except Fault State :=
  match s.iov.getLast? with
  | some last =>
    if p = last.iovBase + last.iovLen then
      .ok { s with iov := s.iov.dropLast ++ [⟨last.iovBase, last.iovLen + len⟩] }
    else queue
  | none => queue
where
  queue : Except Fault State :=
    if declared IOV_MAX ≤ s.iov.length then .error .beyond
    else
      let s := { s with iov := s.iov ++ [⟨p, len⟩] }
      if s.iov.length = IOV_MAX then PushIOv mem IOV_MAX MaxBytesPerSecond s else .ok s

inductive Call
  | send (p len : Nat)
  | push

def step (mem : Nat → UInt8) (IOV_MAX : Nat) (MaxBytesPerSecond : Int) (s : State) :
    Call → Except Fault State
  | .send p len => SendIOv mem IOV_MAX MaxBytesPerSecond s p len
  | .push => PushIOv mem IOV_MAX MaxBytesPerSecond s

def start : State := ⟨[], [], []⟩

section Rounds

def Small (limit : Nat) : Nat → List iovec → Prop
  | _, [] => True
  | before, piece :: iov =>
    piece.iovLen + min (limit - 1) before < 2 ^ 31 ∧ Small limit (before + piece.iovLen) iov

def Ends (limit : Nat) (iov : List iovec) : Prop :=
  iov = [] ∨ (∃ piece, iov.getLast? = some piece ∧ piece.iovLen ≠ 0) ∨ total iov % limit ≠ 0

variable {mem : Nat → UInt8} {limit size : Nat} {iov : List iovec} {piece : iovec}

theorem total_cons (piece : iovec) (iov : List iovec) :
    total (piece :: iov) = piece.iovLen + total iov := List.sum_cons

theorem total_nil : total [] = 0 := rfl

theorem contents_split (mem : Nat → UInt8) {base len chunk : Nat} (hchunk : chunk ≤ len) :
    contents mem ⟨base, chunk⟩ ++ contents mem ⟨base + chunk, len - chunk⟩ =
      contents mem ⟨base, len⟩ := by
  have hrange :
      List.range len = List.range chunk ++ (List.range (len - chunk)).map (chunk + ·) := by
    rw [← List.range_add, Nat.add_sub_cancel' hchunk]
  simp only [contents, hrange, List.map_append, List.map_map, Function.comp_def, Nat.add_assoc]

theorem int_of_small {n : Nat} (h : n < 2 ^ 31) : int n = n := by
  rw [int, Int.bmod_def]
  omega

theorem add_of_small {a b : Nat} (h : a + b < 2 ^ 31) : add a b = .ok ((a + b : Nat) : Int) := by
  rw [add, if_pos (by omega)]
  rfl

theorem Small.mono {before before' : Nat} (hle : before' ≤ before) (h : Small limit before iov) :
    Small limit before' iov := by
  induction iov generalizing before before' with
  | nil => trivial
  | cons piece iov ih => exact ⟨by have := h.1; omega, ih (by omega) h.2⟩

/-- What goes out in a second, and what is left. -/
structure Round (mem : Nat → UInt8) (limit bytesfound : Nat)
    (iov newiov left : List iovec) : Prop where
  contents :
    newiov.flatMap (contents mem) ++ left.flatMap (contents mem) = iov.flatMap (contents mem)
  all : total newiov + total left = total iov
  filled : total newiov = min (limit - bytesfound) (total iov)
  less : bytesfound < limit → iov ≠ [] → total left + left.length < total iov + iov.length
  short : left.length ≤ iov.length
  full : left ≠ [] → bytesfound + total newiov = limit
  small : Small limit 0 left
  last : ∀ piece, left.getLast? = some piece → piece.iovLen = 0 → iov.getLast? = some piece

theorem Round.cons {bytesfound : Nat} {newiov left : List iovec}
    (hfits : bytesfound + piece.iovLen ≤ limit)
    (h : Round mem limit (bytesfound + piece.iovLen) iov newiov left) :
    Round mem limit bytesfound (piece :: iov) (piece :: newiov) left := by
  have hall := h.all
  have hfilled := h.filled
  have hshort := h.short
  refine ⟨?_, ?_, ?_, ?_, ?_, ?_, h.small, ?_⟩
  · rw [List.flatMap_cons, List.flatMap_cons, List.append_assoc, h.contents]
  · rw [total_cons, total_cons]
    omega
  · rw [total_cons, total_cons]
    omega
  · intro _ _
    rw [total_cons, List.length_cons]
    omega
  · rw [List.length_cons]
    omega
  · intro hleft
    rw [total_cons, ← h.full hleft, Nat.add_assoc]
  · intro last hlast hempty
    have := h.last last hlast hempty
    rw [List.getLast?_cons, this]
    rfl

theorem take_spec (mem : Nat → UInt8) (iov : List iovec) (bytesfound newiov_len : Nat)
    (hbytes : bytesfound ≤ limit)
    (hsize : newiov_len + iov.length ≤ size) (hsmall : Small limit bytesfound iov) :
    ∃ newiov left, take size limit iov newiov_len bytesfound = .ok (newiov, left) ∧
      Round mem limit bytesfound iov newiov left := by
  induction iov generalizing bytesfound newiov_len with
  | nil =>
    refine ⟨[], [], rfl, rfl, rfl, ?_, fun _ h => absurd rfl h, Nat.le_refl _,
      fun h => absurd rfl h, trivial, nofun⟩
    exact (Nat.min_zero _).symm
  | cons piece iov ih =>
    rw [List.length_cons] at hsize
    by_cases hmore : bytesfound < limit
    · have hmin : min (limit - 1) bytesfound = bytesfound := by omega
      obtain ⟨hpiece, hrest⟩ := hsmall
      rw [hmin] at hpiece
      have hlen : int piece.iovLen = piece.iovLen := int_of_small (by omega)
      have hadd := add_of_small hpiece
      rw [take, if_pos (by omega), hlen, hadd]
      simp only [bind, Except.bind, if_neg (show ¬size ≤ newiov_len by omega)]
      by_cases hsplit : limit < piece.iovLen + bytesfound
      · have hchunk : ((limit : Int) - bytesfound).toNat = limit - bytesfound := by omega
        rw [if_pos (by omega), hchunk]
        have hle : limit - bytesfound ≤ piece.iovLen := by omega
        refine ⟨_, _, rfl, ?_, ?_, ?_, ?_, ?_, ?_, ?_, ?_⟩
        · rw [List.flatMap_cons, List.flatMap_nil, List.append_nil, List.flatMap_cons,
            List.flatMap_cons,
            ← List.append_assoc, contents_split mem hle]
        · simp only [total_cons, total_nil]
          omega
        · simp only [total_cons, total_nil]
          omega
        · intro _ _
          rw [total_cons, total_cons, List.length_cons, List.length_cons]
          dsimp only
          omega
        · exact Nat.le_refl _
        · intro _
          simp only [total_cons, total_nil]
          omega
        · exact ⟨by dsimp only; omega, hrest.mono (by dsimp only; omega)⟩
        · intro last hlast hempty
          cases iov with
          | nil =>
            obtain rfl := Option.some.inj hlast
            have hempty : piece.iovLen - (limit - bytesfound) = 0 := hempty
            omega
          | cons next iov => exact hlast
      · rw [if_neg (by omega)]
        have hint : int ((bytesfound : Int) + piece.iovLen) =
            ((bytesfound + piece.iovLen : Nat) : Int) := by
          rw [← Int.natCast_add]
          exact int_of_small (by omega)
        obtain ⟨newiov, left, htake, hround⟩ := ih (bytesfound + piece.iovLen) (newiov_len + 1)
          (by omega) (by omega) hrest
        rw [hint, htake]
        exact ⟨_, _, rfl, hround.cons (by omega)⟩
    · obtain rfl : bytesfound = limit := by omega
      rw [take, if_neg (by omega)]
      refine ⟨[], piece :: iov, rfl, rfl, ?_, ?_, fun h => absurd h hmore, Nat.le_refl _,
        fun _ => rfl, hsmall.mono (Nat.zero_le _), ?_⟩
      · exact Nat.zero_add _
      · rw [Nat.sub_self, Nat.zero_min]
        rfl
      · exact fun _ hlast _ => hlast

/-- All goes out in order, within the limit of a second. -/
structure Emptied (mem : Nat → UInt8) (limit : Nat) (iov : List iovec)
    (vecs : List (List iovec)) : Prop where
  contents : vecs.flatten.flatMap (RateLimit.contents mem) = iov.flatMap (RateLimit.contents mem)
  sizes : ∀ vec ∈ vecs, 1 ≤ total vec ∧ total vec ≤ limit

theorem total_pos_of_mem (hmem : piece ∈ iov) (hpos : piece.iovLen ≠ 0) : 0 < total iov := by
  induction iov with
  | nil => cases hmem
  | cons first iov ih =>
    rw [total_cons]
    rcases List.mem_cons.mp hmem with rfl | hmem
    · omega
    · have := ih hmem
      omega

theorem rounds_spec (mem : Nat → UInt8) (hlimit : 0 < limit) (iov : List iovec)
    (hsize : iov.length ≤ size) (hsmall : Small limit 0 iov) (hends : Ends limit iov) :
    ∃ vecs, rounds size limit iov = .ok vecs ∧ Emptied mem limit iov vecs := by
  induction hn : total iov + iov.length using Nat.strongRecOn generalizing iov with
  | ind n ih =>
    rw [rounds]
    by_cases hempty : iov = []
    · subst hempty
      exact ⟨[], rfl, rfl, nofun⟩
    · obtain ⟨newiov, left, htake, hround⟩ := take_spec mem iov 0 0 (Nat.zero_le limit)
        (show 0 + iov.length ≤ size by omega) hsmall
      have hless := hround.less hlimit hempty
      have hall := hround.all
      have hfilled := hround.filled
      have hshort := hround.short
      -- the piece that is not empty is still to come, or the limit does not divide what is queued
      have hpos : 0 < total iov := by
        rcases hends with hnil | ⟨piece, hlast, hpiece⟩ | hmod
        · exact absurd hnil hempty
        · exact total_pos_of_mem (List.mem_of_getLast? hlast) hpiece
        · rcases Nat.eq_zero_or_pos (total iov) with hzero | hpos
          · exact absurd (by rw [hzero, Nat.zero_mod]) hmod
          · exact hpos
      have hends' : Ends limit left := by
        by_cases hleft : left = []
        · exact .inl hleft
        · have hfull := hround.full hleft
          rcases hends with hnil | ⟨piece, hlast, hpiece⟩ | hmod
          · exact absurd hnil hempty
          · obtain ⟨last, hlast'⟩ := Option.isSome_iff_exists.mp (List.getLast?_isSome.mpr hleft)
            refine .inr (.inl ⟨last, hlast', fun hzero => hpiece ?_⟩)
            have := hround.last last hlast' hzero
            rw [hlast] at this
            rw [Option.some.inj this, hzero]
          · refine .inr (.inr ?_)
            rwa [← hall, show total newiov = limit by omega, Nat.add_mod_left] at hmod
      obtain ⟨vecs, hvecs, hemptied⟩ :=
        ih (total left + left.length) (by omega) left (by omega) hround.small hends' rfl
      rw [if_neg hempty]
      simp only [show ((0 : Nat) : Int) = 0 from rfl] at htake
      rw [htake]
      dsimp only
      rw [dif_pos hless, hvecs]
      refine ⟨newiov :: vecs, rfl, ?_, List.forall_mem_cons.mpr ⟨by omega, hemptied.sizes⟩⟩
      rw [List.flatten_cons, List.flatMap_append, hemptied.contents, hround.contents]

end Rounds

section Calls

structure Flushes (limit : Nat) (iov : List iovec) : Prop where
  small : Small limit 0 iov
  ends : Ends limit iov

def Adjacent (s : State) (p : Nat) : Prop :=
    ∃ last, s.iov.getLast? = some last ∧ p = last.iovBase + last.iovLen

def Allows (IOV_MAX limit : Nat) (s : State) : Call → Prop
  | .send p len =>
    Adjacent s p ∨ s.iov.length < declared IOV_MAX ∧
      (s.iov.length + 1 = IOV_MAX → Flushes limit (s.iov ++ [⟨p, len⟩]))
  | .push => Flushes limit s.iov

variable {mem : Nat → UInt8} {IOV_MAX limit : Nat} {s s₀ : State} {c : Call}

/-- With the limit and without it, the same octets go out. -/
structure Same (IOV_MAX limit : Nat) (s s₀ : State) : Prop where
  iov : s.iov = s₀.iov
  out : s.out = s₀.out
  sizes : ∀ size ∈ s.sizes, 1 ≤ size ∧ size ≤ limit
  length : s.iov.length ≤ declared IOV_MAX

theorem foldl_write (mem : Nat → UInt8) (vecs : List (List iovec)) (s : State) :
    vecs.foldl (State.write mem) s = ⟨s.iov, s.out ++ vecs.flatten.flatMap (contents mem),
      s.sizes ++ vecs.map total⟩ := by
  induction vecs generalizing s with
  | nil => simp
  | cons vec vecs ih =>
    rw [List.foldl_cons, ih, State.write, List.flatten_cons, List.flatMap_append, List.map_cons]
    simp only [List.append_assoc, List.cons_append, List.nil_append]

theorem PushIOv_same (hlimit : 0 < limit) (hsame : Same IOV_MAX limit s s₀)
    (hflushes : Flushes limit s.iov) :
    ∃ t t₀, PushIOv mem IOV_MAX limit s = .ok t ∧ PushIOv mem IOV_MAX 0 s₀ = .ok t₀ ∧
      Same IOV_MAX limit t t₀ := by
  obtain ⟨vecs, hvecs, hemptied⟩ :=
    rounds_spec mem hlimit s.iov hsame.length hflushes.small hflushes.ends
  refine ⟨{ vecs.foldl (State.write mem) s with iov := [] }, { s₀.write mem s₀.iov with iov := [] },
    ?_, ?_, rfl, ?_, ?_, Nat.zero_le _⟩
  · rw [PushIOv, if_pos (by omega), hvecs]
    rfl
  · rw [PushIOv, if_neg (by decide)]
  · rw [foldl_write]
    change s.out ++ _ = s₀.out ++ _
    rw [hemptied.contents, hsame.out, hsame.iov]
  · rw [foldl_write]
    intro size hsize
    rcases List.mem_append.mp hsize with hsize | hsize
    · exact hsame.sizes size hsize
    · obtain ⟨vec, hvec, rfl⟩ := List.mem_map.mp hsize
      exact hemptied.sizes vec hvec

theorem queue_same (hlimit : 0 < limit) (hsame : Same IOV_MAX limit s s₀) {p len : Nat}
    (hroom : s.iov.length < declared IOV_MAX)
    (hflushes : s.iov.length + 1 = IOV_MAX → Flushes limit (s.iov ++ [⟨p, len⟩])) :
    ∃ t t₀, SendIOv.queue mem IOV_MAX limit s p len = .ok t ∧
      SendIOv.queue mem IOV_MAX 0 s₀ p len = .ok t₀ ∧
      Same IOV_MAX limit t t₀ := by
  have hlength : (s.iov ++ [⟨p, len⟩] : List iovec).length = s.iov.length + 1 := by
    rw [List.length_append, List.length_singleton]
  have hqueued :
      Same IOV_MAX limit { s with iov := s.iov ++ [⟨p, len⟩] }
      { s₀ with iov := s₀.iov ++ [⟨p, len⟩] } :=
    ⟨by rw [hsame.iov], hsame.out, hsame.sizes, by rw [hlength]; exact hroom⟩
  rw [SendIOv.queue, SendIOv.queue, ← hsame.iov, if_neg (Nat.not_le.mpr hroom),
    if_neg (Nat.not_le.mpr hroom)]
  simp only [hlength]
  by_cases hfull : s.iov.length + 1 = IOV_MAX
  · rw [if_pos hfull, if_pos hfull]
    rw [← hsame.iov] at hqueued
    exact PushIOv_same hlimit hqueued (hflushes hfull)
  · rw [if_neg hfull, if_neg hfull]
    rw [← hsame.iov] at hqueued
    exact ⟨_, _, rfl, rfl, hqueued⟩

theorem step_same (hlimit : 0 < limit) (hsame : Same IOV_MAX limit s s₀)
    (hallows : Allows IOV_MAX limit s c) :
    ∃ t t₀, step mem IOV_MAX limit s c = .ok t ∧ step mem IOV_MAX 0 s₀ c = .ok t₀ ∧
      Same IOV_MAX limit t t₀ := by
  cases c with
  | push => exact PushIOv_same hlimit hsame hallows
  | send p len =>
    rw [step, step, SendIOv, SendIOv, ← hsame.iov]
    cases hlast : s.iov.getLast? with
    | none =>
      rcases hallows with ⟨last, hlast', _⟩ | ⟨hroom, hflushes⟩
      · rw [hlast] at hlast'
        cases hlast'
      · exact queue_same hlimit hsame hroom hflushes
    | some last =>
      by_cases hadjacent : p = last.iovBase + last.iovLen
      · simp only [if_pos hadjacent]
        refine ⟨_, _, rfl, rfl, rfl, hsame.out, hsame.sizes, ?_⟩
        have hne : s.iov ≠ [] := by
          intro hnil
          rw [hnil] at hlast
          cases hlast
        have hpos := List.length_pos_of_ne_nil hne
        rw [List.length_append, List.length_dropLast, List.length_singleton,
          Nat.sub_add_cancel hpos]
        exact hsame.length
      · simp only [if_neg hadjacent]
        rcases hallows with ⟨last', hlast', hp⟩ | ⟨hroom, hflushes⟩
        · rw [hlast] at hlast'
          exact absurd (Option.some.inj hlast' ▸ hp) hadjacent
        · exact queue_same hlimit hsame hroom hflushes

end Calls

/-- In any sequence of calls the same is written with a limit as without one, in
rounds of at least one octet and at most the limit, and nothing is queued beyond
the vector. -/
theorem rate_limited_same (mem : Nat → UInt8) (IOV_MAX : Nat) (limit : Nat) (hlimit : 0 < limit)
    (calls : List Call)
    (hallows : Meets (step mem IOV_MAX limit) (Allows IOV_MAX limit) calls start) :
    ∃ s s₀, run (step mem IOV_MAX limit) calls start = .ok s ∧
      run (step mem IOV_MAX 0) calls start = .ok s₀ ∧
      Same IOV_MAX limit s s₀ := by
  have hsame : Same IOV_MAX limit start start := ⟨rfl, rfl, nofun, Nat.zero_le _⟩
  generalize start = s at hsame hallows ⊢
  suffices h :
      ∀ s₀, Same IOV_MAX limit s s₀ → ∃ t t₀, run (step mem IOV_MAX limit) calls s = .ok t ∧
      run (step mem IOV_MAX 0) calls s₀ = .ok t₀ ∧ Same IOV_MAX limit t t₀ from h s hsame
  clear hsame
  induction calls generalizing s with
  | nil => exact fun s₀ hsame => ⟨s, s₀, rfl, rfl, hsame⟩
  | cons c calls ih =>
    intro s₀ hsame
    obtain ⟨t, t₀, hstep, hstep₀, hsame'⟩ := step_same hlimit hsame hallows.1
    rw [run_cons hstep, run_cons hstep₀]
    exact ih t (hallows.2 t hstep) t₀ hsame'

/-- Five octets, three in a round. -/
theorem rate_limited_same_five :
    ∃ s s₀, run (step (fun _ => 65) 16 3) [.send 0 5, .push] start = .ok s ∧
      run (step (fun _ => 65) 16 0) [.send 0 5, .push] start = .ok s₀ ∧ Same 16 3 s s₀ := by
  refine rate_limited_same (fun _ => 65) 16 3 (by decide) [.send 0 5, .push]
    ⟨.inr ⟨by decide, fun h => absurd h (by decide)⟩, ?_⟩
  intro s hstep
  have hqueued : step (fun _ => 65) 16 3 start (.send 0 5) = .ok ⟨[⟨0, 5⟩], [], []⟩ := rfl
  obtain rfl := Except.ok.inj (hqueued.symm.trans hstep)
  exact ⟨⟨⟨by decide, trivial⟩, .inr (.inl ⟨⟨0, 5⟩, rfl, by decide⟩)⟩, fun _ _ => trivial⟩

theorem run_sends (mem : Nat → UInt8) (limit : Nat) {k : Nat} (hk : k ≤ 1024) :
    run (step mem 2048 limit) ((List.range k).map fun i => .send (2 * i) 1) start =
      .ok ⟨(List.range k).map fun i => ⟨2 * i, 1⟩, [], []⟩ := by
  induction k with
  | zero => rfl
  | succ k ih =>
    have hlast : ∀ last, ((List.range k).map fun i => (⟨2 * i, 1⟩ : iovec)).getLast? = some last →
        2 * k ≠ last.iovBase + last.iovLen := by
      intro last hlast
      obtain ⟨i, _, rfl⟩ := List.mem_map.mp (List.mem_of_getLast? hlast)
      dsimp only
      omega
    have hqueue : step mem 2048 limit
        ⟨(List.range k).map fun i => ⟨2 * i, 1⟩, [], []⟩ (.send (2 * k) 1) =
        .ok ⟨(List.range k).map (fun i => ⟨2 * i, 1⟩) ++ [⟨2 * k, 1⟩], [], []⟩ := by
      have hqueued : SendIOv.queue mem 2048 limit
          ⟨(List.range k).map fun i => ⟨2 * i, 1⟩, [], []⟩ (2 * k) 1 =
          .ok ⟨(List.range k).map (fun i => ⟨2 * i, 1⟩) ++ [⟨2 * k, 1⟩], [], []⟩ := by
        rw [SendIOv.queue, if_neg (by rw [List.length_map, List.length_range,
          declared, if_pos (by decide)]; omega)]
        dsimp only
        rw [if_neg (by rw [List.length_append, List.length_map, List.length_range,
          List.length_singleton]; omega)]
      rw [step, SendIOv]
      split
      next last heq => rw [if_neg (hlast last heq), hqueued]
      next => exact hqueued
    rw [List.range_succ, List.map_append, List.map_append, run_append (ih (by omega)),
      List.map_singleton,
      run_cons hqueue]
    rfl

/-- With a larger `IOV_MAX` than the vector has room for, one more piece is
written beyond it. -/
theorem not_rate_limited_same :
    ¬∀ (mem : Nat → UInt8) (IOV_MAX limit : Nat), 0 < limit → ∀ calls : List Call,
      ∃ s s₀, run (step mem IOV_MAX limit) calls start = .ok s ∧
        run (step mem IOV_MAX 0) calls start = .ok s₀ ∧
        Same IOV_MAX limit s s₀ := by
  intro h
  obtain ⟨s, s₀, hrun, _, hsame⟩ :=
    h (fun _ => 65) 2048 1 (by decide) ((List.range 1025).map fun i => .send (2 * i) 1)
  have hsends := run_sends (fun _ => 65) 1 (Nat.le_refl 1024)
  rw [List.range_succ, List.map_append, run_append hsends, List.map_singleton, run] at hrun
  have hbeyond : step (fun _ => 65) 2048 (1 : Nat) ⟨(List.range 1024).map fun i => ⟨2 * i, 1⟩, [],
      []⟩ (.send (2 * 1024) 1) =
      .error .beyond := by decide +kernel
  rw [hbeyond] at hrun
  cases hrun

end Inn.Nnrpd.RateLimit
