import Inn.Foundation.Lines
import Inn.Innd.Channel

/-!
# Lines from a client

`nnrpd` reads the lines of a client into a buffer that grows up to a limit. A line that is
longer is thrown away, and the client is told that it is too long.
-/

namespace Inn.Nnrpd

open Foundation.Lines
open List (append_assoc length_append mem_append)

def NNTP_MAXLEN_COMMAND : Nat := 512

structure Line where
  allocated : Nat
  remaining : Octets
  deriving DecidableEq

def lineInit : Line := ⟨NNTP_MAXLEN_COMMAND, []⟩

inductive ReadType
  | RTok (text : Octets) (stripped : Nat)
  | RTeof
  | RTlong
  deriving DecidableEq

inductive Fault
  | outOfBounds
  | outOfFuel
  deriving DecidableEq

def doRead (room : Nat) : List Octets → Octets × List Octets
  | [] => ([], [])
  | [] :: packets => doRead room packets
  | packet :: packets => (packet.take room, packet.drop room :: packets)

structure Filling where
  allocated : Nat
  buffer : Octets
  tooLong : Bool
  deriving DecidableEq

def newsize (localmaxartsize allocated : Nat) : Nat :=
  if NNTP_MAXLEN_COMMAND < localmaxartsize ∧ localmaxartsize < allocated * 2 then localmaxartsize
  else allocated * 2

def Filling.makeRoom (localmaxartsize : Nat) (f : Filling) : Filling :=
  if f.buffer.length = f.allocated then
    if newsize localmaxartsize f.allocated = f.allocated then
      { f with buffer := [], tooLong := true }
    else { f with allocated := newsize localmaxartsize f.allocated }
  else f

structure Filled where
  filling : Filling
  line : Option (Octets × Octets)
  packets : List Octets
  deriving DecidableEq

def Filling.fill (localmaxartsize : Nat) : Nat → Filling → List Octets → Except Fault Filled
  | 0, _, _ => .error .outOfFuel
  | fuel + 1, f, packets =>
    let f := f.makeRoom localmaxartsize
    if f.allocated < f.buffer.length then .error .outOfBounds
    else
      match doRead (f.allocated - f.buffer.length) packets with
      | ([], packets) => .ok ⟨f, none, packets⟩
      | (got, packets) =>
        match cut 10 got with
        | some (before, after) => .ok ⟨f, some (f.buffer ++ before, after), packets⟩
        | none => Filling.fill localmaxartsize fuel { f with buffer := f.buffer ++ got } packets

def strip (line : Octets) : ReadType :=
  if line.getLast? = some 13 then .RTok line.dropLast 2 else .RTok line 1

def Line.read (localmaxartsize : Nat) (line : Line) (packets : List Octets) :
    Except Fault (ReadType × Line × List Octets) :=
  match cut 10 line.remaining with
  | some (before, after) => .ok (strip before, { line with remaining := after }, packets)
  | none =>
    match Filling.fill localmaxartsize (packets.flatten.length + 1) ⟨line.allocated, line.remaining,
      false⟩ packets with
    | .error fault => .error fault
    | .ok filled =>
      match filled.line with
      | none => .ok (.RTeof, ⟨filled.filling.allocated, line.remaining⟩, filled.packets)
      | some (before, after) =>
        .ok (if filled.filling.tooLong then .RTlong else strip before,
          ⟨filled.filling.allocated, after⟩,
          filled.packets)

def Line.readAll : List Nat → Line → List Octets → Except Fault (List ReadType)
  | [], _, _ => .ok []
  | limit :: limits, line, packets =>
    match line.read limit packets with
    | .error fault => .error fault
    | .ok (.RTeof, _, _) => .ok [.RTeof]
    | .ok (result, line, packets) =>
      match Line.readAll limits line packets with
      | .error fault => .error fault
      | .ok results => .ok (result :: results)

theorem doRead_flatten (room : Nat) (packets : List Octets) :
    (doRead room packets).1 ++ (doRead room packets).2.flatten = packets.flatten := by
  induction packets with
  | nil => rfl
  | cons packet packets ih =>
    cases packet with
    | nil => exact ih
    | cons c packet =>
      rw [doRead, List.flatten_cons, List.flatten_cons, ← append_assoc, List.take_append_drop]
      nofun

theorem doRead_length (room : Nat) (packets : List Octets) :
    (doRead room packets).1.length ≤ room := by
  induction packets with
  | nil => exact Nat.zero_le room
  | cons packet packets ih =>
    cases packet with
    | nil => exact ih
    | cons c packet => exact List.length_take_le _ _

theorem doRead_nil {room : Nat} (hroom : 0 < room) {packets : List Octets}
    (hnil : (doRead room packets).1 = []) :
    packets.flatten = [] := by
  induction packets with
  | nil => rfl
  | cons packet packets ih =>
    cases packet with
    | nil => exact ih hnil
    | cons c packet =>
      obtain ⟨n, rfl⟩ := Nat.exists_eq_add_of_lt hroom
      rw [Nat.zero_add] at hnil
      cases hnil

section Growing

variable {localmaxartsize allocated n : Nat}

def grow (localmaxartsize n : Nat) : Nat → Nat → Nat
  | 0, allocated => allocated
  | fuel + 1, allocated =>
    if n < allocated then allocated else grow localmaxartsize n fuel
      (newsize localmaxartsize allocated)

def bufferFor (localmaxartsize n allocated : Nat) : Nat := grow localmaxartsize n (n + 1) allocated

/-- A line fills a buffer that is larger than the limit. -/
def Overruns (localmaxartsize allocated n : Nat) : Prop :=
  NNTP_MAXLEN_COMMAND < localmaxartsize ∧ localmaxartsize < allocated ∧ allocated ≤ n

instance : Decidable (Overruns localmaxartsize allocated n) :=
    inferInstanceAs (Decidable (_ ∧ _ ∧ _))

theorem grow_of_lt (hroom : n < allocated) (fuel : Nat) :
    grow localmaxartsize n fuel allocated = allocated := by
  cases fuel with
  | zero => rfl
  | succ fuel => rw [grow, if_pos hroom]

theorem grow_fixed (hfixed : newsize localmaxartsize allocated = allocated) (fuel : Nat) :
    grow localmaxartsize n fuel allocated = allocated := by
  induction fuel with
  | zero => rfl
  | succ fuel ih =>
    rw [grow]
    split
    · rfl
    · rw [hfixed, ih]

theorem newsize_cases (hpos : 0 < allocated) (hfull : allocated ≤ n)
    (hsafe : ¬Overruns localmaxartsize allocated n) :
    newsize localmaxartsize allocated = allocated ∧ localmaxartsize = allocated ∧
      NNTP_MAXLEN_COMMAND < localmaxartsize ∨
      allocated < newsize localmaxartsize allocated ∧
        (localmaxartsize ≤ NNTP_MAXLEN_COMMAND ∨
          newsize localmaxartsize allocated ≤ localmaxartsize) := by
  unfold Overruns at hsafe
  unfold newsize
  split <;> omega

theorem grow_fuel (hpos : 0 < allocated) (hsafe : ¬Overruns localmaxartsize allocated n)
    {fuel fuel' : Nat} (hfuel : n < allocated + fuel) (hfuel' : n < allocated + fuel') :
    grow localmaxartsize n fuel allocated = grow localmaxartsize n fuel' allocated := by
  induction fuel generalizing allocated fuel' with
  | zero =>
    have hroom : n < allocated := hfuel
    rw [grow_of_lt hroom, grow_of_lt hroom]
  | succ fuel ih =>
    by_cases hroom : n < allocated
    · rw [grow_of_lt hroom, grow_of_lt hroom]
    · cases fuel' with
      | zero => exact absurd hfuel' hroom
      | succ fuel' =>
        rw [grow, grow, if_neg hroom, if_neg hroom]
        rcases newsize_cases hpos (Nat.not_lt.mp hroom) hsafe with ⟨hfixed, _, _⟩ | ⟨hmore, hlimit⟩
        · rw [grow_fixed (hfixed.symm ▸ hfixed), grow_fixed (hfixed.symm ▸ hfixed)]
        · refine ih (by omega) ?_ (by omega) (by omega)
          unfold Overruns
          omega

theorem bufferFor_newsize (hpos : 0 < allocated) (hfull : allocated ≤ n)
    (hsafe : ¬Overruns localmaxartsize allocated n)
    (hmore : allocated < newsize localmaxartsize allocated) :
    bufferFor localmaxartsize n (newsize localmaxartsize allocated) =
      bufferFor localmaxartsize n allocated := by
  have hsafe' : ¬Overruns localmaxartsize (newsize localmaxartsize allocated) n := by
    rcases newsize_cases hpos hfull hsafe with ⟨hfixed, _, _⟩ | ⟨_, hlimit⟩
    · omega
    · unfold Overruns
      omega
  have hone : bufferFor localmaxartsize n allocated =
      grow localmaxartsize n n (newsize localmaxartsize allocated) := by
    rw [bufferFor, grow, if_neg (Nat.not_lt.mpr hfull)]
  rw [hone]
  exact grow_fuel (by omega) hsafe' (by omega) (by omega)

end Growing

section Filling

variable {localmaxartsize n : Nat} {f : Filling} {packets : List Octets} {tail rest : Octets}

def Exceeds (localmaxartsize allocated n : Nat) : Prop :=
  NNTP_MAXLEN_COMMAND < localmaxartsize ∧ localmaxartsize ≤ n ∧ allocated ≤ n

/-- The buffer holds what was read, up to its size. -/
structure Fills (localmaxartsize : Nat) (f : Filling) (n : Nat) : Prop where
  pos : 0 < f.allocated
  fits : f.buffer.length ≤ f.allocated
  notMem : 10 ∉ f.buffer
  long : f.tooLong = true → localmaxartsize = f.allocated ∧ Exceeds localmaxartsize f.allocated n
  safe : f.tooLong = false → ¬Overruns localmaxartsize f.allocated n

theorem newsize_limit (hpos : 0 < n) (hlimit : NNTP_MAXLEN_COMMAND < n) : newsize n n = n :=
  if_pos ⟨hlimit, by omega⟩

theorem Fills.makeRoom (h : Fills localmaxartsize f n)
    (hlength : f.tooLong = false → f.buffer.length ≤ n) :
    Fills localmaxartsize (f.makeRoom localmaxartsize) n ∧
      (f.makeRoom localmaxartsize).buffer.length < (f.makeRoom localmaxartsize).allocated ∧
      (Exceeds localmaxartsize (f.makeRoom localmaxartsize).allocated n ↔
        Exceeds localmaxartsize f.allocated n) ∧
      bufferFor localmaxartsize n (f.makeRoom localmaxartsize).allocated =
        bufferFor localmaxartsize n f.allocated ∧
      ((f.makeRoom localmaxartsize).tooLong = false →
        f.tooLong = false ∧ (f.makeRoom localmaxartsize).buffer = f.buffer) := by
  unfold Filling.makeRoom
  split
  next hfull =>
    split
    next hfixed =>
      refine ⟨⟨h.pos, Nat.zero_le _, List.not_mem_nil, fun _ => ?_, nofun⟩, h.pos,
        Iff.rfl, rfl, nofun⟩
      cases hlong : f.tooLong with
      | true => exact h.long hlong
      | false =>
        have hle := hlength hlong
        rcases newsize_cases h.pos (by omega) (h.safe hlong) with ⟨_, hlimit, hcommand⟩ | ⟨hmore, _⟩
        · exact ⟨hlimit, hcommand, by omega, by dsimp only; omega⟩
        · exact absurd hfixed (by omega)
    next hgrows =>
      have hlong : f.tooLong = false := by
        by_contra hlong
        rw [Bool.not_eq_false] at hlong
        obtain ⟨hlimit, hcommand, _⟩ := h.long hlong
        rw [hlimit] at hcommand hgrows
        exact hgrows (newsize_limit h.pos hcommand)
      have hle := hlength hlong
      rcases newsize_cases h.pos (by omega) (h.safe hlong) with ⟨hfixed, _, _⟩ | ⟨hmore, hlimit⟩
      · exact absurd hfixed hgrows
      · refine ⟨⟨by dsimp only; omega, by dsimp only; omega, h.notMem, fun htoo => ?_, fun _ => ?_⟩,
          by dsimp only; omega, ?_,
          bufferFor_newsize h.pos (by omega) (h.safe hlong) hmore, fun _ => ⟨hlong, rfl⟩⟩
        · exact absurd (hlong.symm.trans htoo) Bool.false_ne_true
        · unfold Overruns
          dsimp only
          omega
        · unfold Exceeds
          dsimp only
          omega
  next hspace =>
    exact ⟨h, Nat.lt_of_le_of_ne h.fits hspace, Iff.rfl, rfl, fun hshort => ⟨hshort, rfl⟩⟩

theorem fills_read (h : Fills localmaxartsize f n) (hspace : f.buffer.length < f.allocated)
    (packets : List Octets) (hnone : 10 ∉ (doRead (f.allocated - f.buffer.length) packets).1) :
    Fills localmaxartsize
      { f with buffer := f.buffer ++ (doRead (f.allocated - f.buffer.length) packets).1 } n := by
  have hlength := doRead_length (f.allocated - f.buffer.length) packets
  refine ⟨h.pos, ?_, ?_, h.long, h.safe⟩
  · rw [length_append]
    dsimp only
    omega
  · rw [mem_append, not_or]
    exact ⟨h.notMem, hnone⟩

theorem fill_succ {fuel : Nat}
    (hspace : (f.makeRoom localmaxartsize).buffer.length < (f.makeRoom localmaxartsize).allocated)
    {got : Octets} {packets' : List Octets} (hgot : got ≠ [])
    (hread : doRead ((f.makeRoom localmaxartsize).allocated -
      (f.makeRoom localmaxartsize).buffer.length) packets =
      (got, packets')) :
    Filling.fill localmaxartsize (fuel + 1) f packets =
      match cut 10 got with
      | some (before, after) =>
        .ok ⟨f.makeRoom localmaxartsize,
          some ((f.makeRoom localmaxartsize).buffer ++ before, after), packets'⟩
      | none => Filling.fill localmaxartsize fuel
          { f.makeRoom localmaxartsize with buffer := (f.makeRoom localmaxartsize).buffer ++ got }
            packets' := by
  rw [Filling.fill]
  rw [if_neg (by omega), hread]
  cases got with
  | nil => exact absurd rfl hgot
  | cons c got => rfl

theorem fill_line {fuel : Nat} (h : Fills localmaxartsize f n)
    (hlength : f.tooLong = false → f.buffer.length + tail.length = n)
    (hcut : cut 10 packets.flatten = some (tail, rest)) (hfuel : packets.flatten.length < fuel) :
    ∃ f' line after packets', Filling.fill localmaxartsize fuel f packets =
      .ok ⟨f', some (line, after), packets'⟩ ∧
      after ++ packets'.flatten = rest ∧
        (f'.tooLong = true ↔ Exceeds localmaxartsize f.allocated n) ∧
      (f'.tooLong = false → line = f.buffer ++ tail) ∧
        f'.allocated = bufferFor localmaxartsize n f.allocated ∧
      after.length ≤ f'.allocated ∧ 0 < f'.allocated := by
  induction fuel generalizing f packets tail with
  | zero => exact absurd hfuel (Nat.not_lt_zero _)
  | succ fuel ih =>
    obtain ⟨hready, hspace, hexceeds, hbuffer, hshort⟩ := h.makeRoom fun hlong => by
      have heq := hlength hlong
      omega
    have hflat :=
      doRead_flatten ((f.makeRoom localmaxartsize).allocated -
        (f.makeRoom localmaxartsize).buffer.length) packets
    have hroom :=
      doRead_length ((f.makeRoom localmaxartsize).allocated -
        (f.makeRoom localmaxartsize).buffer.length) packets
    have hnonempty : packets.flatten ≠ [] := by
      intro hnil
      rw [hnil] at hcut
      cases hcut
    have hgot :
        (doRead ((f.makeRoom localmaxartsize).allocated -
          (f.makeRoom localmaxartsize).buffer.length) packets).1 ≠ [] :=
      fun hnil => hnonempty (doRead_nil (by omega) hnil)
    have hread := fills_read hready hspace packets
    rw [fill_succ hspace hgot rfl]
    generalize hdoRead :
      doRead ((f.makeRoom localmaxartsize).allocated -
        (f.makeRoom localmaxartsize).buffer.length) packets =
      result at hflat hroom hgot hread ⊢
    generalize hroomy :
      f.makeRoom localmaxartsize = g at hready hspace hexceeds hbuffer hshort hroom hread ⊢
    obtain ⟨got, packets'⟩ := result
    dsimp only at hflat hroom hgot hread ⊢
    cases hend : cut 10 got with
    | some halves =>
      obtain ⟨before, after⟩ := halves
      obtain ⟨hsplit, hbefore⟩ := of_cut hend
      rw [← hflat, hsplit, append_assoc, List.cons_append, cut_first hbefore] at hcut
      obtain ⟨rfl, rfl⟩ := Prod.mk.inj (Option.some.inj hcut)
      have hsizes := congrArg List.length hsplit
      rw [length_append, List.length_cons] at hsizes
      have hfits (hok : g.tooLong = false) : n < g.allocated := by
        obtain ⟨hlong, hsame⟩ := hshort hok
        have heq := hlength hlong
        rw [← hsame] at heq
        omega
      refine ⟨g, g.buffer ++ before, after, packets', rfl, rfl, ?_, fun hok => ?_, ?_,
        by omega, hready.pos⟩
      · rw [← hexceeds]
        constructor
        · exact fun htoo => (hready.long htoo).2
        · intro hmore
          by_contra hok
          have hlt := hfits (Bool.eq_false_iff.mpr hok)
          exact absurd hmore.2.2 (by omega)
      · rw [(hshort hok).2]
      · rw [← hbuffer]
        cases htoo : g.tooLong with
        | true =>
          obtain ⟨hlimit, hcommand, _⟩ := hready.long htoo
          rw [hlimit] at hcommand ⊢
          exact (grow_fixed (newsize_limit hready.pos hcommand) _).symm
        | false => exact (grow_of_lt (hfits htoo) _).symm
    | none =>
      have hnone := of_cut_none hend
      rw [← hflat, cut_append hnone, Option.map_eq_some_iff] at hcut
      obtain ⟨⟨tail', rest'⟩, hcut', hhalves⟩ := hcut
      obtain ⟨rfl, rfl⟩ := Prod.mk.inj hhalves
      have hless : packets'.flatten.length < fuel := by
        have hpos := List.length_pos_iff.mpr hgot
        rw [← hflat, length_append] at hfuel
        omega
      have hlength' (hok : g.tooLong = false) : (g.buffer ++ got).length + tail'.length = n := by
        obtain ⟨hlong, hsame⟩ := hshort hok
        have heq := hlength hlong
        rw [length_append] at heq
        rw [hsame, length_append]
        dsimp only at heq
        omega
      obtain ⟨f', line, after, packets'', heq, hrest, htoo, hline, hsize, hafter, hpos⟩ :=
        ih (hread hnone) hlength' hcut' hless
      refine ⟨f', line, after, packets'', heq, hrest, htoo.trans hexceeds, fun hok => ?_,
        hsize.trans hbuffer, hafter, hpos⟩
      have hfits : g.tooLong = false := by
        by_contra hno
        rw [Bool.not_eq_false] at hno
        have hyes := htoo.mpr (hready.long hno).2
        exact absurd (hok.symm.trans hyes) Bool.false_ne_true
      rw [hline hok, (hshort hfits).2, append_assoc]

theorem fill_eof {fuel : Nat} (h : Fills localmaxartsize f n)
    (hlength : f.tooLong = false → f.buffer.length + packets.flatten.length = n)
    (hnone : 10 ∉ packets.flatten) (hfuel : packets.flatten.length < fuel) :
    ∃ f' packets', Filling.fill localmaxartsize fuel f packets = .ok ⟨f', none, packets'⟩ := by
  induction fuel generalizing f packets with
  | zero => exact absurd hfuel (Nat.not_lt_zero _)
  | succ fuel ih =>
    obtain ⟨hready, hspace, _, _, hshort⟩ := h.makeRoom fun hlong => by
      have heq := hlength hlong
      omega
    have hflat :=
      doRead_flatten ((f.makeRoom localmaxartsize).allocated -
        (f.makeRoom localmaxartsize).buffer.length) packets
    have hread := fills_read hready hspace packets
    by_cases hgot :
      (doRead ((f.makeRoom localmaxartsize).allocated - (f.makeRoom localmaxartsize).buffer.length)
        packets).1 = []
    · rw [Filling.fill, if_neg (by omega)]
      split
      · exact ⟨_, _, rfl⟩
      next got packets' hne hdoRead =>
        rw [hdoRead] at hgot
        exact absurd hgot hne
    · rw [fill_succ hspace hgot rfl]
      generalize hdoRead :
        doRead ((f.makeRoom localmaxartsize).allocated -
          (f.makeRoom localmaxartsize).buffer.length) packets =
        result at hflat hgot hread ⊢
      generalize hroomy : f.makeRoom localmaxartsize = g at hshort hread ⊢
      obtain ⟨got, packets'⟩ := result
      dsimp only at hflat hgot hread ⊢
      rw [← hflat, mem_append, not_or] at hnone
      have hlengths := congrArg List.length hflat
      rw [length_append] at hlengths
      have hpos := List.length_pos_iff.mpr hgot
      rw [cut_of_notMem hnone.1]
      refine ih (hread hnone.1) (fun hok => ?_) hnone.2 (by omega)
      obtain ⟨hlong, hsame⟩ := hshort hok
      have heq := hlength hlong
      rw [hsame, length_append]
      omega

theorem fill_overruns {fuel : Nat} {before : Octets} (hpos : 0 < f.allocated)
    (hfits : f.buffer.length ≤ f.allocated)
    (hoverruns : Overruns localmaxartsize f.allocated (f.buffer.length + before.length))
    (hflat : packets.flatten = before ++ rest) (hnone : 10 ∉ before)
    (hfuel : packets.flatten.length < fuel) :
    Filling.fill localmaxartsize fuel f packets = .error .outOfBounds := by
  induction fuel generalizing f packets before with
  | zero => exact absurd hfuel (Nat.not_lt_zero _)
  | succ fuel ih =>
    obtain ⟨hcommand, hlimit, hfull⟩ := hoverruns
    by_cases hspace : f.buffer.length = f.allocated
    · have hnew : newsize localmaxartsize f.allocated = localmaxartsize :=
        if_pos ⟨hcommand, by omega⟩
      have hroom : f.makeRoom localmaxartsize = { f with allocated := localmaxartsize } := by
        unfold Filling.makeRoom
        rw [if_pos hspace, hnew, if_neg (by omega)]
      rw [Filling.fill, hroom]
      exact if_pos (by dsimp only; omega)
    · have hroom : f.makeRoom localmaxartsize = f := if_neg hspace
      have hlt : f.buffer.length < f.allocated := Nat.lt_of_le_of_ne hfits hspace
      have hsplit := doRead_flatten (f.allocated - f.buffer.length) packets
      have hsize := doRead_length (f.allocated - f.buffer.length) packets
      have hgot : (doRead (f.allocated - f.buffer.length) packets).1 ≠ [] := by
        intro hnil
        have hempty := doRead_nil (by omega) hnil
        rw [hflat] at hempty
        rw [(List.append_eq_nil_iff.mp hempty).1, List.length_nil] at hfull
        omega
      rw [fill_succ (by rw [hroom]; exact hlt) (by rw [hroom]; exact hgot) rfl, hroom]
      generalize hdoRead :
        doRead (f.allocated - f.buffer.length) packets = result at hsplit hsize hgot ⊢
      obtain ⟨got, packets'⟩ := result
      dsimp only at hsplit hsize hgot ⊢
      have hprefix : got ++ before.drop got.length = before := by
        have htake := congrArg (List.take got.length) (hsplit.trans hflat)
        rw [List.take_left, List.take_append_of_le_length (by omega)] at htake
        conv_lhs => rw [htake]
        rw [List.length_take_of_le (by omega), List.take_append_drop]
      have hrest : packets'.flatten = before.drop got.length ++ rest := by
        have hall := hsplit.trans hflat
        rw [← hprefix, append_assoc] at hall
        exact List.append_cancel_left hall
      rw [← hprefix, mem_append, not_or] at hnone
      have hlengths := congrArg List.length hsplit
      have hparts := congrArg List.length hprefix
      rw [length_append] at hlengths hparts
      have hcount := List.length_pos_iff.mpr hgot
      rw [cut_of_notMem hnone.1]
      refine ih hpos (by dsimp only; rw [length_append]; omega) ⟨hcommand, hlimit,
        ?_⟩ hrest hnone.2 (by omega)
      dsimp only
      rw [length_append]
      omega

end Filling

section Lines

variable {localmaxartsize : Nat} {line : Line} {packets : List Octets} {text rest : Octets}

instance (allocated n : Nat) : Decidable (Exceeds localmaxartsize allocated n) :=
    inferInstanceAs (Decidable (_ ∧ _ ∧ _))

structure Line.Holds (line : Line) : Prop where
  pos : 0 < line.allocated
  fits : line.remaining.length ≤ line.allocated

theorem read_line (hline : line.Holds)
    (hcut : cut 10 (line.remaining ++ packets.flatten) = some (text, rest))
    (hsafe : ¬Overruns localmaxartsize line.allocated text.length) :
    ∃ line' packets', line.read localmaxartsize packets =
        .ok (if Exceeds localmaxartsize line.allocated text.length then .RTlong else strip text,
          line', packets') ∧
      line'.remaining ++ packets'.flatten = rest ∧
      line'.allocated = bufferFor localmaxartsize text.length line.allocated ∧ line'.Holds := by
  unfold Line.read
  have hfits := hline.fits
  cases hpending : cut 10 line.remaining with
  | some halves =>
    obtain ⟨before, after⟩ := halves
    obtain ⟨hsplit, hbefore⟩ := of_cut hpending
    rw [hsplit, append_assoc, List.cons_append, cut_first hbefore] at hcut
    obtain ⟨rfl, rfl⟩ := Prod.mk.inj (Option.some.inj hcut)
    have hsizes := congrArg List.length hsplit
    rw [length_append, List.length_cons] at hsizes
    have hshort : ¬Exceeds localmaxartsize line.allocated before.length := by
      unfold Exceeds
      omega
    rw [if_neg hshort]
    have hroom : before.length < line.allocated := by omega
    exact ⟨_, _, rfl, rfl, (grow_of_lt hroom _).symm, hline.pos,
      show after.length ≤ line.allocated by omega⟩
  | none =>
    have hnone := of_cut_none hpending
    rw [cut_append hnone, Option.map_eq_some_iff] at hcut
    obtain ⟨⟨tail, rest'⟩, hcut', hhalves⟩ := hcut
    obtain ⟨rfl, rfl⟩ := Prod.mk.inj hhalves
    have hfills : Fills localmaxartsize ⟨line.allocated, line.remaining,
        false⟩ (line.remaining ++ tail).length :=
      ⟨hline.pos, hfits, hnone, nofun, fun _ => hsafe⟩
    obtain ⟨f', found, after, packets', heq, hrest, htoo, hfound, hsize, hafter, hpos⟩ :=
      fill_line hfills (fun _ => length_append.symm) hcut' (Nat.lt_succ_self _)
    dsimp only
    rw [heq]
    refine ⟨⟨f'.allocated, after⟩, packets', ?_, hrest, hsize, hpos, hafter⟩
    cases hlong : f'.tooLong with
    | true =>
      dsimp only
      rw [if_pos hlong, if_pos (htoo.mp hlong)]
    | false =>
      have hshort : ¬Exceeds localmaxartsize line.allocated (line.remaining ++ tail).length :=
        fun hmore =>
        absurd (hlong.symm.trans (htoo.mpr hmore)) Bool.false_ne_true
      dsimp only
      rw [if_neg (Bool.eq_false_iff.mp hlong), if_neg hshort, hfound hlong]

theorem read_eof (hline : line.Holds) (hcut : cut 10 (line.remaining ++ packets.flatten) = none)
    (hsafe : ¬Overruns localmaxartsize line.allocated (line.remaining ++ packets.flatten).length) :
    ∃ line' packets', line.read localmaxartsize packets = .ok (.RTeof, line', packets') := by
  have hnone := of_cut_none hcut
  rw [mem_append, not_or] at hnone
  have hfills : Fills localmaxartsize ⟨line.allocated, line.remaining,
      false⟩ (line.remaining ++ packets.flatten).length :=
    ⟨hline.pos, hline.fits, hnone.1, nofun, fun _ => hsafe⟩
  obtain ⟨f', packets', heq⟩ :=
    fill_eof hfills (fun _ => length_append.symm) hnone.2 (Nat.lt_succ_self _)
  unfold Line.read
  rw [cut_of_notMem hnone.1]
  rw [heq]
  exact ⟨_, _, rfl⟩

theorem read_overruns (hline : line.Holds) {more : Octets}
    (hsplit : line.remaining ++ packets.flatten = text ++ more)
    (hnone : 10 ∉ text) (hoverruns : Overruns localmaxartsize line.allocated text.length) :
    line.read localmaxartsize packets = .error .outOfBounds := by
  have hfits := hline.fits
  obtain ⟨hcommand, hlimit, hfull⟩ := hoverruns
  obtain ⟨tail, rfl⟩ : ∃ tail, text = line.remaining ++ tail := by
    have htake := congrArg (List.take line.remaining.length) hsplit
    rw [List.take_left, List.take_append_of_le_length (by omega)] at htake
    exact ⟨text.drop line.remaining.length,
      by conv_rhs => rw [htake, List.length_take_of_le (by omega), List.take_append_drop]⟩
  rw [mem_append, not_or] at hnone
  rw [append_assoc] at hsplit
  rw [length_append] at hfull
  unfold Line.read
  rw [cut_of_notMem hnone.1]
  rw [fill_overruns hline.pos hfits ⟨hcommand, hlimit,
    hfull⟩ (List.append_cancel_left hsplit) hnone.2 (Nat.lt_succ_self _)]

end Lines

section Results

variable {line : Line} {limits : List Nat} {packets : List Octets}

def lines : List Nat → Octets → List ReadType
  | [], _ => []
  | limit :: limits, s =>
    match cut 10 s with
    | none => [.RTeof]
    | some (text, rest) =>
      (if NNTP_MAXLEN_COMMAND < limit ∧ limit ≤ text.length then .RTlong else strip text) ::
        lines limits rest

def Steady : List Nat → Nat → Octets → Prop
  | [], _, _ => True
  | limit :: limits, allocated, s =>
    match cut 10 s with
    | none => ¬(NNTP_MAXLEN_COMMAND < limit ∧ limit < allocated ∧ allocated ≤ s.length)
    | some (text, rest) =>
      ¬(NNTP_MAXLEN_COMMAND < limit ∧ limit < allocated ∧ limit ≤ text.length) ∧
        Steady limits (bufferFor limit text.length allocated) rest

theorem strip_ne (text : Octets) : strip text ≠ .RTeof ∧ strip text ≠ .RTlong := by
  unfold strip
  split <;> exact ⟨nofun, nofun⟩

theorem readAll_cons {limit : Nat} {line' : Line} {packets' : List Octets} {result : ReadType}
    (hresult : result ≠ .RTeof) (hread : line.read limit packets = .ok (result, line', packets')) :
    Line.readAll (limit :: limits) line packets =
      (Line.readAll limits line' packets').map (result :: ·) := by
  rw [Line.readAll, hread]
  cases result with
  | RTeof => exact absurd rfl hresult
  | RTok _ _ | RTlong =>
    dsimp only
    cases Line.readAll limits line' packets' with
    | error fault => rfl
    | ok results => rfl

theorem readAll_iff (hline : line.Holds) :
    Line.readAll limits line packets = .ok (lines limits (line.remaining ++ packets.flatten)) ↔
      Steady limits line.allocated (line.remaining ++ packets.flatten) := by
  induction limits generalizing line packets with
  | nil => exact ⟨fun _ => trivial, fun _ => rfl⟩
  | cons limit limits ih =>
    rw [lines, Steady]
    cases hcut : cut 10 (line.remaining ++ packets.flatten) with
    | none =>
      dsimp only
      by_cases hover : Overruns limit line.allocated (line.remaining ++ packets.flatten).length
      · have hread := read_overruns hline (List.append_nil _).symm (of_cut_none hcut) hover
        rw [Line.readAll, hread]
        exact ⟨nofun, fun hsteady => absurd hover hsteady⟩
      · obtain ⟨line', packets', hread⟩ := read_eof hline hcut hover
        rw [Line.readAll, hread]
        exact ⟨fun _ => hover, fun _ => rfl⟩
    | some halves =>
      obtain ⟨text, rest⟩ := halves
      dsimp only
      by_cases hover : Overruns limit line.allocated text.length
      · obtain ⟨hsplit, hnone⟩ := of_cut hcut
        have hread := read_overruns hline hsplit hnone hover
        obtain ⟨hcommand, hlimit, hfull⟩ := hover
        rw [Line.readAll, hread]
        exact ⟨nofun, fun hsteady => absurd ⟨hcommand, hlimit, by omega⟩ hsteady.1⟩
      · obtain ⟨line', packets', hread, hrest, hsize, hline'⟩ := read_line hline hcut hover
        by_cases hlow : NNTP_MAXLEN_COMMAND < limit ∧ limit < line.allocated ∧ limit ≤ text.length
        · have hshort : ¬Exceeds limit line.allocated text.length :=
            fun hmore => hover ⟨hlow.1, hlow.2.1, hmore.2.2⟩
          rw [if_neg hshort] at hread
          rw [readAll_cons (strip_ne text).1 hread, if_pos ⟨hlow.1, hlow.2.2⟩]
          refine ⟨fun heq => ?_, fun hsteady => absurd hlow hsteady.1⟩
          cases hall : Line.readAll limits line' packets' with
          | error fault =>
            rw [hall] at heq
            cases heq
          | ok results =>
            rw [hall] at heq
            exact absurd (List.cons.inj (Except.ok.inj heq)).1 (strip_ne text).2
        · have hlong : Exceeds limit line.allocated text.length ↔
              NNTP_MAXLEN_COMMAND < limit ∧ limit ≤ text.length := by
            unfold Exceeds
            omega
          have hresult :
              (if Exceeds limit line.allocated text.length then ReadType.RTlong else strip text) =
              if NNTP_MAXLEN_COMMAND < limit ∧ limit ≤ text.length then .RTlong else strip text :=
                if_congr hlong rfl rfl
          rw [hresult] at hread
          have hne :
              (if NNTP_MAXLEN_COMMAND < limit ∧ limit ≤ text.length then ReadType.RTlong
                else strip text) ≠ .RTeof := by
            split
            · nofun
            · exact (strip_ne text).1
          rw [readAll_cons hne hread, ← hrest, ← hsize, and_iff_right hlow, ← ih hline']
          cases Line.readAll limits line' packets' with
          | error fault => exact ⟨nofun, nofun⟩
          | ok results => exact ⟨fun heq => congrArg _ (List.cons.inj (Except.ok.inj heq)).2,
              fun heq => congrArg _ (congrArg _ (Except.ok.inj heq))⟩

/-- A client's lines are read, however they arrive, exactly when the limit is not lowered below the
size of the buffer when a line comes that is longer. -/
theorem lines_read_iff (limits : List Nat) (packets : List Octets) :
    Line.readAll limits lineInit packets = .ok (lines limits packets.flatten) ↔
      Steady limits lineInit.allocated packets.flatten :=
  readAll_iff ⟨Nat.succ_pos _, Nat.zero_le _⟩

/-- The limit is lowered after a line that has made the buffer grow, and the next line is longer. -/
theorem not_lines_read_lowered :
    Line.readAll [1024, 600] lineInit [List.replicate 600 120 ++ [10],
      List.replicate 1100 120 ++ [10]] = .error .outOfBounds ∧
      lines [1024, 600] (List.replicate 600 120 ++ [10] ++ (List.replicate 1100 120 ++ [10])) =
        [.RTok (List.replicate 600 120) 1, .RTlong] := by
  decide +kernel

end Results

end Inn.Nnrpd
