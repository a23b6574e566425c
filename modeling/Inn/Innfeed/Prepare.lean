import Inn.Foundation.Bounded
import Inn.Innfeed.Buffers
import Inn.Lib.Native

/-!
# Articles in wire format, in place

An article is brought into wire format in the buffer it is in. The octets that are to be added are
counted first, from the end to the start; when there is room for them, the article is moved to the
end of it, octet by octet from its end, and they are put in on the way.

An error stands for a read or a write outside of the buffer, or for a number that is not an `int`.
-/

namespace Inn.Innfeed.Prepare

open Buffers
open Foundation.Bounded (peek peek_ok)
open Lib.Native (fromNative wireFromNative)
open List (length_append length_cons length_singleton length_nil append_assoc append_nil)

def poke (base : Octets) (i : Nat) (c : UInt8) : Except Unit Octets :=
  if i < base.length then .ok (base.set i c) else .error ()

def put (base : Octets) (d : Nat) (c : UInt8) : Except Unit (Octets × Nat) :=
  match d with
  | 0 => .error ()
  | d + 1 => (poke base d c).map (·, d)

def putAll (base : Octets) (d : Nat) : Octets → Except Unit (Octets × Nat)
  | [] => .ok (base, d)
  | c :: cs => do
      let (base, d) ← put base d c
      putAll base d cs

def added (c p : UInt8) : Nat := if c = 10 then if p = 46 then 2 else 1 else 0

def count (base : Octets) : Nat → UInt8 → Nat → Except Unit Nat
  | 0, _, extra => .ok extra
  | n + 1, p, extra => do
      let c ← peek base n
      count base n c (extra + added c p)

def move : (n d : Nat) → UInt8 → Nat → Octets → Except Unit Octets
  | 0, _, _, _, _ => .error ()
  | n + 1, d, p, extra, base => do
      let c ← peek base n
      if c = 10 then
        let (base, d) ← putAll base d ((if p = 46 then [46] else []) ++ [10, 13])
        let extra := extra - added c p
        if extra = 0 then return base else move n d 0 extra base
      else
        let (base, d) ← put base d c
        move n d c extra base

def int (n : Nat) : Except Unit Nat := if n < 2 ^ 31 then .ok n else .error ()

def makeRoom (buffer : BufferS) (newDsize : Nat) (fresh : Nat → UInt8) : Option BufferS :=
  -- `msize` is less than `memSize` by one
  if buffer.memSize < newDsize + 1 then expandBuffer buffer (newDsize + 1 - buffer.memSize) fresh
    else some buffer

def store (buffer : BufferS) (base : Octets) (size : Nat) : Except Unit BufferS :=
  if h : base.length = buffer.mem.length ∧ size ≤ buffer.memSize then
    .ok { buffer with mem := base, dataSize := size, fits := h.2, owned := h.1.trans buffer.owned }
  else .error ()

def ending (needfinal : Bool) : Octets := (if needfinal then [13, 10] else []) ++ [46, 13, 10]

def rewrite (base : Octets) (dsize newDsize extra : Nat) (needfinal : Bool) :
    Except Unit Octets := do
  let (base, d) ← putAll base (newDsize + 1) (0 :: (ending needfinal).reverse)
  let extra := extra - (ending needfinal).length
  if extra = 0 then .ok base else move dsize d 0 extra base

def nntpPrepareBuffer (buffer : BufferS) (fresh : Nat → UInt8) : Except Unit (BufferS × Bool) := do
  let dsize ← int buffer.dataSize
  let _ ← int (buffer.memSize - 1)
  -- the octet at `src` is looked at when the loop is over, also when it is in front of the base
  if dsize = 0 then .error ()
  else
    let base := buffer.mem
    let extra ← count base dsize 0 3
    let last ← peek base (dsize - 1)
    let needfinal := decide (last ≠ 10)
    let extra := if needfinal then extra + 2 else extra
    let newDsize ← int (dsize + extra)
    match makeRoom buffer newDsize fresh with
    | none => return (buffer, false)
    | some buffer =>
      let base ← rewrite buffer.mem dsize newDsize extra needfinal
      let buffer ← store buffer base newDsize
      return (buffer, true)

section Expanding

variable {front gap back tail : Octets}

theorem fromNative_head (back : Octets) :
    fromNative true back = (if back.head? = some 46 then [46] else []) ++
      fromNative false back := by
  cases back with
  | nil => rfl
  | cons c back =>
    rw [fromNative, fromNative, List.head?_cons]
    by_cases hfeed : c = 10
    · simp [hfeed]
    · by_cases hdot : c = 46 <;> simp [hfeed, hdot]

theorem fromNative_append_length (atStart : Bool) (front back : Octets) :
    front.length + front.count 10 + (fromNative false back).length ≤
      (fromNative atStart (front ++ back)).length := by
  induction front generalizing atStart with
  | nil =>
    cases atStart with
    | false => simp
    | true =>
      rw [List.nil_append, fromNative_head, length_append]
      simp
  | cons c front ih =>
    rw [List.cons_append, fromNative, length_cons, List.count_cons]
    by_cases hfeed : c = 10
    · have := ih true
      rw [if_pos hfeed, if_pos (by simp [hfeed]), length_cons, length_cons]
      omega
    · have := ih false
      rw [if_neg hfeed, if_neg (by simp [hfeed])]
      split
      · rw [length_cons, length_cons]
        omega
      · rw [length_cons]
        omega

theorem fromNative_append (hfeed : 10 ∉ front) :
    fromNative false (front ++ back) = front ++ fromNative false back := by
  induction front with
  | nil => rfl
  | cons c front ih =>
    rw [List.mem_cons, not_or] at hfeed
    rw [List.cons_append, fromNative, if_neg (Ne.symm hfeed.1), if_neg (by simp), ih hfeed.2]
    rfl

theorem fromNative_cons_length (c : UInt8) {p : UInt8} (back : Octets)
    (hp : p = 46 ↔ back.head? = some 46) :
    (fromNative false (c :: back)).length = 1 + added c p + (fromNative false back).length := by
  rw [fromNative, added]
  by_cases hfeed : c = 10
  · rw [if_pos hfeed, if_pos hfeed, fromNative_head, length_cons, length_cons, length_append]
    by_cases hdot : p = 46
    · rw [if_pos hdot, if_pos (hp.mp hdot), length_singleton]
      omega
    · rw [if_neg hdot, if_neg (mt hp.mpr hdot), length_nil]
      omega
  · rw [if_neg hfeed, if_neg hfeed, if_neg (by simp), length_cons]
    omega

end Expanding

section Counting

variable {front back tail : Octets} {p : UInt8}

theorem count_eq (extra : Nat) (hp : p = 46 ↔ back.head? = some 46) :
    ∃ n, count (front ++ back ++ tail) front.length p extra = .ok (extra + n) ∧
      front.length + n + (fromNative false back).length =
        (fromNative false (front ++ back)).length := by
  induction front using List.reverseRecOn generalizing back p extra with
  | nil => exact ⟨0, rfl, by simp⟩
  | append_singleton front c ih =>
    obtain ⟨n, hcount, hlength⟩ := @ih (c :: back) c (extra + added c p) (by simp)
    have hpeek : peek (front ++ [c] ++ back ++ tail) front.length = .ok c := peek_ok (by simp)
    refine ⟨added c p + n, ?_, ?_⟩
    · rw [length_append, length_singleton, count, hpeek, ← Nat.add_assoc, ← hcount]
      simp only [append_assoc, List.cons_append, List.nil_append]
      rfl
    · have hcons := fromNative_cons_length c back hp
      rw [length_append, length_singleton, append_assoc, List.singleton_append, ← hlength]
      omega

end Counting

section Moving

variable {front gap back tail : Octets} {p : UInt8} {k : Nat}

theorem put_gap (hgap : gap.length = k + 1) (c : UInt8) :
    ∃ gap' : Octets, gap'.length = k ∧
      put (front ++ gap ++ tail) (front.length + (k + 1)) c =
        .ok (front ++ gap' ++ c :: tail, front.length + k) := by
  obtain ⟨gap', last, rfl⟩ : ∃ gap' last, gap = gap' ++ [last] :=
    ⟨gap.dropLast, gap.getLast (by rintro rfl; cases hgap), (List.dropLast_concat_getLast _).symm⟩
  rw [length_append, length_singleton, Nat.add_right_cancel_iff] at hgap
  refine ⟨gap', hgap, ?_⟩
  have hset : (front ++ (gap' ++ [last]) ++ tail).set (front.length + k) c =
      front ++ gap' ++ c :: tail := by
    rw [show front ++ (gap' ++ [last]) ++ tail =
      front ++ gap' ++ last :: tail by simp, ← hgap, ← length_append,
      List.set_append_right _ _ (Nat.le_refl _), Nat.sub_self, List.set_cons_zero]
  rw [← Nat.add_assoc, put, poke, if_pos, hset]
  · rfl
  · simp only [length_append, hgap]
    simp only [length_singleton]
    omega

theorem putAll_gap (cs : Octets) (hgap : gap.length = k + cs.length) :
    ∃ gap' : Octets, gap'.length = k ∧
      putAll (front ++ gap ++ tail) (front.length + (k + cs.length)) cs =
        .ok (front ++ gap' ++ (cs.reverse ++ tail), front.length + k) := by
  induction cs generalizing gap tail with
  | nil => exact ⟨gap, hgap, rfl⟩
  | cons c cs ih =>
    obtain ⟨gap₁, hgap₁, hput⟩ :=
      @put_gap front gap tail (k + cs.length) (by rw [hgap, length_cons, Nat.add_assoc]) c
    obtain ⟨gap₂, hgap₂, hputs⟩ := @ih gap₁ (c :: tail) hgap₁
    refine ⟨gap₂, hgap₂, ?_⟩
    rw [length_cons, ← Nat.add_assoc k, putAll, hput, List.reverse_cons, append_assoc cs.reverse,
      List.singleton_append]
    exact hputs

theorem move_eq (hp : p = 46 ↔ back.head? = some 46) (hgap : 0 < gap.length)
    (hlength : front.length + gap.length + (fromNative false back).length =
      (fromNative false (front ++ back)).length) :
    move front.length (front.length + gap.length) p gap.length
      (front ++ gap ++ (fromNative false back ++ tail)) =
      .ok (fromNative false (front ++ back) ++ tail) := by
  induction front using List.reverseRecOn generalizing back p gap with
  | nil =>
    rw [length_nil, List.nil_append] at hlength
    omega
  | append_singleton front c ih =>
    have hpeek : peek (front ++ [c] ++ gap ++ (fromNative false back ++ tail)) front.length =
        .ok c := peek_ok (by simp)
    have hcons := fromNative_cons_length c back hp
    have hmost := fromNative_append_length false front (c :: back)
    have hwhole : front ++ [c] ++ back = front ++ c :: back := by simp
    rw [hwhole, length_append, length_singleton] at hlength
    rw [hwhole, length_append, length_singleton, move, hpeek]
    have hmem : front ++ [c] ++ gap ++ (fromNative false back ++ tail) =
        front ++ ([c] ++ gap) ++ (fromNative false back ++ tail) := by simp
    change (if c = 10 then _ else _) = _
    by_cases hfeed : c = 10
    · obtain rfl := hfeed
      generalize hcs : ((if p = 46 then [46] else []) ++ [10, 13] : Octets) = cs
      have hlen : cs.length = added 10 p + 1 := by
        rw [← hcs, added, if_pos rfl]
        split <;> rfl
      have hback : fromNative false (10 :: back) ++ tail =
          cs.reverse ++ (fromNative false back ++ tail) := by
        rw [fromNative, if_pos rfl, fromNative_head, ← hcs]
        by_cases hdot : p = 46
        · simp [hdot, hp.mp hdot]
        · simp [hdot, mt hp.mpr hdot]
      obtain ⟨k, hk⟩ : ∃ k, gap.length = k + added 10 p := ⟨gap.length - added 10 p, by omega⟩
      obtain ⟨gap', hgap', hput⟩ :=
        @putAll_gap front ([10] ++ gap) (fromNative false back ++ tail) k cs (by
        rw [length_append, length_singleton, hlen, hk]
        omega)
      have hd : front.length + 1 + gap.length = front.length + (k + cs.length) := by omega
      rw [if_pos rfl, hmem, hd, hput, ← hback]
      change (if gap.length - added 10 p = 0 then _ else _) = _
      rw [hk, Nat.add_sub_cancel]
      by_cases hdone : k = 0
      · have hnone : 10 ∉ front := List.count_eq_zero.mp (by omega)
        rw [if_pos hdone, List.length_eq_zero_iff.mp (hgap'.trans hdone),
          fromNative_append hnone, append_nil,
          append_assoc]
        rfl
      · rw [if_neg hdone, ← hgap']
        exact ih (by simp) (by omega) (by rw [hgap']; omega)
    · have hadded : added c p = 0 := if_neg hfeed
      obtain ⟨gap', hgap', hput⟩ :=
        @put_gap front ([c] ++ gap) (fromNative false back ++ tail) gap.length (by simp) c
      have hback : fromNative false (c :: back) = c :: fromNative false back := by
        rw [fromNative, if_neg hfeed, if_neg (by simp)]
      have hnext := @ih gap' (c :: back) c (by simp) (by omega) (by rw [hgap']; omega)
      rw [if_neg hfeed, hmem, Nat.add_assoc, Nat.add_comm 1, hput]
      rw [hgap', hback] at hnext
      exact hnext

end Moving

section Articles

variable {text : Octets} {buffer : BufferS} {fresh : Nat → UInt8} {size : Nat}

def finished (text : Octets) : Octets :=
    if text = [] ∨ text.getLast? = some 10 then text else text ++ [10]

def preparedSize (text : Octets) : Nat := (fromNative false (finished text)).length + 3

def Roomy (buffer : BufferS) (size : Nat) : Prop := buffer.deletable = true ∨ size < buffer.memSize

instance (buffer : BufferS) (size : Nat) : Decidable (Roomy buffer size) :=
    inferInstanceAs (Decidable (_ ∨ _))

theorem fromNative_newline (atStart : Bool) (text : Octets) :
    fromNative atStart (text ++ [10]) = fromNative atStart text ++ [13, 10] := by
  induction text generalizing atStart with
  | nil => cases atStart <;> rfl
  | cons c text ih =>
    rw [List.cons_append, fromNative, fromNative, ih, ih]
    split
    · rfl
    · split <;> rfl

theorem fromNative_finished (hne : text ≠ []) :
    fromNative false (finished text) ++ [46, 13, 10] =
      fromNative false text ++ ending (decide (text.getLast hne ≠ 10)) := by
  rw [finished, ending, List.getLast?_eq_some_getLast hne]
  by_cases hlast : text.getLast hne = 10
  · simp [hlast]
  · rw [if_neg (by simp [hne, hlast]), fromNative_newline]
    simp [hlast]

theorem makeRoom_none (hroom : ¬Roomy buffer size) : makeRoom buffer size fresh = none := by
  rw [Roomy, not_or] at hroom
  rw [makeRoom, if_pos (by omega), expandBuffer, dif_neg hroom.1]

theorem makeRoom_some (hroom : Roomy buffer size) :
    ∃ buffer', makeRoom buffer size fresh = some buffer' ∧ buffer'.contents = buffer.contents ∧
      buffer'.dataSize = buffer.dataSize ∧ size < buffer'.memSize := by
  rw [makeRoom]
  by_cases hsmall : buffer.memSize < size + 1
  · have hdeletable : buffer.deletable = true := hroom.resolve_right (by omega)
    rw [if_pos hsmall, expandBuffer, dif_pos hdeletable]
    refine ⟨_, rfl, ?_, rfl, by dsimp only; omega⟩
    have hle : buffer.dataSize ≤ buffer.memSize + (size + 1 - buffer.memSize) + 1 := by
      have := buffer.fits
      omega
    exact take_xrealloc fresh (dataSize_le_length buffer) hle
  · rw [if_neg hsmall]
    exact ⟨buffer, rfl, rfl, rfl, by omega⟩

theorem int_ok {n : Nat} (hn : n < 2 ^ 31) : int n = .ok n := if_pos hn

def Ints (buffer : BufferS) : Prop :=
    buffer.memSize ≤ 2 ^ 31 ∧ preparedSize buffer.contents < 2 ^ 31

theorem rewrite_eq {n : Nat} {needfinal : Bool} {rest : Octets}
    (hlength : text.length + n = (fromNative false text).length)
    (hsize : size = (fromNative false text ++ ending needfinal).length)
    (hrest : size < (text ++ rest).length) :
    ∃ tail : Octets, rewrite (text ++ rest) text.length size
      (n + (ending needfinal).length) needfinal =
      .ok (fromNative false text ++ ending needfinal ++ 0 :: tail) ∧
      (fromNative false text ++ ending needfinal ++ 0 :: tail).length = (text ++ rest).length := by
  rw [length_append] at hsize hrest
  rw [rewrite, Nat.add_sub_cancel]
  generalize hcs : 0 :: (ending needfinal).reverse = cs
  have hcslength : cs.length = (ending needfinal).length + 1 := by rw [← hcs]; simp
  have hreverse : cs.reverse = ending needfinal ++ [0] := by rw [← hcs]; simp
  have hgap : (rest.take (n + cs.length)).length = n + cs.length := by
    rw [List.length_take]
    omega
  obtain ⟨gap, hgap', hput⟩ :=
    @putAll_gap text (rest.take (n + cs.length)) (rest.drop (n + cs.length)) n cs hgap
  have hmem : text ++ rest.take (n + cs.length) ++ rest.drop (n + cs.length) = text ++ rest := by
    rw [append_assoc, List.take_append_drop]
  have hd : size + 1 = text.length + (n + cs.length) := by omega
  refine ⟨rest.drop (n + cs.length), ?_, ?_⟩
  · rw [hd, ← hmem, hput, hreverse]
    change (if n = 0 then _ else _) = _
    by_cases hzero : n = 0
    · have hmost := fromNative_append_length false text []
      rw [append_nil, fromNative, length_nil] at hmost
      have hplain := @fromNative_append text [] (List.count_eq_zero.mp (by omega))
      rw [append_nil, fromNative, append_nil] at hplain
      rw [if_pos hzero, List.length_eq_zero_iff.mp (hgap'.trans hzero), hplain]
      simp
    · have hmove :=
        @move_eq text gap [] (ending needfinal ++ 0 :: rest.drop (n + cs.length)) 0
        (by simp) (by omega)
        (by rw [append_nil, fromNative, length_nil, hgap']; exact hlength)
      rw [hgap', append_nil, fromNative, List.nil_append] at hmove
      rw [if_neg hzero, append_assoc (ending needfinal), List.singleton_append, hmove, append_assoc]
  · rw [← hmem]
    simp only [length_append, length_cons, hgap]
    omega

theorem store_ok {base : Octets} (hbase : base.length = buffer.mem.length)
    (hsize : size ≤ buffer.memSize) :
    ∃ buffer', store buffer base size = .ok buffer' ∧ buffer'.contents = base.take size :=
  ⟨_, dif_pos ⟨hbase, hsize⟩, rfl⟩

def finish (buffer : BufferS) (fresh : Nat → UInt8) (extra : Nat) (needfinal : Bool)
    (newDsize : Nat) :
    Except Unit (BufferS × Bool) :=
  match makeRoom buffer newDsize fresh with
  | none => .ok (buffer, false)
  | some buffer' => do
      let base ← rewrite buffer'.mem buffer.dataSize newDsize extra needfinal
      let buffer'' ← store buffer' base newDsize
      return (buffer'', true)

theorem nntpPrepareBuffer_count (hne : buffer.contents ≠ []) (hdsize : buffer.dataSize < 2 ^ 31)
    (hmsize : buffer.memSize ≤ 2 ^ 31) :
    ∃ n needfinal, buffer.contents.length + n = (fromNative false buffer.contents).length ∧
      fromNative false (finished buffer.contents) ++ [46, 13, 10] =
        fromNative false buffer.contents ++ ending needfinal ∧
      nntpPrepareBuffer buffer fresh =
        int (preparedSize buffer.contents) >>=
          finish buffer fresh (n + (ending needfinal).length) needfinal := by
  have hlen : buffer.contents.length = buffer.dataSize := by
    rw [BufferS.contents, List.length_take, Nat.min_eq_left (dataSize_le_length buffer)]
  have hpos := List.length_pos_iff.mpr hne
  have hbase : buffer.contents ++ buffer.mem.drop buffer.dataSize = buffer.mem :=
    List.take_append_drop ..
  obtain ⟨n, hcount, hlength⟩ :=
    @count_eq buffer.contents [] (buffer.mem.drop buffer.dataSize) 0 3 (by simp)
  rw [append_nil, hbase, hlen] at hcount
  rw [append_nil, fromNative, length_nil, Nat.add_zero] at hlength
  have hlast : peek buffer.mem (buffer.dataSize - 1) = .ok (buffer.contents.getLast hne) := by
    refine peek_ok ?_
    rw [← hbase, ← hlen, List.getElem?_append_left (by omega), ← List.getLast?_eq_getElem?,
      List.getLast?_eq_some_getLast hne]
  have hfinished := fromNative_finished hne
  generalize hneed : decide (buffer.contents.getLast hne ≠ 10) = needfinal at hfinished
  have hextra :
      (if needfinal = true then 3 + n + 2 else 3 + n) = n + (ending needfinal).length := by
    cases needfinal
    · exact Nat.add_comm 3 n
    · simp [ending, Nat.add_comm, Nat.add_left_comm]
  have hnew : buffer.dataSize + (n + (ending needfinal).length) = preparedSize buffer.contents := by
    have hsize := congrArg List.length hfinished
    rw [length_append, length_append, length_cons, length_cons, length_singleton] at hsize
    rw [preparedSize, hsize]
    omega
  refine ⟨n, needfinal, hlength, hfinished, ?_⟩
  rw [nntpPrepareBuffer, int_ok hdsize, int_ok (by omega : buffer.memSize - 1 < 2 ^ 31)]
  change (if buffer.dataSize = 0 then _ else _) = _
  rw [if_neg (by omega)]
  rw [hcount, hlast]
  change (do
    let newDsize ← int (buffer.dataSize + if decide (buffer.contents.getLast hne ≠
      10) = true then 3 + n + 2 else 3 + n)
    _) = _
  rw [hneed, hextra, hnew]
  rfl

theorem nntpPrepareBuffer_eq (hne : buffer.contents ≠ []) (hints : Ints buffer) :
    ∃ buffer', nntpPrepareBuffer buffer fresh =
      .ok (buffer', decide (Roomy buffer (preparedSize buffer.contents))) ∧
      (¬Roomy buffer (preparedSize buffer.contents) → buffer' = buffer) ∧
      (Roomy buffer (preparedSize buffer.contents) →
        buffer'.contents = fromNative false (finished buffer.contents) ++ [46, 13, 10]) := by
  have hlen : buffer.contents.length = buffer.dataSize := by
    rw [BufferS.contents, List.length_take, Nat.min_eq_left (dataSize_le_length buffer)]
  have hle : buffer.dataSize ≤ preparedSize buffer.contents := by
    have hmost := fromNative_append_length false (finished buffer.contents) []
    rw [append_nil, fromNative, length_nil] at hmost
    have hlonger : buffer.contents.length ≤ (finished buffer.contents).length := by
      rw [finished]
      split
      · exact Nat.le_refl _
      · exact Nat.le_of_lt (by simp)
    rw [preparedSize]
    omega
  obtain ⟨n, needfinal, hlength, hfinished, hrun⟩ :=
    @nntpPrepareBuffer_count buffer fresh hne (hle.trans_lt hints.2) hints.1
  have hsize : preparedSize buffer.contents =
      (fromNative false buffer.contents ++ ending needfinal).length := by
    rw [preparedSize, ← hfinished, length_append]
    rfl
  rw [hrun, int_ok hints.2]
  change ∃ buffer', finish buffer fresh _ needfinal (preparedSize buffer.contents) = _ ∧ _
  rw [finish]
  by_cases hroom : Roomy buffer (preparedSize buffer.contents)
  · obtain ⟨buffer', hmake, hcontents, hdata, hlarge⟩ := @makeRoom_some buffer fresh _ hroom
    have hbase : buffer.contents ++ buffer'.mem.drop buffer.dataSize = buffer'.mem := by
      rw [← hcontents, BufferS.contents, hdata, List.take_append_drop]
    have hlong : preparedSize buffer.contents < buffer'.mem.length := by
      rw [buffer'.owned]
      omega
    obtain ⟨tail, hrewrite, htail⟩ :=
      @rewrite_eq buffer.contents _ n needfinal (buffer'.mem.drop buffer.dataSize) hlength
      hsize (by rwa [hbase])
    rw [hbase, hlen] at hrewrite
    rw [hbase] at htail
    obtain ⟨buffer'', hstore, hresult⟩ := store_ok htail (Nat.le_of_lt hlarge)
    refine ⟨buffer'', ?_, fun h => absurd hroom h, fun _ => ?_⟩
    · rw [hmake, decide_eq_true hroom]
      dsimp only
      rw [hrewrite]
      change (do
        let buffer'' ← store buffer' _ (preparedSize buffer.contents)
        return (buffer'', true)) = _
      rw [hstore]
      rfl
    · rw [hresult, hsize, List.take_left, hfinished]
  · refine ⟨buffer, ?_, fun _ => rfl, fun h => absurd h hroom⟩
    rw [makeRoom_none hroom, decide_eq_false hroom]

/-- The contents get the wire format, or stay as they are. -/
def Prepares (buffer : BufferS) (fresh : Nat → UInt8) : Prop :=
  ∃ buffer' ok, nntpPrepareBuffer buffer fresh = .ok (buffer', ok) ∧
    if ok then buffer'.contents = (wireFromNative (finished buffer.contents)).octets
      else buffer' = buffer

theorem int_error {n : Nat} (hn : ¬n < 2 ^ 31) : int n = .error () := if_neg hn

theorem ints_of_ok {result : BufferS × Bool} (hrun : nntpPrepareBuffer buffer fresh = .ok result) :
    buffer.contents ≠ [] ∧ Ints buffer := by
  have hdsize : buffer.dataSize < 2 ^ 31 := by
    by_contra hlarge
    rw [nntpPrepareBuffer, int_error hlarge] at hrun
    cases hrun
  have hmsize : buffer.memSize - 1 < 2 ^ 31 := by
    by_contra hlarge
    rw [nntpPrepareBuffer, int_ok hdsize, int_error hlarge] at hrun
    cases hrun
  have hne : buffer.contents ≠ [] := by
    intro hempty
    have hzero : buffer.dataSize = 0 := by
      have hlen := congrArg List.length hempty
      rwa [BufferS.contents, List.length_take, Nat.min_eq_left (dataSize_le_length buffer)] at hlen
    rw [nntpPrepareBuffer, int_ok hdsize, int_ok hmsize] at hrun
    change (if buffer.dataSize = 0 then _ else _) = _ at hrun
    rw [if_pos hzero] at hrun
    cases hrun
  refine ⟨hne, by omega, ?_⟩
  by_contra hlarge
  obtain ⟨n, needfinal, -, -, hcount⟩ := @nntpPrepareBuffer_count buffer fresh hne hdsize (by omega)
  rw [hcount, int_error hlarge] at hrun
  cases hrun

/-- A buffer is prepared if it has data that does not start with a dot, or is not to be changed. -/
theorem prepares_iff (buffer : BufferS) (fresh : Nat → UInt8) :
    Prepares buffer fresh ↔
      buffer.contents ≠ [] ∧ Ints buffer ∧
        (buffer.contents.head? = some 46 → ¬Roomy buffer (preparedSize buffer.contents)) := by
  constructor
  · rintro ⟨buffer', ok, hrun, hresult⟩
    obtain ⟨hne, hints⟩ := ints_of_ok hrun
    refine ⟨hne, hints, fun hdot hroom => ?_⟩
    obtain ⟨buffer'', hrun', -, hcontents⟩ := @nntpPrepareBuffer_eq buffer fresh hne hints
    rw [hrun, decide_eq_true hroom] at hrun'
    obtain ⟨rfl, rfl⟩ := Prod.mk.inj (Except.ok.inj hrun')
    rw [if_pos rfl, hcontents hroom, wireFromNative, fromNative_head] at hresult
    have hhead : (finished buffer.contents).head? = some 46 := by
      rw [finished]
      split
      · exact hdot
      · rw [List.head?_append, hdot]
        rfl
    have hlength := congrArg List.length hresult
    rw [if_pos hhead] at hlength
    simp at hlength
  · rintro ⟨hne, hints, hdot⟩
    obtain ⟨buffer', hrun, hsame, hcontents⟩ := @nntpPrepareBuffer_eq buffer fresh hne hints
    refine ⟨buffer', _, hrun, ?_⟩
    by_cases hroom : Roomy buffer (preparedSize buffer.contents)
    · have hhead : (finished buffer.contents).head? ≠ some 46 := by
        obtain ⟨c, rest, hcons⟩ := List.exists_cons_of_ne_nil hne
        have hc : c ≠ 46 := fun h => hdot (by rw [hcons, h]; rfl) hroom
        rw [finished, hcons]
        split
        · simpa using hc
        · simpa using hc
      rw [if_pos (decide_eq_true hroom), hcontents hroom, wireFromNative,
        fromNative_head, if_neg hhead]
      rfl
    · rw [if_neg (by simpa using hroom)]
      exact hsame hroom

def dotted : BufferS where
  mem := octets ".a\n" ++ List.replicate 8 0
  memSize := 10
  dataSize := 3
  deletable := true
  fits := by decide
  owned := by decide

/-- The dot is not doubled. -/
theorem not_prepares : ¬∀ (buffer : BufferS) (fresh : Nat → UInt8), Prepares buffer fresh := by
  intro hall
  obtain ⟨buffer', ok, hrun, hresult⟩ := hall dotted fun _ => 0
  have hend :
      (nntpPrepareBuffer dotted fun _ => 0).map (fun result => (result.1.contents, result.2)) =
      .ok (octets ".a\r\n.\r\n", true) := by decide
  rw [hrun] at hend
  obtain ⟨hcontents, rfl⟩ := Prod.mk.inj (Except.ok.inj hend)
  rw [if_pos rfl] at hresult
  exact absurd (hcontents.symm.trans hresult) (by decide)

end Articles

end Inn.Innfeed.Prepare
