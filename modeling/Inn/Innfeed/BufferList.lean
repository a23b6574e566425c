import Inn.Foundation.Linked
import Inn.Foundation.Runs
import Inn.Foundation.Threaded
import Inn.Innfeed.Buffers

/-!
# The list of all buffers

Buffers are counted by their references. Those with references are linked in both directions, and
the others wait in a pool that is linked through the same field. The octets of all memory that
buffers own are counted, too.
-/

namespace Inn.Innfeed.BufferList

open Foundation.Runs
open Buffers (xrealloc xrealloc_length)
open Function (update update_of_ne update_self)

def BUFFER_POOL_SIZE : Nat := 56

structure BufferS where
  refCount : Nat
  mem : Octets
  memSize : Nat
  dataSize : Nat
  deletable : Bool

/-- The list of the buffers in use, and the pool of the others. -/
structure State where
  gBufferList : Option Nat
  bufferPool : Option Nat
  bufferCount : UInt32
  bufferByteCount : UInt32
  next : Nat → Option Nat
  prev : Nat → Option Nat
  buffer : Nat → Option BufferS
  allocated : Nat

def initial : State := ⟨none, none, 0, 0, fun _ => none, fun _ => none, fun _ => none, 0⟩

inductive Stop
  | died
  | released
  | outside
  | overflow
  deriving DecidableEq

def fillBufferPool (s : State) : State :=
  { s with
    bufferPool := some s.allocated
    next := fun i =>
      if i < s.allocated ∨ s.allocated + BUFFER_POOL_SIZE ≤ i then s.next i
      else if i + 1 < s.allocated + BUFFER_POOL_SIZE then some (i + 1) else none
    allocated := s.allocated + BUFFER_POOL_SIZE }

def takeBuffer (s : State) : Except Stop (Nat × State) :=
  let s := if s.bufferPool = none then fillBufferPool s else s
  match s.bufferPool with
  | none => .error .died
  | some nb => .ok (nb, { s with bufferPool := s.next nb })

def link (nb : Nat) (s : State) : State :=
  { s with
    next := update s.next nb s.gBufferList
    prev := update (match s.gBufferList with
      | some first => update s.prev first (some nb)
      | none => s.prev) nb none
    gBufferList := some nb }

def newBuffer (size : Nat) (fresh : Nat → UInt8) (s : State) : Except Stop State := do
  let (nb, s) ← takeBuffer s
  let buffer : BufferS := ⟨1, (List.range size).map fresh ++ [0], size, 0, true⟩
  return link nb { s with
    buffer := update s.buffer nb (some buffer)
    bufferByteCount := s.bufferByteCount + (size + 1).toUInt32
    bufferCount := s.bufferCount + 1 }

def newBufferByCharP (ptr : Octets) (size dataSize : Nat) (s : State) : Except Stop State := do
  let (nb, s) ← takeBuffer s
  if ptr.length < dataSize then throw .outside
  return {
    link nb { s with buffer := update s.buffer nb (some ⟨1, ptr, size, dataSize, false⟩) } with
    bufferCount := s.bufferCount + 1 }

def referenced (i : Nat) (s : State) : Except Stop BufferS :=
  match s.buffer i with
  | some b => if 0 < b.refCount then .ok b else .error .released
  | none => .error .released

def unlink (i : Nat) (s : State) : Except Stop State := do
  let s := match s.next i with
    | some n => { s with prev := update s.prev n (s.prev i) }
    | none => s
  let s ← match s.prev i with
    | some p => pure { s with next := update s.next p (s.next i) }
    | none => if s.gBufferList = some i then
      pure { s with gBufferList := s.next i } else throw .died
  return { s with next := update s.next i s.bufferPool, bufferPool := some i }

def delBuffer (buff : Option Nat) (s : State) : Except Stop State :=
  match buff with
  | none => .ok s
  | some i => do
      let b ← referenced i s
      if b.refCount - 1 ≠ 0 then
        return { s with buffer := update s.buffer i (some { b with refCount := b.refCount - 1 }) }
      else if b.deletable then
        unlink i { s with
          bufferCount := s.bufferCount - 1
          bufferByteCount := s.bufferByteCount - (b.memSize + 1).toUInt32
          buffer := update s.buffer i (some { b with refCount := 0, mem := [] }) }
      else
        unlink i { s with
          bufferCount := s.bufferCount - 1
          buffer := update s.buffer i (some { b with refCount := 0 }) }

def bufferTakeRef (buff : Option Nat) (s : State) : Except Stop State :=
  match buff with
  | none => .error .died
  | some i => do
      let b ← referenced i s
      if 2 ^ 31 ≤ b.refCount + 1 then throw .overflow
      return { s with buffer := update s.buffer i (some { b with refCount := b.refCount + 1 }) }

def expandBuffer (i amt : Nat) (fresh : Nat → UInt8) (s : State) : Except Stop State := do
  let b ← referenced i s
  if b.deletable then
    return { s with
      bufferByteCount := s.bufferByteCount + amt.toUInt32
      buffer := update s.buffer i (some { b with
        mem := xrealloc b.mem (b.memSize + amt + 1) fresh
        memSize := b.memSize + amt }) }
  else return s

def BufferS.short (dest src : BufferS) : Bool := dest.memSize < dest.dataSize + src.dataSize

def BufferS.grown (dest src : BufferS) : BufferS :=
  if dest.short src then
    { dest with
      mem := dest.mem.take dest.dataSize ++ List.replicate (src.dataSize + 1) 0
      memSize := dest.dataSize + src.dataSize }
  else dest

def concatBuffer (dest src : Nat) (s : State) : Except Stop State := do
  let d ← referenced dest s
  let c ← referenced src s
  if d.deletable = false then throw .died
  let grown := d.grown c
  let mem := if src = dest then grown.mem else c.mem
  if mem.length < d.dataSize ∨ grown.mem.length < d.dataSize + d.dataSize then throw .outside
  return { s with
    bufferByteCount :=
      if d.short c then s.bufferByteCount + (d.dataSize + c.dataSize - d.memSize).toUInt32
      else s.bufferByteCount
    buffer := update s.buffer dest (some { grown with
      mem := grown.mem.take d.dataSize ++ mem.take d.dataSize ++
        grown.mem.drop (d.dataSize + d.dataSize)
      dataSize := d.dataSize + c.dataSize }) }

def fill (i : Nat) (data : Octets) (s : State) : Except Stop State := do
  let b ← referenced i s
  if b.mem.length < data.length then throw .outside
  if b.memSize < data.length then throw .died
  return { s with
    buffer := update s.buffer i (some { b with
      mem := data ++ b.mem.drop data.length, dataSize := data.length }) }

inductive Call
  | newBuffer (size : Nat) (fresh : Nat → UInt8)
  | newBufferByCharP (ptr : Octets) (size dataSize : Nat)
  | bufferTakeRef (buff : Option Nat)
  | delBuffer (buff : Option Nat)
  | expandBuffer (buff amt : Nat) (fresh : Nat → UInt8)
  | concatBuffer (dest src : Nat)
  | fill (buff : Nat) (data : Octets)

def step (s : State) : Call → Except Stop State
  | .newBuffer size fresh => newBuffer size fresh s
  | .newBufferByCharP ptr size dataSize => newBufferByCharP ptr size dataSize s
  | .bufferTakeRef buff => bufferTakeRef buff s
  | .delBuffer buff => delBuffer buff s
  | .expandBuffer buff amt fresh => expandBuffer buff amt fresh s
  | .concatBuffer dest src => concatBuffer dest src s
  | .fill buff data => fill buff data s

section Specification

def BufferS.bytes (b : BufferS) : Nat := if b.deletable then b.memSize + 1 else 0

def BufferS.contents (b : BufferS) : Octets := b.mem.take b.dataSize

namespace State

variable (s : State)

def links : Foundation.Linked.Links Nat := ⟨s.gBufferList, none, s.next, s.prev⟩

def bytes (i : Nat) : Nat := ((s.buffer i).map BufferS.bytes).getD 0

def contents (i : Nat) : Octets := ((s.buffer i).map BufferS.contents).getD []

/-- The list and the counts are those of the buffers in use. -/
structure Listed (list : List Nat) : Prop where
  members : Foundation.Linked.Members s.links list
  positive : ∀ i, i ∈ list ↔ ∃ b, s.buffer i = some b ∧ 0 < b.refCount
  count : s.bufferCount.toNat = list.length
  byteCount : s.bufferByteCount.toNat = (list.map s.bytes).sum

def Right (call : Call) : Prop :=
  ∃ s', step s call = .ok s' ∧ (∃ list, s'.Listed list) ∧
    ∀ dest src, call = .concatBuffer dest src → s'.contents dest = s.contents dest ++ s.contents src

def Concatenates (dest src : BufferS) (mem : Octets) : Prop :=
  dest.dataSize ≤ mem.length ∧ dest.dataSize + dest.dataSize ≤ (dest.grown src).mem.length ∧
    ((dest.grown src).mem.drop (dest.dataSize + dest.dataSize)).take
      (src.dataSize - dest.dataSize) =
      (mem.drop dest.dataSize).take (src.dataSize - dest.dataSize)

def Condition : Call → Prop
  | .newBuffer size _ => s.bufferCount.toNat + 1 < 2 ^ 32 ∧
      s.bufferByteCount.toNat + (size + 1) < 2 ^ 32
  | .newBufferByCharP ptr _ dataSize => s.bufferCount.toNat + 1 < 2 ^ 32 ∧ dataSize ≤ ptr.length
  | .bufferTakeRef buff => ∃ i b, buff = some i ∧ s.buffer i = some b ∧ 0 < b.refCount ∧
      b.refCount + 1 < 2 ^ 31
  | .delBuffer buff => ∀ i ∈ buff, ∃ b, s.buffer i = some b ∧ 0 < b.refCount
  | .expandBuffer i amt _ => ∃ b, s.buffer i = some b ∧ 0 < b.refCount ∧
      (b.deletable = true → s.bufferByteCount.toNat + amt < 2 ^ 32)
  | .concatBuffer dest src => ∃ d c, s.buffer dest = some d ∧ s.buffer src = some c ∧
      0 < d.refCount ∧ 0 < c.refCount ∧
      d.deletable = true ∧
      (d.short c = true → s.bufferByteCount.toNat +
        (d.dataSize + c.dataSize - d.memSize) < 2 ^ 32) ∧
      Concatenates d c (if src = dest then (d.grown c).mem else c.mem)
  | .fill i data => ∃ b, s.buffer i = some b ∧ 0 < b.refCount ∧ data.length ≤ b.mem.length ∧
      data.length ≤ b.memSize

end State

end Specification

section Pool

open Foundation.Threaded

structure BufferS.Sound (b : BufferS) : Prop where
  data : b.dataSize ≤ b.mem.length
  owned : b.deletable = true → b.mem.length = b.memSize + 1 ∧ b.dataSize ≤ b.memSize

def State.poolLinks (s : State) : Links Unit Nat := Sum.elim (fun _ => s.bufferPool) s.next

/-- The list and the pool are apart, and the counts are right modulo 2^32. -/
structure Inv (s : State) (list pool : List Nat) : Prop where
  members : Foundation.Linked.Members s.links list
  positive : ∀ i, i ∈ list ↔ ∃ b, s.buffer i = some b ∧ 0 < b.refCount
  count : s.bufferCount = .ofNat list.length
  byteCount : s.bufferByteCount = .ofNat (list.map s.bytes).sum
  chain : Chain s.poolLinks s.bufferPool pool
  apart : ∀ i ∈ pool, i ∉ list
  below : ∀ i, i ∈ list ∨ i ∈ pool → i < s.allocated
  sound : ∀ {i b}, s.buffer i = some b → 0 < b.refCount → b.Sound

variable {s : State} {list pool : List Nat} {i : Nat}

theorem chain_range' {links : Links Unit Nat} (n a : Nat) (hlinks : ∀ k < n + 1,
      links (.inr (a + k)) = if k + 1 < n + 1 then some (a + k + 1) else none) :
    Chain links (some a) (List.range' a (n + 1)) := by
  induction n generalizing a with
  | zero =>
    have hlast := hlinks 0 (Nat.zero_lt_one)
    refine .cons ?_
    rw [show links (.inr a) = none from hlast]
    exact .nil
  | succ n ih =>
    have hfirst := hlinks 0 (Nat.zero_lt_succ _)
    rw [if_pos (by omega)] at hfirst
    refine .cons ?_
    rw [show links (.inr a) = some (a + 1) from hfirst]
    refine ih (a + 1) fun k hk => ?_
    have hlink := hlinks (k + 1) (by omega)
    rw [show a + (k + 1) = a + 1 + k by omega] at hlink
    rw [hlink]
    simp

theorem Inv.filled (hinv : Inv s list pool) :
    Inv (fillBufferPool s) list (List.range' s.allocated BUFFER_POOL_SIZE) := by
  have hold {i : Nat} (hi : i ∈ list) : (fillBufferPool s).next i = s.next i :=
    if_pos (.inl (hinv.below i (.inl hi)))
  refine ⟨?_, hinv.positive, hinv.count, hinv.byteCount, ?_, fun i hi hmem => ?_, ?_, hinv.sound⟩
  · exact hinv.members.congr rfl (fun j hj => hold hj) fun _ _ => rfl
  · refine chain_range' 55 s.allocated fun k hk => ?_
    change (if _ then _ else _) = _
    rw [if_neg (by rw [BUFFER_POOL_SIZE]; omega), BUFFER_POOL_SIZE]
    exact if_congr (by omega) rfl rfl
  · have hlow := (List.mem_range'_1.mp hi).1
    exact absurd (hinv.below i (.inl hmem)) (by omega)
  · rintro i (hi | hi)
    · exact Nat.lt_add_right _ (hinv.below i (.inl hi))
    · exact (List.mem_range'_1.mp hi).2

theorem Inv.takeBuffer (hinv : Inv s list pool) :
    ∃ nb s' rest, takeBuffer s = .ok (nb, s') ∧ Inv s' list rest ∧
    nb ∉ list ∧ nb ∉ rest ∧ nb < s'.allocated ∧ s'.buffer = s.buffer ∧
      s'.bufferCount = s.bufferCount ∧
      s'.bufferByteCount = s.bufferByteCount := by
  obtain ⟨s₁, nb, rest, hs₁, hinv₁, hsame⟩ : ∃ s₁ nb rest,
      (if s.bufferPool = none then fillBufferPool s else s) = s₁ ∧ Inv s₁ list (nb :: rest) ∧
        s₁.buffer = s.buffer ∧ s₁.bufferCount = s.bufferCount ∧
          s₁.bufferByteCount = s.bufferByteCount := by
    by_cases hempty : s.bufferPool = none
    · rw [if_pos hempty]
      exact ⟨_, s.allocated, List.range' (s.allocated + 1) 55, rfl, hinv.filled, rfl, rfl, rfl⟩
    · rw [if_neg hempty]
      have hpool := hinv.chain.start_eq
      cases pool with
      | nil => exact absurd hpool hempty
      | cons nb rest => exact ⟨s, nb, rest, rfl, hinv, rfl, rfl, rfl⟩
  have hstart : s₁.bufferPool = some nb := hinv₁.chain.start_eq
  have hnodup := List.nodup_cons.mp hinv₁.chain.nodup
  refine ⟨nb, { s₁ with bufferPool := s₁.next nb }, rest, ?_, ?_,
    hinv₁.apart nb List.mem_cons_self, hnodup.1,
    hinv₁.below nb (.inr List.mem_cons_self), hsame⟩
  · rw [BufferList.takeBuffer, hs₁, hstart]
  · refine ⟨hinv₁.members, hinv₁.positive, hinv₁.count, hinv₁.byteCount, ?_,
      fun i hi => hinv₁.apart i (List.mem_cons_of_mem nb hi), fun i hi => ?_, hinv₁.sound⟩
    · have hrest : Chain s₁.poolLinks (s₁.poolLinks (.inr nb)) rest := by
        have := hinv₁.chain.of_append [nb]
        have hchain : Chain s₁.poolLinks s₁.bufferPool ([] ++ nb :: rest) := hinv₁.chain
        rwa [hchain.next_eq]
      exact hrest.congr fun _ _ => rfl
    · exact hinv₁.below i (hi.imp_right (List.mem_cons_of_mem nb))

end Pool

section Changes

open Foundation.Threaded (Chain)

variable {s : State} {list pool : List Nat} {i : Nat} {b b' : BufferS} {count byteCount : UInt32}

theorem bytes_update_of_ne {j : Nat} (hj : j ≠ i) :
    State.bytes { s with buffer := update s.buffer i (some b') } j = s.bytes j := by
  simp only [State.bytes, update_of_ne hj]

theorem bytes_update_self :
    State.bytes { s with buffer := update s.buffer i (some b') } i = b'.bytes := by
  simp only [State.bytes, update_self]
  rfl

theorem sum_bytes_update (s : State) (b' : BufferS) (hi : i ∉ list) :
    (list.map (State.bytes { s with buffer := update s.buffer i (some b') })).sum =
      (list.map s.bytes).sum :=
  congrArg List.sum (List.map_congr_left fun _ hj =>
    bytes_update_of_ne (ne_of_mem_of_not_mem hj hi))

theorem sum_bytes_erase (hb : s.buffer i = some b) (hi : i ∈ list) :
    b.bytes + ((list.erase i).map s.bytes).sum = (list.map s.bytes).sum := by
  have hperm := (List.perm_cons_erase hi).map s.bytes
  rw [hperm.sum_nat, List.map_cons, List.sum_cons,
    show s.bytes i = b.bytes by rw [State.bytes, hb]; rfl]

theorem sum_bytes_changed (b' : BufferS) (hb : s.buffer i = some b) (hi : i ∈ list)
    (hnodup : list.Nodup) :
    (list.map (State.bytes { s with buffer := update s.buffer i (some b') })).sum + b.bytes =
      (list.map s.bytes).sum + b'.bytes := by
  have hold := sum_bytes_erase hb hi
  have hrest := sum_bytes_update s b' (hnodup.not_mem_erase (a := i))
  have hnew := sum_bytes_erase (s := { s with buffer := update s.buffer i (some b') })
    (update_self ..) hi
  omega

theorem Inv.link (hinv : Inv s list pool) (hlist : i ∉ list) (hpool : i ∉ pool)
    (hbelow : i < s.allocated)
    (hb : 0 < b.refCount) (hsound : b.Sound) (hcount : count = s.bufferCount + 1)
    (hbytes : byteCount = s.bufferByteCount + .ofNat b.bytes) :
    Inv (link i { s with
      buffer := update s.buffer i (some b), bufferCount := count, bufferByteCount := byteCount })
      (i :: list) pool := by
  refine ⟨?_, fun j => ?_, ?_, ?_, ?_, fun j hj => ?_, fun j hj => ?_, fun {j c} hj hc => ?_⟩
  · refine (hinv.members.push hlist).congr rfl (fun _ _ => rfl) fun j _ => ?_
    rw [BufferList.link, State.links, State.links, Foundation.Linked.Links.push]
    cases s.gBufferList with
    | none => rfl
    | some first => rfl
  · change j ∈ i :: list ↔ ∃ c, update s.buffer i (some b) j = some c ∧ _
    by_cases hji : j = i
    · rw [hji, update_self]
      exact iff_of_true List.mem_cons_self ⟨b, rfl, hb⟩
    · rw [update_of_ne hji, List.mem_cons, or_iff_right hji]
      exact hinv.positive j
  · rw [List.length_cons, UInt32.ofNat_add, ← hinv.count]
    exact hcount
  · have hsum :
        ((i :: list).map (State.bytes { s with buffer := update s.buffer i (some b) })).sum =
        b.bytes + (list.map s.bytes).sum := by
      rw [List.map_cons, List.sum_cons, bytes_update_self, sum_bytes_update _ _ hlist]
    refine hbytes.trans ?_
    rw [hinv.byteCount, UInt32.add_comm, ← UInt32.ofNat_add]
    exact congrArg UInt32.ofNat hsum.symm
  · refine hinv.chain.congr fun j hj => ?_
    exact update_of_ne (ne_of_mem_of_not_mem hj hpool) ..
  · rintro hmem
    rcases List.mem_cons.mp hmem with rfl | hmem
    · exact hpool hj
    · exact hinv.apart j hj hmem
  · rcases hj with hj | hj
    · rcases List.mem_cons.mp hj with rfl | hj
      · exact hbelow
      · exact hinv.below j (.inl hj)
    · exact hinv.below j (.inr hj)
  · change update s.buffer i (some b) j = some c at hj
    by_cases hji : j = i
    · rw [hji, update_self] at hj
      exact Option.some.inj hj ▸ hsound
    · rw [update_of_ne hji] at hj
      exact hinv.sound hj hc

theorem Inv.replace (hinv : Inv s list pool) (hb : s.buffer i = some b) (hpositive : 0 < b.refCount)
    (hpositive' : 0 < b'.refCount) (hsound : b'.Sound)
    (hbytes : byteCount + .ofNat b.bytes = s.bufferByteCount + .ofNat b'.bytes) :
    Inv { s with buffer := update s.buffer i (some b'), bufferByteCount := byteCount }
      list pool := by
  have hi : i ∈ list := (hinv.positive i).mpr ⟨b, hb, hpositive⟩
  refine ⟨hinv.members, fun j => ?_, hinv.count, ?_, hinv.chain, hinv.apart, hinv.below,
    fun {j c} hj hc => ?_⟩
  · by_cases hji : j = i
    · rw [hji]
      exact iff_of_true hi ⟨b', update_self .., hpositive'⟩
    · change _ ↔ ∃ c, update s.buffer i (some b') j = some c ∧ _
      rw [update_of_ne hji]
      exact hinv.positive j
  · have hsum := sum_bytes_changed b' hb hi hinv.members.nodup
    change byteCount = .ofNat
      (list.map (State.bytes { s with buffer := update s.buffer i (some b') })).sum
    have heq := congrArg UInt32.ofNat hsum
    rw [UInt32.ofNat_add, UInt32.ofNat_add, ← hinv.byteCount, ← hbytes] at heq
    exact ((UInt32.add_left_inj _).mp heq).symm
  · change update s.buffer i (some b') j = some c at hj
    by_cases hji : j = i
    · rw [hji, update_self] at hj
      exact Option.some.inj hj ▸ hsound
    · rw [update_of_ne hji] at hj
      exact hinv.sound hj hc

theorem Inv.unlink (hinv : Inv s list pool) (hb : s.buffer i = some b) (hpositive : 0 < b.refCount)
    (hreleased : b'.refCount = 0) (hcount : count + 1 = s.bufferCount)
    (hbytes : byteCount + .ofNat b.bytes = s.bufferByteCount) :
    ∃ s', unlink i { s with
        buffer := update s.buffer i (some b'), bufferCount := count,
          bufferByteCount := byteCount } = .ok s' ∧
      Inv s' (list.erase i) (i :: pool) ∧ s'.buffer = update s.buffer i (some b') := by
  have hi : i ∈ list := (hinv.positive i).mpr ⟨b, hb, hpositive⟩
  have hnodup := hinv.members.nodup
  have hpool : i ∉ pool := fun hmem => hinv.apart i hmem hi
  let s' : State :=
    { s with
      gBufferList := (s.links.bypass i).head
      prev := (s.links.bypass i).prev
      next := update (s.links.bypass i).next i s.bufferPool
      bufferPool := some i
      buffer := update s.buffer i (some b')
      bufferCount := count
      bufferByteCount := byteCount }
  refine ⟨s', ?_, ⟨?_, fun j => ?_, ?_, ?_, ?_, fun j hj => ?_, fun j hj => ?_,
    fun {j c} hj hc => ?_⟩, rfl⟩
  · have hhead : s.prev i = none → s.gBufferList = some i := (hinv.members.prev_eq_none_iff hi).mp
    have hself : s.next i ≠ some i := hinv.members.next_ne hi
    rw [BufferList.unlink]
    cases hnext : s.next i with
    | none =>
      cases hprev : s.prev i with
      | none =>
        simp only [hprev, hnext, hhead hprev, s', State.links,
          Foundation.Linked.Links.bypass, ↓reduceIte]
        rfl
      | some p =>
        simp only [hprev, hnext, s', State.links, Foundation.Linked.Links.bypass,
          reduceCtorEq, ↓reduceIte]
        rfl
    | some n =>
      have hne : i ≠ n := fun h => hself (hnext.trans (congrArg some h.symm))
      cases hprev : s.prev i with
      | none =>
        simp only [hprev, hnext, hhead hprev, update_of_ne hne, s', State.links,
          Foundation.Linked.Links.bypass, ↓reduceIte]
        rfl
      | some p =>
        simp only [hprev, hnext, update_of_ne hne, s', State.links, Foundation.Linked.Links.bypass,
          reduceCtorEq, ↓reduceIte]
        rfl
  · refine (hinv.members.bypass hi).congr rfl (fun j hj => ?_) fun _ _ => rfl
    exact update_of_ne (hnodup.mem_erase_iff.mp hj).1 ..
  · rw [hnodup.mem_erase_iff]
    change _ ↔ ∃ c, update s.buffer i (some b') j = some c ∧ _
    by_cases hji : j = i
    · rw [hji, update_self]
      refine iff_of_false (fun h => h.1 rfl) ?_
      rintro ⟨c, hc, hpos⟩
      rw [← Option.some.inj hc, hreleased] at hpos
      exact Nat.lt_irrefl 0 hpos
    · rw [update_of_ne hji, hinv.positive j]
      exact and_iff_right hji
  · have hlength := congrArg UInt32.ofNat (List.length_erase_add_one hi)
    rw [UInt32.ofNat_add, ← hinv.count, ← hcount] at hlength
    exact ((UInt32.add_left_inj _).mp hlength).symm
  · have hold := congrArg UInt32.ofNat (sum_bytes_erase hb hi)
    have hrest := sum_bytes_update s b' (hnodup.not_mem_erase (a := i))
    rw [UInt32.ofNat_add, UInt32.add_comm, ← hinv.byteCount, ← hbytes] at hold
    exact ((congrArg UInt32.ofNat hrest).trans ((UInt32.add_left_inj _).mp hold)).symm
  · refine .cons ?_
    have hlink : s'.poolLinks (.inr i) = s.bufferPool := update_self ..
    rw [hlink]
    refine hinv.chain.congr fun j hj => ?_
    have hji := ne_of_mem_of_not_mem hj hpool
    exact (update_of_ne hji ..).trans
      (hinv.members.bypass_next_of_notMem hi fun hmem => hinv.apart j hj hmem)
  · rcases List.mem_cons.mp hj with rfl | hj
    · exact hnodup.not_mem_erase
    · exact fun hmem => hinv.apart j hj (List.mem_of_mem_erase hmem)
  · rcases hj with hj | hj
    · exact hinv.below j (.inl (List.mem_of_mem_erase hj))
    · rcases List.mem_cons.mp hj with rfl | hj
      · exact hinv.below j (.inl hi)
      · exact hinv.below j (.inr hj)
  · change update s.buffer i (some b') j = some c at hj
    by_cases hji : j = i
    · rw [hji, update_self] at hj
      rw [← Option.some.inj hj, hreleased] at hc
      exact absurd hc (Nat.lt_irrefl 0)
    · rw [update_of_ne hji] at hj
      exact hinv.sound hj hc

end Changes

section Calls

variable {s : State} {list pool : List Nat} {i : Nat} {b : BufferS} {call : Call}

structure Fits (s : State) (list : List Nat) : Prop where
  count : list.length < 2 ^ 32
  bytes : (list.map s.bytes).sum < 2 ^ 32

theorem Inv.listed_iff (hinv : Inv s list pool) : (∃ list, s.Listed list) ↔ Fits s list := by
  constructor
  · rintro ⟨other, hlisted⟩
    have hperm : other.Perm list :=
      (List.perm_ext_iff_of_nodup hlisted.members.nodup hinv.members.nodup).mpr
      fun i => (hlisted.positive i).trans (hinv.positive i).symm
    refine ⟨?_, ?_⟩
    · rw [← hperm.length_eq, ← hlisted.count]
      exact s.bufferCount.toNat_lt
    · rw [← (hperm.map s.bytes).sum_nat, ← hlisted.byteCount]
      exact s.bufferByteCount.toNat_lt
  · intro hfits
    refine ⟨list, hinv.members, hinv.positive, ?_, ?_⟩
    · rw [hinv.count]
      exact UInt32.toNat_ofNat_of_lt hfits.count
    · rw [hinv.byteCount]
      exact UInt32.toNat_ofNat_of_lt hfits.bytes

def Joins (s s' : State) (call : Call) : Prop :=
  ∀ dest src, call = .concatBuffer dest src → s'.contents dest = s.contents dest ++ s.contents src

inductive Outcome (s : State) (call : Call) : Prop
  | failed {e} (heq : step s call = .error e) (hnot : ¬s.Condition call)
  | done {s' list pool} (heq : step s call = .ok s') (hinv : Inv s' list pool)
      (hiff : s.Condition call ↔ Fits s' list ∧ Joins s s' call)

theorem Outcome.right_iff (houtcome : Outcome s call) : s.Right call ↔ s.Condition call := by
  cases houtcome with
  | failed heq hnot =>
    refine iff_of_false ?_ hnot
    rintro ⟨s', hok, -⟩
    rw [heq] at hok
    cases hok
  | done heq hinv hiff =>
    rw [hiff, ← hinv.listed_iff]
    constructor
    · rintro ⟨s', hok, hlisted, hjoins⟩
      cases heq.symm.trans hok
      exact ⟨hlisted, hjoins⟩
    · exact fun h => ⟨_, heq, h.1, h.2⟩

theorem referenced_eq (i : Nat) (s : State) : referenced i s = .error .released ∨
    ∃ b, s.buffer i = some b ∧ 0 < b.refCount ∧ referenced i s = .ok b := by
  rw [referenced]
  cases s.buffer i with
  | none => exact .inl rfl
  | some b =>
    by_cases hb : 0 < b.refCount
    · exact .inr ⟨b, rfl, hb, if_pos hb⟩
    · exact .inl (if_neg hb)

theorem referenced_error (herror : referenced i s = .error .released) :
    ¬∃ b, s.buffer i = some b ∧ 0 < b.refCount := by
  rintro ⟨b, hb, hpositive⟩
  rw [referenced, hb] at herror
  dsimp only at herror
  rw [if_pos hpositive] at herror
  cases herror

structure Ready (s : State) (list pool : List Nat) : Prop where
  inv : Inv s list pool
  fits : Fits s list

section Ready

variable (hready : Ready s list pool)

include hready

theorem Ready.count_toNat : s.bufferCount.toNat = list.length := by
  rw [hready.inv.count]
  exact UInt32.toNat_ofNat_of_lt hready.fits.count

theorem Ready.byteCount_toNat : s.bufferByteCount.toNat = (list.map s.bytes).sum := by
  rw [hready.inv.byteCount]
  exact UInt32.toNat_ofNat_of_lt hready.fits.bytes

theorem newBuffer_outcome (size : Nat) (fresh : Nat → UInt8) :
    Outcome s (.newBuffer size fresh) := by
  obtain ⟨nb, s₁, rest, htake, hinv, hlist, hrest, hbelow, hbuffer, hcount, hbyteCount⟩ :=
    hready.inv.takeBuffer
  let b : BufferS := ⟨1, (List.range size).map fresh ++ [0], size, 0, true⟩
  have hsound : b.Sound := ⟨Nat.zero_le _, fun _ => ⟨by simp [b], Nat.zero_le _⟩⟩
  have hbytes : s.bytes = s₁.bytes := by
    funext i
    rw [State.bytes, State.bytes, hbuffer]
  have hsum :
      ((nb :: list).map (State.bytes { s₁ with buffer := update s₁.buffer nb (some b) })).sum =
      size + 1 + (list.map s.bytes).sum := by
    rw [List.map_cons, List.sum_cons, bytes_update_self, sum_bytes_update _ _ hlist, hbytes]
    rfl
  refine .done ?_ (hinv.link hlist hrest hbelow Nat.zero_lt_one hsound rfl rfl) ?_
  · rw [step, newBuffer, htake]
    rfl
  · rw [State.Condition, hready.count_toNat, hready.byteCount_toNat]
    refine ⟨fun h => ⟨⟨h.1, ?_⟩, nofun⟩, fun h => ⟨h.1.count, ?_⟩⟩
    · exact Nat.lt_of_le_of_lt (Nat.le_of_eq hsum) (by omega)
    · have := Nat.lt_of_le_of_lt (Nat.le_of_eq hsum.symm) h.1.bytes
      omega

theorem newBufferByCharP_outcome (ptr : Octets) (size dataSize : Nat) :
    Outcome s (.newBufferByCharP ptr size dataSize) := by
  obtain ⟨nb, s₁, rest, htake, hinv, hlist, hrest, hbelow, hbuffer, hcount, hbyteCount⟩ :=
    hready.inv.takeBuffer
  by_cases hthere : ptr.length < dataSize
  · refine .failed (e := .outside) ?_ fun h => Nat.not_le.mpr hthere h.2
    rw [step, newBufferByCharP, htake]
    exact if_pos hthere
  let b : BufferS := ⟨1, ptr, size, dataSize, false⟩
  have hbytes : s.bytes = s₁.bytes := by
    funext i
    rw [State.bytes, State.bytes, hbuffer]
  have hsum :
      ((nb :: list).map (State.bytes { s₁ with buffer := update s₁.buffer nb (some b) })).sum =
      (list.map s.bytes).sum := by
    rw [List.map_cons, List.sum_cons, bytes_update_self, sum_bytes_update _ _ hlist, hbytes]
    exact Nat.zero_add _
  refine .done ?_ (hinv.link (b := b) hlist hrest hbelow Nat.zero_lt_one
    ⟨Nat.not_lt.mp hthere, nofun⟩ rfl
    (UInt32.add_zero _).symm) ?_
  · rw [step, newBufferByCharP, htake]
    exact if_neg hthere
  · rw [State.Condition, hready.count_toNat]
    exact ⟨fun h => ⟨⟨h.1, Nat.lt_of_le_of_lt (Nat.le_of_eq hsum) hready.fits.bytes⟩, nofun⟩,
      fun h => ⟨h.1.count, Nat.not_lt.mp hthere⟩⟩

theorem Outcome.of_update (b' : BufferS) (byteCount : UInt32)
    (hb : s.buffer i = some b) (hpositive : 0 < b.refCount) (hpositive' : 0 < b'.refCount)
    (hsound : b'.Sound) (hbytes : byteCount + .ofNat b.bytes = s.bufferByteCount + .ofNat b'.bytes)
    (hstep : step s call =
      .ok { s with buffer := update s.buffer i (some b'), bufferByteCount := byteCount })
    (hiff : s.Condition call ↔ s.bufferByteCount.toNat + b'.bytes < 2 ^ 32 + b.bytes ∧
      Joins s { s with buffer := update s.buffer i (some b'), bufferByteCount := byteCount } call) :
    Outcome s call := by
  refine .done hstep (hready.inv.replace hb hpositive hpositive' hsound hbytes)
    (hiff.trans (and_congr_left fun _ => ?_))
  have hi : i ∈ list := (hready.inv.positive i).mpr ⟨b, hb, hpositive⟩
  have hsum := sum_bytes_changed b' hb hi hready.inv.members.nodup
  rw [hready.byteCount_toNat]
  refine ⟨fun h => ⟨hready.fits.count, ?_⟩, fun h => ?_⟩
  · change (list.map (State.bytes { s with buffer := update s.buffer i (some b') })).sum < _
    omega
  · have hlt : (list.map (State.bytes { s with buffer := update s.buffer i (some b') })).sum <
        2 ^ 32 := h.bytes
    omega

theorem Ready.bytes_lt {n : Nat} : s.bufferByteCount.toNat + n < 2 ^ 32 + n :=
  Nat.add_lt_add_right (hready.byteCount_toNat ▸ hready.fits.bytes) n

theorem bufferTakeRef_outcome (buff : Option Nat) : Outcome s (.bufferTakeRef buff) := by
  cases buff with
  | none => exact .failed (e := .died) rfl nofun
  | some i =>
    rcases referenced_eq i s with herror | ⟨b, hb, hpositive, hok⟩
    · refine .failed (e := .released) ?_ ?_
      · rw [step, bufferTakeRef, herror]
        rfl
      · rintro ⟨_, b, ⟨⟩, hb, hpositive, -⟩
        exact referenced_error herror ⟨b, hb, hpositive⟩
    by_cases hmany : 2 ^ 31 ≤ b.refCount + 1
    · refine .failed (e := .overflow) ?_ ?_
      · rw [step, bufferTakeRef, hok]
        exact if_pos hmany
      · rintro ⟨_, b', ⟨⟩, hb', -, hfew⟩
        rw [hb] at hb'
        cases hb'
        omega
    · refine Outcome.of_update hready { b with refCount := b.refCount + 1 } _ hb hpositive
        (Nat.succ_pos _)
        ⟨(hready.inv.sound hb hpositive).data, (hready.inv.sound hb hpositive).owned⟩ rfl ?_ ?_
      · rw [step, bufferTakeRef, hok]
        exact if_neg hmany
      · exact iff_of_true ⟨i, b, rfl, hb, hpositive, Nat.not_le.mp hmany⟩ ⟨hready.bytes_lt, nofun⟩

theorem delBuffer_outcome (buff : Option Nat) : Outcome s (.delBuffer buff) := by
  cases buff with
  | none => exact .done rfl hready.inv (iff_of_true nofun ⟨hready.fits, nofun⟩)
  | some i =>
    rcases referenced_eq i s with herror | ⟨b, hb, hpositive, hok⟩
    · refine .failed (e := .released) ?_ fun h => referenced_error herror (h i rfl)
      rw [step, delBuffer, herror]
      rfl
    have hcondition : s.Condition (.delBuffer (some i)) := by
      rintro _ ⟨⟩
      exact ⟨b, hb, hpositive⟩
    by_cases hmore : b.refCount - 1 ≠ 0
    · refine Outcome.of_update hready { b with refCount := b.refCount - 1 } _ hb hpositive
        (Nat.pos_of_ne_zero hmore)
        ⟨(hready.inv.sound hb hpositive).data, (hready.inv.sound hb hpositive).owned⟩ rfl ?_
        (iff_of_true hcondition ⟨hready.bytes_lt, nofun⟩)
      rw [step, delBuffer, hok]
      exact if_pos hmore
    have hreleased (b' : BufferS) (byteCount : UInt32) (hb' : b'.refCount = 0)
        (hbytes : byteCount + .ofNat b.bytes = s.bufferByteCount)
        (hstep : step s (.delBuffer (some i)) = unlink i { s with
          buffer := update s.buffer i (some b')
          bufferCount := s.bufferCount - 1
          bufferByteCount := byteCount }) : Outcome s (.delBuffer (some i)) := by
      obtain ⟨s', hunlink, hinv', hbuffer⟩ :=
        hready.inv.unlink hb hpositive hb' (UInt32.sub_add_cancel s.bufferCount 1) hbytes
      refine .done (hstep.trans hunlink) hinv' (iff_of_true hcondition ⟨⟨?_, ?_⟩, nofun⟩)
      · exact Nat.lt_of_le_of_lt List.length_erase_le hready.fits.count
      · have hold := sum_bytes_erase hb ((hready.inv.positive i).mpr ⟨b, hb, hpositive⟩)
        have hrest := sum_bytes_update s b' (hready.inv.members.nodup.not_mem_erase (a := i))
        have hsame : s'.bytes = State.bytes { s with buffer := update s.buffer i (some b') } := by
          funext j
          rw [State.bytes, hbuffer]
          rfl
        rw [hsame, hrest]
        have := hready.fits.bytes
        omega
    by_cases hown : b.deletable = true
    · refine hreleased { b with
        refCount := 0, mem := [] } (s.bufferByteCount - (b.memSize + 1).toUInt32) rfl ?_ ?_
      · rw [BufferS.bytes, if_pos hown]
        exact UInt32.sub_add_cancel ..
      · rw [step, delBuffer, hok]
        exact (if_neg hmore).trans (if_pos hown)
    · refine hreleased { b with refCount := 0 } s.bufferByteCount rfl ?_ ?_
      · rw [BufferS.bytes, if_neg hown]
        exact UInt32.add_zero _
      · rw [step, delBuffer, hok]
        exact (if_neg hmore).trans (if_neg hown)

theorem expandBuffer_outcome (i amt : Nat) (fresh : Nat → UInt8) :
    Outcome s (.expandBuffer i amt fresh) := by
  rcases referenced_eq i s with herror | ⟨b, hb, hpositive, hok⟩
  · refine .failed (e := .released) ?_ ?_
    · rw [step, expandBuffer, herror]
      rfl
    · rintro ⟨b, hb, hpositive, -⟩
      exact referenced_error herror ⟨b, hb, hpositive⟩
  have hcondition : s.Condition (.expandBuffer i amt fresh) ↔
      (b.deletable = true → s.bufferByteCount.toNat + amt < 2 ^ 32) := by
    constructor
    · rintro ⟨b', hb', -, h⟩
      rw [hb] at hb'
      cases hb'
      exact h
    · exact fun h => ⟨b, hb, hpositive, h⟩
  by_cases hown : b.deletable = true
  · obtain ⟨hlength, hdata⟩ := (hready.inv.sound hb hpositive).owned hown
    refine Outcome.of_update hready
      { b with mem := xrealloc b.mem (b.memSize + amt + 1) fresh, memSize := b.memSize + amt }
      (s.bufferByteCount + amt.toUInt32) hb hpositive hpositive ⟨?_, fun _ => ⟨?_, ?_⟩⟩ ?_ ?_ ?_
    · rw [xrealloc_length]
      exact Nat.le_succ_of_le (Nat.le_add_right_of_le hdata)
    · exact xrealloc_length ..
    · exact Nat.le_add_right_of_le hdata
    · simp only [BufferS.bytes, if_pos hown]
      change _ + UInt32.ofNat amt + _ = _
      rw [UInt32.add_assoc, ← UInt32.ofNat_add]
      exact congrArg (s.bufferByteCount + UInt32.ofNat ·) (by omega)
    · rw [step, expandBuffer, hok]
      exact if_pos hown
    · simp only [hcondition, hown, forall_const, BufferS.bytes, if_true]
      refine ⟨fun h => ⟨by omega, nofun⟩, fun h => ?_⟩
      have := h.1
      omega
  · have hstep : step s (.expandBuffer i amt fresh) = .ok s := by
      rw [step, expandBuffer, hok]
      exact if_neg hown
    exact .done hstep hready.inv
      (iff_of_true (hcondition.mpr fun h => absurd h hown) ⟨hready.fits, nofun⟩)

theorem fill_outcome (i : Nat) (data : Octets) : Outcome s (.fill i data) := by
  rcases referenced_eq i s with herror | ⟨b, hb, hpositive, hok⟩
  · refine .failed (e := .released) ?_ ?_
    · rw [step, fill, herror]
      rfl
    · rintro ⟨b, hb, hpositive, -⟩
      exact referenced_error herror ⟨b, hb, hpositive⟩
  have hcondition :
      s.Condition (.fill i data) ↔ data.length ≤ b.mem.length ∧ data.length ≤ b.memSize := by
    constructor
    · rintro ⟨b', hb', -, h⟩
      rw [hb] at hb'
      cases hb'
      exact h
    · exact fun h => ⟨b, hb, hpositive, h⟩
  by_cases hinside : b.mem.length < data.length
  · refine .failed (e := .outside) ?_ fun h => Nat.not_le.mpr hinside (hcondition.mp h).1
    rw [step, fill, hok]
    exact if_pos hinside
  by_cases hsize : b.memSize < data.length
  · refine .failed (e := .died) ?_ fun h => Nat.not_le.mpr hsize (hcondition.mp h).2
    rw [step, fill, hok]
    exact (if_neg hinside).trans (if_pos hsize)
  have hlength : (data ++ b.mem.drop data.length).length = b.mem.length := by
    rw [List.length_append, List.length_drop]
    omega
  refine Outcome.of_update hready
    { b with
      mem := data ++ b.mem.drop data.length, dataSize := data.length } _ hb hpositive hpositive
    ⟨?_, fun hown => ⟨hlength.trans ((hready.inv.sound hb hpositive).owned hown).1,
      Nat.not_lt.mp hsize⟩⟩ rfl ?_
    (iff_of_true (hcondition.mpr ⟨Nat.not_lt.mp hinside, Nat.not_lt.mp hsize⟩)
      ⟨hready.bytes_lt, nofun⟩)
  · rw [hlength]
    exact Nat.not_lt.mp hinside
  · rw [step, fill, hok]
    exact (if_neg hinside).trans (if_neg hsize)

end Ready

end Calls

section Concatenation

variable {s : State} {list pool : List Nat} {d c : BufferS}

theorem take_copied_iff (front rest : Octets) (n : Nat) {mem : Octets} {amt : Nat}
    (hmem : amt ≤ mem.length) :
    (front ++ mem.take amt ++ rest).take (front.length + n) = front ++ mem.take n ↔
      rest.take (n - amt) = (mem.drop amt).take (n - amt) := by
  have hlength : (mem.take amt).length = amt := List.length_take_of_le hmem
  rw [List.append_assoc, List.take_length_add_append, List.append_cancel_left_eq]
  rcases Nat.le_total n amt with hle | hle
  · rw [Nat.sub_eq_zero_of_le hle, List.take_append_of_le_length (by omega), List.take_take,
      Nat.min_eq_left hle]
    exact iff_of_true rfl rfl
  · obtain ⟨k, rfl⟩ := Nat.exists_eq_add_of_le hle
    have hcopied :
        (mem.take amt ++ rest).take ((mem.take amt).length + k) = mem.take amt ++ rest.take k :=
      List.take_length_add_append k
    rw [hlength] at hcopied
    rw [hcopied, List.take_add, List.append_cancel_left_eq, Nat.add_sub_cancel_left]

theorem take_grown (hsound : d.Sound) (c : BufferS) :
    (d.grown c).mem.take d.dataSize = d.mem.take d.dataSize := by
  rw [BufferS.grown]
  split
  · rw [List.take_append_of_le_length (Nat.le_of_eq (List.length_take_of_le hsound.data).symm),
      List.take_take,
      Nat.min_self]
  · rfl

theorem grown_sound (hsound : d.Sound) (hown : d.deletable = true) (c : BufferS) :
    (d.grown c).mem.length = (d.grown c).memSize + 1 ∧ d.dataSize + c.dataSize ≤
    (d.grown c).memSize := by
  rw [BufferS.grown]
  split
  · refine ⟨?_, Nat.le_refl _⟩
    rw [List.length_append, List.length_take_of_le hsound.data, List.length_replicate]
    rfl
  next hshort => exact ⟨(hsound.owned hown).1, Nat.not_lt.mp fun h => hshort (decide_eq_true h)⟩

theorem grown_fields (d c : BufferS) :
    (d.grown c).refCount = d.refCount ∧ (d.grown c).deletable = d.deletable ∧
    (d.grown c).memSize = if d.short c then d.dataSize + c.dataSize else d.memSize := by
  rw [BufferS.grown]
  split
  · exact ⟨rfl, rfl, rfl⟩
  · exact ⟨rfl, rfl, rfl⟩

theorem contents_eq {i : Nat} {b : BufferS} (hb : s.buffer i = some b) :
    s.contents i = b.mem.take b.dataSize := by
  rw [State.contents, hb]
  rfl

theorem concatBuffer_outcome (hready : Ready s list pool) (dest src : Nat) :
    Outcome s (.concatBuffer dest src) := by
  rcases referenced_eq dest s with herror | ⟨d, hd, hdpositive, hdok⟩
  · refine .failed (e := .released) ?_ ?_
    · rw [step, concatBuffer, herror]
      rfl
    · rintro ⟨d, c, hd, hc, hpositive, -⟩
      exact referenced_error herror ⟨d, hd, hpositive⟩
  rcases referenced_eq src s with herror | ⟨c, hc, hcpositive, hcok⟩
  · refine .failed (e := .released) ?_ ?_
    · rw [step, concatBuffer, hdok, herror]
      rfl
    · rintro ⟨d, c, hd, hc, -, hpositive, -⟩
      exact referenced_error herror ⟨c, hc, hpositive⟩
  have hcondition : s.Condition (.concatBuffer dest src) ↔ d.deletable = true ∧
      (d.short c = true → s.bufferByteCount.toNat +
        (d.dataSize + c.dataSize - d.memSize) < 2 ^ 32) ∧
      State.Concatenates d c (if src = dest then (d.grown c).mem else c.mem) := by
    constructor
    · rintro ⟨d', c', hd', hc', -, -, h⟩
      rw [hd] at hd'
      rw [hc] at hc'
      cases hd'
      cases hc'
      exact h
    · exact fun h => ⟨d, c, hd, hc, hdpositive, hcpositive, h⟩
  by_cases hown : d.deletable = false
  · refine .failed (e := .died) ?_ fun h => ?_
    · rw [step, concatBuffer, hdok, hcok]
      exact if_pos hown
    · rw [(hcondition.mp h).1] at hown
      cases hown
  have hown' : d.deletable = true := eq_true_of_ne_false hown
  let mem := if src = dest then (d.grown c).mem else c.mem
  by_cases hinside : mem.length < d.dataSize ∨ (d.grown c).mem.length < d.dataSize + d.dataSize
  · refine .failed (e := .outside) ?_ fun h => ?_
    · rw [step, concatBuffer, hdok, hcok]
      exact (if_neg hown).trans (if_pos hinside)
    · obtain ⟨hmem, hroom, -⟩ := (hcondition.mp h).2.2
      exact hinside.elim (Nat.not_lt.mpr hmem) (Nat.not_lt.mpr hroom)
  obtain ⟨hmem, hroom⟩ := not_or.mp hinside
  have hsound := hready.inv.sound hd hdpositive
  obtain ⟨hlength, hdata⟩ := grown_sound hsound hown' c
  obtain ⟨hrefCount, hdeletable, hmemSize⟩ := grown_fields d c
  let d' : BufferS :=
    { d.grown c with
      mem := (d.grown c).mem.take d.dataSize ++ mem.take d.dataSize ++
        (d.grown c).mem.drop (d.dataSize + d.dataSize)
      dataSize := d.dataSize + c.dataSize }
  let byteCount : UInt32 :=
    if d.short c then s.bufferByteCount + (d.dataSize + c.dataSize - d.memSize).toUInt32
    else s.bufferByteCount
  have hfront : ((d.grown c).mem.take d.dataSize).length = d.dataSize :=
    List.length_take_of_le (by omega)
  have hmem' : d'.mem.length = (d.grown c).mem.length := by
    rw [show d'.mem = (d.grown c).mem.take d.dataSize ++ mem.take d.dataSize ++
      (d.grown c).mem.drop (d.dataSize + d.dataSize) from rfl, List.length_append,
        List.length_append, hfront, List.length_take_of_le (by omega), List.length_drop]
    omega
  have hold : d.bytes = d.memSize + 1 := if_pos hown'
  have hnew : d'.bytes = (if d.short c then d.dataSize + c.dataSize else d.memSize) + 1 := by
    rw [← hmemSize]
    exact if_pos (hdeletable.trans hown')
  refine Outcome.of_update hready d' byteCount hd hdpositive (hrefCount ▸ hdpositive)
    ⟨by rw [hmem', hlength]; exact Nat.le_succ_of_le hdata, fun _ => ⟨hmem'.trans hlength,
      hdata⟩⟩ ?_ ?_ ?_
  · rw [hold, hnew]
    by_cases hshort : d.short c = true
    · have hlt : d.memSize < d.dataSize + c.dataSize := of_decide_eq_true hshort
      have hgrowth : d.dataSize + c.dataSize - d.memSize + (d.memSize + 1) =
          d.dataSize + c.dataSize + 1 := by omega
      rw [if_pos hshort, show byteCount = _ from if_pos hshort, ← hgrowth,
        UInt32.ofNat_add _ (d.memSize + 1),
        ← UInt32.add_assoc]
    · rw [if_neg hshort, show byteCount = _ from if_neg hshort]
  · rw [step, concatBuffer, hdok, hcok]
    exact (if_neg hown).trans (if_neg hinside)
  · have hjoins :
        Joins s { s with buffer := update s.buffer dest (some d'), bufferByteCount := byteCount }
          (.concatBuffer dest src) ↔ State.Concatenates d c mem := by
      have hsource : c.mem.take c.dataSize = mem.take c.dataSize := by
        by_cases hsame : src = dest
        · cases hd.symm.trans (hsame ▸ hc)
          rw [show mem = _ from if_pos hsame, take_grown hsound]
        · rw [show mem = _ from if_neg hsame]
      have hcopied := take_copied_iff ((d.grown c).mem.take d.dataSize)
        ((d.grown c).mem.drop (d.dataSize + d.dataSize)) c.dataSize (Nat.not_lt.mp hmem)
      rw [hfront, take_grown hsound, ← take_grown hsound c] at hcopied
      constructor
      · intro h
        have hdest := h dest src rfl
        rw [contents_eq (update_self ..), contents_eq hd, contents_eq hc, hsource,
          ← take_grown hsound c]
          at hdest
        exact ⟨Nat.not_lt.mp hmem, Nat.not_lt.mp hroom, hcopied.mp hdest⟩
      · rintro h _ _ ⟨⟩
        rw [contents_eq (update_self ..), contents_eq hd, contents_eq hc, hsource,
          ← take_grown hsound c]
        exact hcopied.mpr h.2.2
    rw [hcondition, hjoins, hold, hnew]
    refine (and_iff_right hown').trans (and_congr_left fun _ => ?_)
    have := hready.bytes_lt (n := d.memSize + 1)
    by_cases hshort : d.short c = true
    · have hlt : d.memSize < d.dataSize + c.dataSize := of_decide_eq_true hshort
      rw [if_pos hshort]
      exact ⟨fun h => by have := h hshort; omega, fun h _ => by omega⟩
    · rw [if_neg hshort]
      exact iff_of_true (fun h => absurd h hshort) this

end Concatenation

theorem ready_initial : Ready initial [] [] where
  inv :=
    { members := Foundation.Linked.Members.empty rfl
      positive := fun i => iff_of_false List.not_mem_nil nofun
      count := rfl
      byteCount := rfl
      chain := .nil
      apart := nofun
      below := by simp
      sound := nofun }
  fits := ⟨by decide, by decide⟩

theorem outcome {s : State} {list pool : List Nat} (hready : Ready s list pool) (call : Call) :
    Outcome s call := by
  cases call with
  | newBuffer size fresh => exact newBuffer_outcome hready size fresh
  | newBufferByCharP ptr size dataSize => exact newBufferByCharP_outcome hready ptr size dataSize
  | bufferTakeRef buff => exact bufferTakeRef_outcome hready buff
  | delBuffer buff => exact delBuffer_outcome hready buff
  | expandBuffer buff amt fresh => exact expandBuffer_outcome hready buff amt fresh
  | concatBuffer dest src => exact concatBuffer_outcome hready dest src
  | fill buff data => exact fill_outcome hready buff data

/-- Every call of a run does what is promised just when each meets the condition. -/
theorem buffers_right_iff (calls : List Call) :
    Meets step State.Right calls initial ↔ Meets step State.Condition calls initial := by
  refine meets_congr (P := fun s => ∃ list pool, Ready s list pool) ?_ ?_ calls ⟨[], [],
    ready_initial⟩
  · rintro s call ⟨list, pool, hready⟩
    exact (outcome hready call).right_iff
  · rintro s call s' ⟨list, pool, hready⟩ hcondition hstep
    cases outcome hready call with
    | failed heq _ =>
      rw [heq] at hstep
      cases hstep
    | done heq hinv hiff =>
      obtain rfl := Except.ok.inj (heq.symm.trans hstep)
      exact ⟨_, _, hinv, (hiff.mp hcondition).1⟩

/-- Of `cde` as many octets are copied as there are in `ab`. -/
theorem not_buffers_right : ¬∀ calls : List Call, Meets step State.Right calls initial := by
  intro h
  let before : List Call := [.newBuffer 8 fun _ => 0, .fill 0 [97, 98],
    .newBufferByCharP [99, 100, 101] 3 3]
  have hvalues : (run step before initial).map (fun s => s.contents 0 ++ s.contents 1) =
      .ok [97, 98, 99, 100, 101] := by
    decide +kernel
  have hconcat : (run step (before ++ [.concatBuffer 0 1]) initial).map (fun s => s.contents 0) =
      .ok [97, 98, 99, 100, 0] := by
    decide +kernel
  cases hrun : run step before initial with
  | error e =>
    rw [hrun] at hvalues
    cases hvalues
  | ok s =>
    obtain ⟨⟨s', hstep, -, hjoins⟩, -⟩ := (h (before ++ [.concatBuffer 0 1])).back hrun
    rw [run_append hrun, run_cons hstep] at hconcat
    rw [hrun] at hvalues
    have heq := (Except.ok.inj hconcat).symm.trans ((hjoins 0 1 rfl).trans (Except.ok.inj hvalues))
    revert heq
    decide

end Inn.Innfeed.BufferList
