import Inn.Foundation.Tombstones

/-!
# The generic hash table

Linear probing in a table whose size is a power of two. What is deleted leaves a mark behind, and
the table is made anew when three quarters of it are in use. The counters for debugging are left
out.
-/

namespace Inn.Lib.HashTable

open Inn.Foundation.Tombstones

/-- The functions a caller gives to `hash_create`. -/
structure Functions (K D : Type) where
  hash : K → Nat
  key : D → K
  equal : K → D → Bool
  equal_iff : ∀ k d, equal k d = true ↔ key d = k

/-- The table, of whose slots some are used and some are deleted. -/
structure Hash (D : Type) where
  size : Nat
  mask : Nat
  nelements : Nat
  ndeleted : Nat
  table : List (Slot D)

inductive Stop
  | undefined
  | endless
  deriving DecidableEq

section Sizes

def bits : Nat → Nat → Nat
  | 0, _ => 0
  | bound + 1, size => if size > 0 then bits bound (size >>> 1) + 1 else 0

def shiftOne (n : Nat) : Except Stop Nat := if n < 31 then .ok (1 <<< n) else .error .undefined

def hashSize (target : Nat) : Except Stop Nat :=
  if target = 0 then .ok 4
  else do
    let size ← shiftOne (bits 64 (target - 1))
    .ok (if size < 4 then 4 else size)

variable {D : Type}

def fresh (size : Nat) : Hash D := ⟨size, size - 1, 0, 0, List.replicate size .empty⟩

def hashCreate (size : Nat) : Except Stop (Hash D) := do
  let size ← hashSize size
  .ok (fresh size)

def next (size slot : Nat) : Nat := if slot + 1 ≥ size then slot + 1 - size else slot + 1

end Sizes

section Finding

variable {K D : Type} (f : Functions K D)

def slots (table : List (Slot D)) (slot : Nat) : Slot D := table[slot]?.getD .empty

def findEmpty (h : Hash D) : Nat → Nat → Option Nat
  | 0, _ => none
  | bound + 1, slot =>
    match slots h.table slot with
    | .empty => some slot
    | _ => findEmpty h bound (next h.size slot)

def place (h : Hash D) : Slot D → Except Stop (Hash D)
  | .live d =>
    match findEmpty h h.size (f.hash (f.key d) &&& h.mask) with
    | none => .error .endless
    | some slot => .ok { h with table := h.table.set slot (.live d), nelements := h.nelements + 1 }
  | _ => .ok h

/-- The elements move to a table of the next size. -/
def hashExpand (h : Hash D) : Except Stop (Hash D) := do
  let size ← hashSize ((h.nelements - h.ndeleted) * 2)
  h.table.foldlM (place f) (fresh size)

inductive Found (D : Type)
  | missing
  | reused (slot : Nat)
  | unused (slot : Nat)
  | present (slot : Nat) (d : D)

def findSlot (h : Hash D) (k : K) (insert : Bool) : Nat → Nat → Option Nat → Option (Found D)
  | 0, _, _ => none
  | bound + 1, slot, deletedSlot =>
    match slots h.table slot with
    | .empty =>
      if insert = false then some .missing
      else
        match deletedSlot with
        | some deletedSlot => some (.reused deletedSlot)
        | none => some (.unused slot)
    | .deleted => findSlot h k insert bound (next h.size slot)
        (if insert then some slot else deletedSlot)
    | .live d =>
      if f.equal k d then some (.present slot d) else findSlot h k insert bound
        (next h.size slot) deletedSlot

def Hash.full (h : Hash D) : Bool := h.nelements * 4 ≥ h.size * 3

def makeRoom (h : Hash D) (insert : Bool) : Except Stop (Hash D) :=
  if insert && h.full then hashExpand f h else .ok h

/-- The slot of the key, or where its element is to be put. -/
def hashFindSlot (h : Hash D) (k : K) (insert : Bool) : Except Stop (Hash D × Option Nat) := do
  let h ← makeRoom f h insert
  match findSlot f h k insert h.size (f.hash k &&& h.mask) none with
  | none => .error .endless
  | some .missing => .ok (h, none)
  | some (.reused slot) =>
      .ok ({ h with table := h.table.set slot .empty, ndeleted := h.ndeleted - 1 }, some slot)
  | some (.unused slot) => .ok ({ h with nelements := h.nelements + 1 }, some slot)
  | some (.present slot _) => .ok (h, some slot)

end Finding

section Calls

variable {K D : Type} (f : Functions K D)

def hashLookup (h : Hash D) (k : K) : Except Stop (Hash D × Option D) := do
  let (h, slot) ← hashFindSlot f h k false
  .ok (h, slot.bind fun slot => (slots h.table slot).value?)

def hashInsert (h : Hash D) (k : K) (datum : D) : Except Stop (Hash D × Bool) := do
  let (h, slot) ← hashFindSlot f h k true
  match slot with
  | none => .error .undefined
  | some slot =>
    match slots h.table slot with
    | .empty => .ok ({ h with table := h.table.set slot (.live datum) }, true)
    | _ => .ok (h, false)

def hashReplace (h : Hash D) (k : K) (datum : Slot D) : Except Stop (Hash D × Bool) := do
  let (h, slot) ← hashFindSlot f h k false
  match slot with
  | none => .ok (h, false)
  | some slot => .ok ({ h with table := h.table.set slot datum }, true)

def hashDelete (h : Hash D) (k : K) : Except Stop (Hash D × Bool) := do
  let (h, result) ← hashReplace f h k .deleted
  .ok (if result then { h with ndeleted := h.ndeleted + 1 } else h, result)

def hashCount (h : Hash D) : Nat := h.nelements - h.ndeleted

end Calls

end Inn.Lib.HashTable
