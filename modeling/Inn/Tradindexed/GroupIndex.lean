import Inn.Foundation.Threaded
import Inn.Hash

/-!
# The group index

`group.index` is a hash table with chaining: a header with the head of every
hash chain and of the list of free entries, and an array of entries, each with
the number of the next entry in its list. A process has the file mapped up to
the number of entries it knew of when it mapped it.

An access outside the mapping, or in it but beyond the end of the file, is a
fault. A walk over more links than the file has entries can only be going in
circles, which is the other fault. Record numbers are not bounded here by what
an `int` holds, and no I/O operation fails.
-/

namespace Inn.Tradindexed

open Foundation.Threaded

def TDX_HASH_SIZE : Nat := 16 * 1024

def TDX_MAGIC : Nat := 0x0e0f0cc2

abbrev Bucket := Fin TDX_HASH_SIZE

abbrev Group := List UInt8

structure GroupHeader where
  magic : Nat
  hash : Bucket → Int
  freelist : Int

/-- The entry of a group in the index file. -/
structure GroupEntry where
  hash : HASH
  high : Nat
  low : Nat
  base : Nat
  count : Nat
  flag : UInt8
  deleted : Nat
  indexinode : Nat
  next : Int

def GroupEntry.zero : GroupEntry :=
  { hash := HashClear, high := 0, low := 0, base := 0, count := 0, flag := 0, deleted := 0,
    indexinode := 0, next := 0 }

/-- The index file: buckets, free list and entries. -/
structure IndexFile where
  count : Nat
  header : GroupHeader
  entries : Nat → GroupEntry

structure GroupIndex where
  writable : Bool
  count : Nat
  mapped : Bool

inductive Fault
  | outside
  | endless
  deriving DecidableEq

abbrev Place := Option Bucket ⊕ Nat

namespace IndexFile

def empty : IndexFile :=
  { count := 0, header := { magic := 0, hash := fun _ => 0, freelist := 0 },
    entries := fun _ => GroupEntry.zero }

def ftruncate (file : IndexFile) (count : Nat) : IndexFile :=
  { file with
    count := count
    entries := fun loc => if loc < count ∧ loc < file.count then file.entries loc
      else GroupEntry.zero }

def setEntry (file : IndexFile) (loc : Nat) (entry : GroupEntry) : IndexFile :=
  { file with entries := Function.update file.entries loc entry }

def recno (file : IndexFile) : Place → Int
  | .inl none => file.header.freelist
  | .inl (some bucket) => file.header.hash bucket
  | .inr loc => (file.entries loc).next

def setRecno (file : IndexFile) (place : Place) (value : Int) : IndexFile :=
  match place with
  | .inl none => { file with header := { file.header with freelist := value } }
  | .inl (some bucket) =>
    { file with
        header := { file.header with hash := Function.update file.header.hash bucket value } }
  | .inr loc => file.setEntry loc { file.entries loc with next := value }

end IndexFile

def indexBucket (hash : HASH) : Bucket :=
  ⟨hash.word % TDX_HASH_SIZE, Nat.mod_lt _ (by decide)⟩

def indexMaybeRemap (index : GroupIndex) (file : IndexFile) (loc : Nat) : GroupIndex :=
  if loc < index.count then index
  else if file.count < loc ∧ index.mapped then index
  else { index with count := file.count, mapped := true }

def freelistAdd (file : IndexFile) (loc : Nat) : IndexFile :=
  (file.setRecno (.inr loc) (file.recno (.inl none))).setRecno (.inl none) loc

def addNewEntries (first : Nat) : Nat → IndexFile → IndexFile
  | 0, file => file
  | n + 1, file => addNewEntries first n (freelistAdd file (first + n))

def initHeader (file : IndexFile) : IndexFile :=
  if file.header.magic ≠ TDX_MAGIC then
    { file with header := { magic := TDX_MAGIC, hash := fun _ => -1, freelist := -1 } }
  else file

def indexExpand (index : GroupIndex) (file : IndexFile) : GroupIndex × IndexFile :=
  let count := index.count + 1024
  ({ index with count := count, mapped := true },
    addNewEntries (count - 1024) 1024 (initHeader (file.ftruncate count)))

def tdxIndexOpen (writable : Bool) (file : IndexFile) : GroupIndex × IndexFile :=
  if 0 < file.count then ({ writable := writable, count := file.count, mapped := true }, file)
  else if writable then indexExpand { writable := writable, count := 0, mapped := false } file
  else ({ writable := writable, count := 0, mapped := false }, file)

def entrySplice (file : IndexFile) (loc : Nat) (parent : Place) : IndexFile :=
  (file.setRecno parent (file.recno (.inr loc))).setRecno (.inr loc) (-1)

def indexAdd (file : IndexFile) (loc : Nat) : IndexFile :=
  let bucket := indexBucket (file.entries loc).hash
  if (loc : Int) = file.header.hash bucket then file
  else
    (file.setRecno (.inr loc) (file.recno (.inl (some bucket)))).setRecno (.inl (some bucket)) loc

def GroupEntry.matches (entry : GroupEntry) (hash : HASH) : Bool :=
  entry.deleted = 0 ∧ entry.hash = hash

def indexFindLoop (file : IndexFile) (hash : HASH) :
    Nat → GroupIndex → Int → Except Fault (Option Nat × GroupIndex)
  | 0, _, _ => .error .endless
  | fuel + 1, index, loc =>
    if loc < 0 then .ok (none, index)
    else
      let index := if loc ≥ index.count then indexMaybeRemap index file loc.toNat else index
      if loc ≥ index.count then .ok (none, index)
      else if loc ≥ file.count then .error .outside
      else
        let entry := file.entries loc.toNat
        if entry.matches hash then .ok (some loc.toNat, index)
        else if loc = entry.next then .ok (none, index)
        else indexFindLoop file hash fuel index entry.next

def indexFind (index : GroupIndex) (file : IndexFile) (hash : HASH) :
    Except Fault (Option Nat × GroupIndex) :=
  if index.mapped = false then .ok (none, index)
  else indexFindLoop file hash (file.count + 1) index (file.header.hash (indexBucket hash))

def indexUnlinkLoop (file : IndexFile) (hash : HASH) :
    Nat → GroupIndex → Place → Int → Except Fault (Option (Nat × Place) × GroupIndex)
  | 0, _, _, _ => .error .endless
  | fuel + 1, index, parent, current =>
    if current < 0 then .ok (none, index)
    else
      let head : Place := .inl (some (indexBucket hash))
      let (index, parent, current) :=
        if current ≥ index.count then
          (indexMaybeRemap index file current.toNat, head, file.recno head)
        else (index, parent, current)
      if current < 0 ∨ current ≥ index.count then .ok (none, index)
      else if current ≥ file.count then .error .outside
      else
        let entry := file.entries current.toNat
        if entry.matches hash then .ok (some (current.toNat, parent), index)
        else if current = entry.next then .ok (none, index)
        else indexUnlinkLoop file hash fuel index (.inr current.toNat) entry.next

def indexUnlinkHash (index : GroupIndex) (file : IndexFile) (hash : HASH) :
    Except Fault (Option Nat × GroupIndex × IndexFile) :=
  let head : Place := .inl (some (indexBucket hash))
  match indexUnlinkLoop file hash (2 * (file.count + 1)) index head (file.recno head) with
  | .error fault => .error fault
  | .ok (none, index) => .ok (none, index, file)
  | .ok (some (loc, parent), index) => .ok (some loc, index, entrySplice file loc parent)

def addEntry (index : GroupIndex) (file : IndexFile) (hash : HASH) (low high : Nat) (flag : UInt8)
    (indexinode : Nat) : Except Fault (GroupIndex × IndexFile) :=
  let (index, file) := if file.header.freelist = -1 then indexExpand index file else (index, file)
  let loc := file.header.freelist
  if loc < 0 ∨ loc ≥ index.count ∨ loc ≥ file.count then .error .outside
  else
    let entry := file.entries loc.toNat
    let file := file.setRecno (.inl none) entry.next
    let file := file.setEntry loc.toNat
      { entry with
        hash := hash
        low := if low = 0 ∧ high ≠ 0 then high + 1 else low
        high := high
        deleted := 0
        base := 0
        count := 0
        flag := flag
        indexinode := indexinode }
    .ok (index, indexAdd file loc.toNat)

def updateFlag (file : IndexFile) (loc : Nat) (flag : UInt8) : IndexFile :=
  if (file.entries loc).flag ≠ flag then
    file.setEntry loc { file.entries loc with flag := flag }
  else file

def tdxIndexAdd (index : GroupIndex) (file : IndexFile) (hash : HASH) (low high : Nat)
    (flag : UInt8) (indexinode : Nat) : Except Fault (Bool × GroupIndex × IndexFile) :=
  if index.writable = false then .ok (false, index, file)
  else
    match indexFind index file hash with
    | .error fault => .error fault
    | .ok (some loc, index) => .ok (true, index, updateFlag file loc flag)
    | .ok (none, index) =>
      match addEntry index file hash low high flag indexinode with
      | .error fault => .error fault
      | .ok (index, file) => .ok (true, index, file)

def freeEntry (file : IndexFile) (loc : Nat) (now : Nat) : IndexFile :=
  freelistAdd (file.setEntry loc { file.entries loc with deleted := now, hash := HashClear }) loc

def tdxIndexDelete (index : GroupIndex) (file : IndexFile) (hash : HASH) (now : Nat) :
    Except Fault (Bool × GroupIndex × IndexFile) :=
  if index.writable = false then .ok (false, index, file)
  else
    match indexUnlinkHash index file hash with
    | .error fault => .error fault
    | .ok (none, index, file) => .ok (false, index, file)
    | .ok (some loc, index, file) => .ok (true, index, freeEntry file loc now)

end Inn.Tradindexed
