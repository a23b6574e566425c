import Inn.Hash

/-!
# The dbz database

`lib/dbz.c` without tagged hashes. A database is two hash tables kept in
parallel: `.hash` holds the first octets of the stored keys and `.index` the
offsets that belong to them. Probing is linear inside a table of `tsize`
records; after `MAXRUN` steps it goes on in the next table of the same file.
-/

namespace Inn.Dbz

def MAXRUN : Nat := 100

def DBZ_INTERNAL_HASH_SIZE : Nat := 6

inductive IncoreVal
  | no
  | mem
  | mmap
deriving DecidableEq

structure Options where
  writethrough : Bool
  pagIncore : IncoreVal
  existsIncore : IncoreVal
  nonblock : Bool

abbrev Erec := List UInt8

def emptyRec : Erec := List.replicate DBZ_INTERNAL_HASH_SIZE 0

def erecOf (key : HASH) : Erec := key.hash.take DBZ_INTERNAL_HASH_SIZE

def shorthashOf (key : HASH) : Nat := littleEndian (key.hash.drop 8) / 2

structure RecordFile {ρ : Type} (zero : ρ) where
  size : Nat
  record : Nat → ρ
  unwritten : ∀ place, size ≤ place → record place = zero

namespace RecordFile

variable {ρ : Type} {zero : ρ}

def empty (zero : ρ) : RecordFile zero := ⟨0, fun _ => zero, fun _ _ => rfl⟩

def pread (file : RecordFile zero) (place : Nat) : Option ρ :=
  if place < file.size then some (file.record place) else none

def pwrite (file : RecordFile zero) (place : Nat) (value : ρ) : RecordFile zero where
  size := max file.size (place + 1)
  record := Function.update file.record place value
  unwritten other hle := by
    have hother : file.size ≤ other ∧ place + 1 ≤ other := Nat.max_le.mp hle
    rw [Function.update_of_ne (by omega), file.unwritten other hother.1]

def extend (file : RecordFile zero) (length : Nat) : RecordFile zero where
  size := max file.size length
  record := file.record
  unwritten other hle := file.unwritten other (Nat.max_le.mp hle).1

end RecordFile

/-- A table in core, mapped, or in its file only. -/
structure HashTable {ρ : Type} (zero : ρ) where
  incore : IncoreVal
  core : Nat → ρ
  file : RecordFile zero

namespace HashTable

variable {ρ : Type} {zero : ρ}

def coreRecord (tab : HashTable zero) (place : Nat) : ρ :=
  match tab.incore with
  | .mmap => tab.file.record place
  | _ => tab.core place

def get (tab : HashTable zero) (incore : IncoreVal) (tsize place : Nat) : Option ρ :=
  if incore ≠ .no ∧ place < tsize then some (tab.coreRecord place) else tab.file.pread place

def getcore (tab : HashTable zero) (tsize : Nat) : HashTable zero :=
  match tab.incore with
  | .no => tab
  | .mmap => { tab with file := tab.file.extend tsize }
  | .mem => { tab with core := fun place => (tab.file.pread place).getD zero }

def openhashtable (file : RecordFile zero) (tsize : Nat) (incore : IncoreVal) :
    HashTable zero :=
  getcore ⟨incore, fun _ => zero, file⟩ tsize

end HashTable

/-- Where a search stands: its table and the step of its run. -/
structure Searcher where
  place : Nat
  tabno : Nat
  run : Int
  hash : HASH
  shorthash : Nat
  aborted : Bool

structure Config where
  tsize : Nat
  tsize_pos : 0 < tsize
  used : Nat

structure Database where
  conf : Config
  options : Options
  srch : Searcher
  prevp : Bool
  idxtab : HashTable (0 : Int)
  etab : HashTable emptyRec
  readonly : Bool
  dirty : Bool

def dbzinit (conf : Config) (options : Options) : Database where
  conf := conf
  options := options
  srch := ⟨0, 0, 0, HashClear, 0, false⟩
  prevp := false
  idxtab := HashTable.openhashtable (RecordFile.empty 0) conf.tsize options.pagIncore
  etab := HashTable.openhashtable (RecordFile.empty emptyRec) conf.tsize options.existsIncore
  readonly := false
  dirty := false

def start (sp : Searcher) (hash : HASH) (osp : Option Searcher) : Searcher :=
  match osp with
  | some old =>
    if old.hash = hash then { old with run := old.run - 1 }
    else { sp with
      hash := hash, shorthash := shorthashOf hash, tabno := 0, run := -1, aborted := false }
  | none => { sp with
      hash := hash, shorthash := shorthashOf hash, tabno := 0, run := -1, aborted := false }

namespace Database

def searchLoop (db : Database) : Nat → Searcher → Nat → Searcher × Bool
  | 0, sp, _ => (sp, false)
  | fuel + 1, sp, taboffset =>
    -- go to next location
    let shift := sp.run = (MAXRUN : Int)
    let sp := if shift then { sp with tabno := sp.tabno + 1, run := 0 }
      else { sp with run := sp.run + 1 }
    let taboffset := if shift then sp.tabno * db.conf.tsize else taboffset
    let sp := { sp with
      place := (sp.shorthash + sp.run.toNat) % db.conf.tsize + taboffset }
    -- a short read leaves the record zeroed
    let value := (db.etab.get db.options.existsIncore db.conf.tsize sp.place).getD emptyRec
    if value = emptyRec then (sp, false)
    else if value = erecOf sp.hash then (sp, true)
    else db.searchLoop fuel sp taboffset

def searchFuel (db : Database) : Nat := (db.etab.file.size + 2) * (MAXRUN + 1)

def search (db : Database) (sp : Searcher) : Searcher × Bool :=
  if sp.aborted then (sp, false) else db.searchLoop db.searchFuel sp 0

def set {ρ : Type} {zero : ρ} (db : Database) (sp : Searcher) (tab : HashTable zero)
    (value : ρ) : Option (HashTable zero) :=
  if sp.aborted then none
  else if tab.incore ≠ .no ∧ sp.place < db.conf.tsize then
    match tab.incore with
    -- `getcore` made the file cover the mapping, which shares its pages
    | .mmap => some { tab with file := tab.file.pwrite sp.place value }
    | _ =>
      let tab := { tab with core := Function.update tab.core sp.place value }
      if db.options.writethrough then some { tab with file := tab.file.pwrite sp.place value }
      else some tab
  else some { tab with file := tab.file.pwrite sp.place value }

def dbzexists (db : Database) (key : HASH) : Database × Bool :=
  let found := db.search (start db.srch key none)
  ({ db with prevp := false, srch := found.1 }, found.2)

def dbzfetch (db : Database) (key : HASH) : Database × Option Int :=
  let found := db.search (start db.srch key none)
  if found.2 then
    match db.idxtab.get db.options.pagIncore db.conf.tsize found.1.place with
    | some value => ({ db with prevp := false, srch := found.1 }, some value)
    | none => ({ db with prevp := false, srch := { found.1 with aborted := true } }, none)
  else
    -- remember where we stopped
    ({ db with prevp := true, srch := found.1 }, none)

def prev (db : Database) : Option Searcher := if db.prevp then some db.srch else none

end Database

inductive StoreResult
  | ok
  | exists
  | error
deriving DecidableEq

def Database.dbzstore (db : Database) (key : HASH) (data : Int) : Database × StoreResult :=
  if db.readonly then (db, .error)
  else
    -- find the place, exploiting previous search if possible
    let found := db.search (start db.srch key db.prev)
    if found.2 then ({ db with srch := found.1 }, .exists)
    else
      let db := { db with
        srch := found.1
        prevp := false
        conf := { db.conf with used := db.conf.used + 1 }
        dirty := true }
      -- the index first, since we don't care if it's out of date
      match db.set db.srch db.idxtab data with
      | none => (db, .error)
      | some idxtab =>
        let db := { db with idxtab := idxtab }
        match db.set db.srch db.etab (erecOf db.srch.hash) with
        | none => (db, .error)
        | some etab => ({ db with etab := etab }, .ok)

end Inn.Dbz
