import Inn.Foundation.Files
import Inn.History.Line
import Inn.Tradindexed.GroupIndex

/-!
# The data files of a group

The IDX file of a group is an array of records that say where the overview data
of an article is in the DAT file. A process has files open by their inodes, and
has mapped them or read copies of them. No I/O operation fails, and a file
consists of whole records.
-/

namespace Inn.Tradindexed

open Function (update update_self update_of_ne)
open Foundation.Files
open History (TOKEN time_t)

structure IndexEntry where
  offset : Int
  length : Int
  arrived : time_t
  expires : time_t
  token : TOKEN
  deriving DecidableEq

def IndexEntry.zero : IndexEntry := ⟨0, 0, 0, 0, ⟨List.replicate 18 0, History.zeros_length⟩⟩

structure Article where
  number : Nat
  overview : Octets
  token : TOKEN
  arrived : time_t
  expires : time_t
  deriving DecidableEq

inductive Suffix
  | IDX
  | DAT
  | IDX_NEW
  | DAT_NEW
  | IDX_BAK
  deriving DecidableEq

/-- The names of a group's files, and what the files hold. -/
structure Files where
  names : Suffix → Option Nat
  index : Nat → List IndexEntry
  data : Nat → Octets
  /-- The inode of the next new file. -/
  inode : Nat
  named : ∀ suffix, ∀ file ∈ names suffix, file < inode
  /-- No file has two names. -/
  distinct : ∀ suffix other, ∀ file ∈ names suffix, file ∈ names other → suffix = other

namespace Files

def unlink (files : Files) (suffix : Suffix) : Files where
  names := update files.names suffix none
  index := files.index
  data := files.data
  inode := files.inode
  named other file hfile := by
    rcases eq_or_ne other suffix with rfl | hne
    · rw [update_self] at hfile
      cases hfile
    · rw [update_of_ne hne] at hfile
      exact files.named other file hfile
  distinct first second file hfirst hsecond := by
    rcases eq_or_ne first suffix with rfl | hfst
    · rw [update_self] at hfirst
      cases hfirst
    rcases eq_or_ne second suffix with rfl | hsnd
    · rw [update_self] at hsecond
      cases hsecond
    rw [update_of_ne hfst] at hfirst
    rw [update_of_ne hsnd] at hsecond
    exact files.distinct first second file hfirst hsecond

def rename (files : Files) (old new : Suffix) : Files where
  names := update (update files.names new (files.names old)) old none
  index := files.index
  data := files.data
  inode := files.inode
  named other file hfile := by
    rcases eq_or_ne other old with rfl | hold
    · rw [update_self] at hfile
      cases hfile
    rw [update_of_ne hold] at hfile
    rcases eq_or_ne other new with rfl | hnew
    · rw [update_self] at hfile
      exact files.named old file hfile
    · rw [update_of_ne hnew] at hfile
      exact files.named other file hfile
  distinct first second file hfirst hsecond := by
    rcases eq_or_ne first old with rfl | hfst
    · rw [update_self] at hfirst
      cases hfirst
    rcases eq_or_ne second old with rfl | hsnd
    · rw [update_self] at hsecond
      cases hsecond
    rw [update_of_ne hfst] at hfirst
    rw [update_of_ne hsnd] at hsecond
    -- the file of the new name is the one that had the old name
    rcases eq_or_ne first new with rfl | hfst'
    · rcases eq_or_ne second first with rfl | hsnd'
      · rfl
      · rw [update_self] at hfirst
        rw [update_of_ne hsnd'] at hsecond
        exact absurd (files.distinct old second file hfirst hsecond).symm hsnd
    · rw [update_of_ne hfst'] at hfirst
      rcases eq_or_ne second new with rfl | hsnd'
      · rw [update_self] at hsecond
        exact absurd (files.distinct first old file hfirst hsecond) hfst
      · rw [update_of_ne hsnd'] at hsecond
        exact files.distinct first second file hfirst hsecond

def create (files : Files) (suffix : Suffix) : Files where
  names := update files.names suffix (some files.inode)
  index := update files.index files.inode []
  data := update files.data files.inode []
  inode := files.inode + 1
  named other file hfile := by
    rcases eq_or_ne other suffix with rfl | hne
    · rw [update_self] at hfile
      exact Option.mem_some_iff.mp hfile ▸ Nat.lt_succ_self _
    · rw [update_of_ne hne] at hfile
      exact Nat.lt_succ_of_lt (files.named other file hfile)
  distinct first second file hfirst hsecond := by
    rcases eq_or_ne first suffix with rfl | hfst
    · rcases eq_or_ne second first with rfl | hsnd
      · rfl
      · rw [update_self] at hfirst
        rw [update_of_ne hsnd] at hsecond
        obtain rfl := Option.mem_some_iff.mp hfirst
        exact absurd (files.named second _ hsecond) (Nat.lt_irrefl _)
    · rw [update_of_ne hfst] at hfirst
      rcases eq_or_ne second suffix with rfl | hsnd
      · rw [update_self] at hsecond
        obtain rfl := Option.mem_some_iff.mp hsecond
        exact absurd (files.named first _ hfirst) (Nat.lt_irrefl _)
      · rw [update_of_ne hsnd] at hsecond
        exact files.distinct first second file hfirst hsecond

def fileOpen (files : Files) (suffix : Suffix) (writable : Bool) : Option Nat × Files :=
  match files.names suffix with
  | some file => (some file, files)
  | none => if writable then (some files.inode, files.create suffix) else (none, files)

def xpwrite (files : Files) (file : Nat) (place : Nat) (entries : List IndexEntry) : Files :=
  { files with index := update files.index file (overwrite .zero (files.index file) place entries) }

def xwrite (files : Files) (file : Nat) (text : Octets) : Files :=
  { files with data := update files.data file (files.data file ++ text) }

end Files

inductive Mapping (α : Type)
  | mmap (file : Nat)
  | copy (contents : List α)

def Mapping.read {α : Type} (files : Nat → List α) (length : Nat) : Mapping α → List α
  | .mmap file => (files file).take length
  | .copy contents => contents

structure GroupData where
  writable : Bool
  /-- `innconf->tradindexedmmap` -/
  mmap : Bool
  remapoutoforder : Bool
  high : Nat
  base : Nat
  indexfd : Nat
  datafd : Nat
  /-- Where `read` goes on in the index file and in the data file. -/
  indexpos : Nat
  datapos : Nat
  index : Option (Mapping IndexEntry)
  data : Option (Mapping UInt8)
  indexlen : Nat
  datalen : Nat
  indexinode : Nat

namespace GroupData

def mapFile {α : Type} (mmap : Bool) (files : Nat → List α) (fd pos : Nat) :
    Option (Mapping α) × Nat :=
  let length := (files fd).length
  if length = 0 then (none, pos)
  else if mmap then (some (.mmap fd), pos)
  else if ((files fd).drop pos).length = length then (some (.copy (files fd)), length)
  else (none, max pos length)

def mapIndex (data : GroupData) (files : Files) : Bool × GroupData :=
  let indexlen := (files.index data.indexfd).length
  let (index, indexpos) := mapFile data.mmap files.index data.indexfd data.indexpos
  (!(index.isNone && indexlen > 0),
    { data with index := index, indexpos := indexpos, indexlen := indexlen })

def mapData (data : GroupData) (files : Files) : Bool × GroupData :=
  let datalen := (files.data data.datafd).length
  let (map, datapos) := mapFile data.mmap files.data data.datafd data.datapos
  (!(map.isNone && data.indexlen > 0),
    { data with data := map, datapos := datapos, datalen := datalen })

def mapMissing (data : GroupData) (files : Files) : Bool × GroupData :=
  let (r, data) := if data.index.isNone then data.mapIndex files else (true, data)
  if !r then (false, data)
  else if data.data.isNone then data.mapData files
  else (true, data)

def unmapIndex (data : GroupData) : GroupData := { data with index := none }

def unmapData (data : GroupData) : GroupData := { data with data := none }

def entries (data : GroupData) (files : Files) : List IndexEntry :=
  (data.index.map (Mapping.read files.index data.indexlen)).getD []

def octets (data : GroupData) (files : Files) : Octets :=
  (data.data.map (Mapping.read files.data data.datalen)).getD []

def new (writable mmap : Bool) : GroupData where
  writable := writable
  mmap := mmap
  remapoutoforder := false
  high := 0
  base := 0
  indexfd := 0
  datafd := 0
  indexpos := 0
  datapos := 0
  index := none
  data := none
  indexlen := 0
  datalen := 0
  indexinode := 0

def fileOpenIndex (data : GroupData) (files : Files) (suffix : Suffix) :
    Option (Files × GroupData) :=
  match files.fileOpen suffix data.writable with
  | (none, _) => none
  | (some file, files) =>
      some (files, { data with indexfd := file, indexpos := 0, indexinode := file })

def fileOpenData (data : GroupData) (files : Files) (suffix : Suffix) :
    Option (Files × GroupData) :=
  match files.fileOpen suffix data.writable with
  | (none, _) => none
  | (some file, files) => some (files, { data with datafd := file, datapos := 0 })

def openFiles (data : GroupData) (files : Files) : Option (Files × GroupData) :=
  match data.unmapIndex.unmapData.fileOpenIndex files .IDX with
  | none => none
  | some (files, data) => data.fileOpenData files .DAT

end GroupData

abbrev Memory := Int → (n : Nat) → Option { octets : Octets // octets.length = n }

def IndexEntry.overview (entry : IndexEntry) (memory : Memory) (octets : Octets) : Option Octets :=
  -- a negative length is a huge one
  if entry.length < 0 then none
  else if entry.offset < 0 then (memory entry.offset entry.length.toNat).map Subtype.val
  else some (pread octets entry.offset.toNat entry.length.toNat)

structure Found where
  artdata : Article
  readable : Bool
  deriving DecidableEq

def IndexEntry.found (entry : IndexEntry) (memory : Memory) (octets : Octets)
    (number : Nat) : Found where
  artdata :=
    { number := number
      overview := (entry.overview memory octets).getD []
      token := entry.token
      arrived := entry.arrived
      expires := entry.expires }
  readable := (entry.overview memory octets).isSome

structure Search where
  limit : Nat
  current : Nat

def GroupData.remap (data : GroupData) (files : Files) (high : Nat) : GroupData :=
  { (({ data with remapoutoforder := false }.unmapData.unmapIndex).mapIndex files).2
    with high := high }

def searchMapped (files : Files) (data : GroupData) (start stop : Nat) :
    Option Search × GroupData :=
  if start > data.high then (none, data)
  else
    let (r, data) := data.mapMissing files
    if !r then (none, data)
    else (some ⟨stop - data.base, if start < data.base then 0 else start - data.base⟩, data)

def tdxSearchOpen (files : Files) (data : GroupData) (start stop high : Nat) :
    Option Search × GroupData :=
  if stop < data.base then (none, data)
  else if stop < start then (none, data)
  else if stop > data.high ∧ high > data.high ∨ data.remapoutoforder then
    searchMapped files (data.remap files high) start stop
  else searchMapped files data start stop

def nextEntry (limit : Nat) : List IndexEntry → Nat → Option (Nat × IndexEntry)
  | [], _ => none
  | entry :: rest, current =>
    if current > limit then none
    else if entry.length ≠ 0 then some (current, entry)
    else nextEntry limit rest (current + 1)

def tdxSearch (files : Files) (memory : Memory) (data : GroupData) (search : Search) :
    Option (Found × Search) × GroupData :=
  if data.index.isNone || data.data.isNone then (none, data)
  else
    match nextEntry search.limit ((data.entries files).drop search.current) search.current with
    | none => (none, data)
    | some (current, entry) =>
      if entry.offset + entry.length > data.datalen then (none,
        { data with remapoutoforder := true })
      else
        (some (entry.found memory (data.octets files) (current + data.base),
          { search with current := current + 1 }), data)

def searchAll (files : Files) (memory : Memory) : Nat → GroupData → Search → List Found × GroupData
  | 0, data, _ => ([], data)
  | fuel + 1, data, search =>
    match tdxSearch files memory data search with
    | (none, data) => ([], data)
    | (some (found, search), data) =>
      let (rest, data) := searchAll files memory fuel data search
      (found :: rest, data)

def indexBase (artnum : Nat) : Nat := if artnum > 128 then artnum - 128 else 1

def tdxDataStore (files : Files) (data : GroupData) (article : Article) :
    Bool × Files × GroupData :=
  if !data.writable then (false, files, data)
  else
    let data := if data.base = 0 then { data with base := indexBase article.number } else data
    if data.base > article.number then (false, files, data)
    else
      let offset := (files.data data.datafd).length
      let files := files.xwrite data.datafd article.overview
      let entry : IndexEntry :=
        ⟨offset, article.overview.length, article.arrived, article.expires, article.token⟩
      (true, files.xpwrite data.indexfd (article.number - data.base) [entry],
        { data with datapos := offset + article.overview.length })

def tdxDataCancel (files : Files) (data : GroupData) (artnum : Nat) : Bool × Files :=
  if !data.writable then (false, files)
  else if data.base = 0 ∨ artnum < data.base ∨ artnum > data.high then (false, files)
  else (true, files.xpwrite data.indexfd (artnum - data.base) [.zero])

end Inn.Tradindexed
