import Inn.Tradindexed.GroupIndex

/-!
# The lists of a well-formed group index

Every entry of the file is in the chain of the bucket that its hash selects or
in the list of free entries. Each way of changing the file is followed here on
these lists, and the walks of the source are shown to go along them.
-/

namespace Inn.Tradindexed

open Foundation.Threaded

def toLink (recno : Int) : Option Nat := if recno < 0 then none else some recno.toNat

namespace IndexFile

def link (file : IndexFile) : Links (Option Bucket) Nat := fun place => toLink (file.recno place)

variable {file : IndexFile}

@[simp]
theorem count_setRecno (place : Place) (value : Int) :
    (file.setRecno place value).count = file.count := by
  rcases place with (_ | _) | _ <;> rfl

@[simp]
theorem magic_setRecno (place : Place) (value : Int) :
    (file.setRecno place value).header.magic = file.header.magic := by
  rcases place with (_ | _) | _ <;> rfl

theorem recno_setRecno (place : Place) (value : Int) :
    (file.setRecno place value).recno = Function.update file.recno place value := by
  funext other
  rcases place with (_ | bucket) | loc <;> rcases other with (_ | bucket') | loc' <;>
    simp [setRecno, recno, setEntry, Function.update_apply]
  split <;> simp_all

theorem link_setRecno (place : Place) (value : Int) :
    (file.setRecno place value).link = Function.update file.link place (toLink value) := by
  funext other
  simp only [link, recno_setRecno, Function.update_apply]
  split <;> rfl

theorem entries_setRecno (place : Place) (value : Int) (loc : Nat) :
    ∃ next, (file.setRecno place value).entries loc = { file.entries loc with next := next } := by
  rcases place with (_ | bucket) | other
  · exact ⟨_, rfl⟩
  · exact ⟨_, rfl⟩
  · by_cases hloc : loc = other
    · subst hloc
      exact ⟨value, by simp [setRecno, setEntry]⟩
    · exact ⟨(file.entries loc).next, by simp [setRecno, setEntry, hloc]⟩

@[simp]
theorem entries_setEntry_self (loc : Nat) (entry : GroupEntry) :
    (file.setEntry loc entry).entries loc = entry := Function.update_self ..

theorem entries_setEntry_of_ne {loc other : Nat} (hne : other ≠ loc) (entry : GroupEntry) :
    (file.setEntry loc entry).entries other = file.entries other := Function.update_of_ne hne _ _

theorem recno_setEntry {loc : Nat} {entry : GroupEntry}
    (hnext : entry.next = (file.entries loc).next) :
    (file.setEntry loc entry).recno = file.recno := by
  funext place
  rcases place with (_ | bucket) | other
  · rfl
  · rfl
  · by_cases hother : other = loc
    · subst hother
      simpa [recno, setEntry] using hnext
    · simp [recno, setEntry, hother]

theorem link_setEntry {loc : Nat} {entry : GroupEntry}
    (hnext : entry.next = (file.entries loc).next) :
    (file.setEntry loc entry).link = file.link := by
  funext place
  rw [link, link, recno_setEntry hnext]

end IndexFile

structure Contents where
  high : Nat
  low : Nat
  base : Nat
  count : Nat
  flag : UInt8
  indexinode : Nat
  deriving DecidableEq

def GroupEntry.contents (entry : GroupEntry) : Contents :=
  ⟨entry.high, entry.low, entry.base, entry.count, entry.flag, entry.indexinode⟩

def SameBodies (file file' : IndexFile) : Prop :=
  ∀ loc, (file'.entries loc).hash = (file.entries loc).hash ∧
    (file'.entries loc).deleted = (file.entries loc).deleted ∧
    (file'.entries loc).contents = (file.entries loc).contents

theorem SameBodies.trans {file file' file'' : IndexFile} (h : SameBodies file file')
    (h' : SameBodies file' file'') : SameBodies file file'' := fun loc =>
  ⟨(h' loc).1.trans (h loc).1, (h' loc).2.1.trans (h loc).2.1, (h' loc).2.2.trans (h loc).2.2⟩

theorem sameBodies_setRecno (file : IndexFile) (place : Place) (value : Int) :
    SameBodies file (file.setRecno place value) := by
  intro loc
  obtain ⟨next, heq⟩ := file.entries_setRecno place value loc
  rw [heq]
  exact ⟨rfl, rfl, rfl⟩

/-- The chains and the free list take the entries apart. -/
structure Placed (file : IndexFile) (lists : Option Bucket → List Nat) (present : Nat → Prop) :
    Prop where
  threads : Threads file.link lists present
  /-- Only `-1` ends a list. -/
  ends : ∀ place, (∀ loc, place = .inr loc → present loc) → -1 ≤ file.recno place
  magic : file.header.magic = TDX_MAGIC
  live : ∀ {bucket loc}, loc ∈ lists (some bucket) →
    (file.entries loc).deleted = 0 ∧ indexBucket (file.entries loc).hash = bucket

/-- The chains of the file are the finite map `groups`. -/
structure Represents (file : IndexFile) (lists : Option Bucket → List Nat)
    (groups : HASH → Option Contents) (present : Nat → Prop) : Prop
    extends Placed file lists present where
  distinct : ∀ {bucket bucket' loc loc'}, loc ∈ lists (some bucket) →
    loc' ∈ lists (some bucket') → (file.entries loc).hash = (file.entries loc').hash → loc = loc'
  stored : ∀ hash contents, groups hash = some contents ↔
    ∃ bucket, ∃ loc ∈ lists (some bucket),
      (file.entries loc).hash = hash ∧ (file.entries loc).contents = contents

/-- Each entry is in one list, and no list comes back to itself. -/
structure Partitioned (file : IndexFile) (lists : Option Bucket → List Nat) : Prop where
  chain : ∀ i, Chain file.link (file.link (.inl i)) (lists i)
  acyclic : ∀ i, (lists i).Nodup
  inside : ∀ {i loc}, loc ∈ lists i → loc < file.count
  one : ∀ loc < file.count, ∃! i, loc ∈ lists i
  own : ∀ {bucket loc}, loc ∈ lists (some bucket) → indexBucket (file.entries loc).hash = bucket

theorem Placed.partitioned {file : IndexFile} {lists : Option Bucket → List Nat}
    (hfile : Placed file lists (· < file.count)) : Partitioned file lists where
  chain := hfile.threads.chain
  acyclic i := (hfile.threads.chain i).nodup
  inside hloc := (hfile.threads.covers _).mpr ⟨_, hloc⟩
  one loc hloc := by
    obtain ⟨i, hi⟩ := (hfile.threads.covers loc).mp hloc
    exact ⟨i, hi, fun j hj => hfile.threads.disjoint hj hi⟩
  own hloc := (hfile.live hloc).2

section Walks

variable {file : IndexFile} {hash : HASH} {index : GroupIndex}

structure Remaps (file : IndexFile) (index index' : GroupIndex) : Prop where
  writable : index'.writable = index.writable
  mapped : index'.mapped = index.mapped
  grows : index.count ≤ index'.count
  within : index'.count ≤ file.count

theorem Remaps.refl (hcount : index.count ≤ file.count) : Remaps file index index :=
  ⟨rfl, rfl, Nat.le_refl _, hcount⟩

theorem Remaps.eq_self {index' : GroupIndex} (hremaps : Remaps file index index')
    (hcount : index.count = file.count) : index' = index := by
  obtain ⟨hwritable, hmapped, hgrows, hwithin⟩ := hremaps
  cases index
  cases index'
  simp_all only
  congr
  omega

theorem indexMaybeRemap_eq {loc : Nat} (hmapped : index.mapped = true)
    (hcount : index.count ≤ file.count) (hloc : loc < file.count) :
    Remaps file index (indexMaybeRemap index file loc) ∧
      loc < (indexMaybeRemap index file loc).count := by
  unfold indexMaybeRemap
  split
  next h => exact ⟨.refl hcount, h⟩
  next =>
    rw [if_neg (by omega)]
    exact ⟨⟨rfl, hmapped.symm, hcount, Nat.le_refl _⟩, hloc⟩

theorem toLink_eq_some {recno : Int} {loc : Nat} (hrecno : toLink recno = some loc) :
    recno = loc := by
  unfold toLink at hrecno
  split at hrecno
  · cases hrecno
  · have := Option.some.inj hrecno
    omega

theorem toLink_eq_none {recno : Int} (hrecno : toLink recno = none) : recno < 0 := by
  unfold toLink at hrecno
  split at hrecno
  · assumption
  · cases hrecno

theorem toLink_natCast (loc : Nat) : toLink loc = some loc := by
  rw [toLink, if_neg (by omega)]
  rfl

theorem chain_rest {loc : Nat} {list : List Nat}
    (hchain : Chain file.link (toLink (loc : Int)) (loc :: list)) :
    Chain file.link (toLink (file.entries loc).next) list := by
  rw [toLink_natCast] at hchain
  cases hchain with
  | cons hrest => exact hrest

theorem ne_next {loc : Nat} (hnext : file.link (.inr loc) ≠ some loc) :
    (loc : Int) ≠ (file.entries loc).next := by
  intro heq
  apply hnext
  rw [show file.link (.inr loc) = toLink (file.entries loc).next from rfl, ← heq, toLink_natCast]

theorem unmatched_append {front : List Nat} {loc : Nat}
    (hfront : ∀ l ∈ front, (file.entries l).matches hash = false)
    (hmatch : ¬(file.entries loc).matches hash = true) :
    ∀ l ∈ front ++ [loc], (file.entries l).matches hash = false := by
  intro l hl
  rcases List.mem_append.mp hl with hl | hl
  · exact hfront l hl
  · obtain rfl := List.mem_singleton.mp hl
    simpa using hmatch

theorem indexFindLoop_eq (hash : HASH) {recno : Int} {list : List Nat} {fuel : Nat}
    (hchain : Chain file.link (toLink recno) list) (hin : ∀ loc ∈ list, loc < file.count)
    (hfuel : list.length < fuel) (hmapped : index.mapped = true)
    (hcount : index.count ≤ file.count) :
    ∃ index', indexFindLoop file hash fuel index recno =
      .ok (list.find? fun loc => (file.entries loc).matches hash, index') ∧
        Remaps file index index' := by
  induction list generalizing recno fuel index with
  | nil =>
    obtain ⟨fuel, rfl⟩ : ∃ f, fuel = f + 1 := ⟨fuel - 1, by omega⟩
    have hend : toLink recno = none := by simpa using hchain.start_eq
    exact ⟨index, by rw [indexFindLoop, if_pos (toLink_eq_none hend)]; rfl, .refl hcount⟩
  | cons loc list ih =>
    obtain ⟨fuel, rfl⟩ : ∃ f, fuel = f + 1 := ⟨fuel - 1, by simp at hfuel; omega⟩
    obtain rfl := toLink_eq_some (by simpa using hchain.start_eq : toLink recno = some loc)
    have hloc := hin loc (List.mem_cons_self ..)
    have hnext := hchain.next_ne (List.mem_cons_self ..)
    have hrest := chain_rest hchain
    obtain ⟨hremaps, hwithin⟩ : Remaps file index
        (if (loc : Int) ≥ index.count then indexMaybeRemap index file loc else index) ∧
        loc < (if (loc : Int) ≥ index.count then indexMaybeRemap index file loc
          else index).count := by
      split
      · exact indexMaybeRemap_eq hmapped hcount hloc
      next h => exact ⟨.refl hcount, by omega⟩
    rw [indexFindLoop, if_neg (by omega)]
    simp only [Int.toNat_natCast]
    generalize (if (loc : Int) ≥ index.count then indexMaybeRemap index file loc else index) =
      index' at hremaps hwithin ⊢
    rw [if_neg (by omega), if_neg (by omega)]
    by_cases hmatch : (file.entries loc).matches hash = true
    · exact ⟨index', by simp [hmatch], hremaps⟩
    · rw [if_neg hmatch, if_neg (ne_next hnext), List.find?_cons, eq_false_of_ne_true hmatch]
      obtain ⟨index'', heq, hremaps'⟩ := ih hrest
        (fun l hl => hin l (List.mem_cons_of_mem loc hl)) (by simp at hfuel; omega)
        (hremaps.mapped.trans hmapped) hremaps.within
      exact ⟨index'', heq, ⟨hremaps'.writable.trans hremaps.writable,
        hremaps'.mapped.trans hremaps.mapped, Nat.le_trans hremaps.grows hremaps'.grows,
        hremaps'.within⟩⟩

def Unlinks (file : IndexFile) (hash : HASH) (list : List Nat) :
    Option (Nat × Place) → Prop
  | none => ∀ loc ∈ list, (file.entries loc).matches hash = false
  | some (loc, place) => ∃ front back, list = front ++ loc :: back ∧
      (file.entries loc).matches hash = true ∧
      place = parent (some (indexBucket hash)) front

theorem indexUnlinkLoop_step {loc fuel : Nat} {place : Place} (hindex : loc < index.count)
    (hloc : loc < file.count) (hnext : file.link (.inr loc) ≠ some loc) :
    indexUnlinkLoop file hash (fuel + 1) index place loc =
      if (file.entries loc).matches hash then .ok (some (loc, place), index)
      else indexUnlinkLoop file hash fuel index (.inr loc) (file.entries loc).next := by
  rw [indexUnlinkLoop, if_neg (by omega)]
  dsimp only
  rw [if_neg (by omega : ¬(loc : Int) ≥ index.count)]
  simp only [Int.toNat_natCast]
  rw [if_neg (by omega), if_neg (by omega), if_neg (ne_next hnext)]

theorem indexUnlinkLoop_walk (hash : HASH) (hcount : index.count = file.count)
    {recno : Int} {list : List Nat} (front : List Nat) {fuel : Nat}
    (hchain : Chain file.link (toLink recno) list) (hin : ∀ loc ∈ list, loc < file.count)
    (hfuel : list.length < fuel)
    (hfront : ∀ loc ∈ front, (file.entries loc).matches hash = false) :
    ∃ found, indexUnlinkLoop file hash fuel index (parent (some (indexBucket hash)) front) recno =
      .ok (found, index) ∧ Unlinks file hash (front ++ list) found := by
  induction list generalizing recno fuel front with
  | nil =>
    obtain ⟨fuel, rfl⟩ : ∃ f, fuel = f + 1 := ⟨fuel - 1, by omega⟩
    have hend : toLink recno = none := by simpa using hchain.start_eq
    exact ⟨none, by rw [indexUnlinkLoop, if_pos (toLink_eq_none hend)], by simpa [Unlinks]⟩
  | cons loc list ih =>
    obtain ⟨fuel, rfl⟩ : ∃ f, fuel = f + 1 := ⟨fuel - 1, by simp at hfuel; omega⟩
    obtain rfl := toLink_eq_some (by simpa using hchain.start_eq : toLink recno = some loc)
    have hloc := hin loc (List.mem_cons_self ..)
    have hnext := hchain.next_ne (List.mem_cons_self ..)
    have hrest := chain_rest hchain
    rw [indexUnlinkLoop_step (by omega) hloc hnext]
    by_cases hmatch : (file.entries loc).matches hash = true
    · exact ⟨some (loc, parent (some (indexBucket hash)) front), by rw [if_pos hmatch],
        front, list, rfl, hmatch, rfl⟩
    · rw [if_neg hmatch, ← parent_append (some (indexBucket hash)) front loc]
      have hstep := ih (front ++ [loc]) hrest
        (fun l hl => hin l (List.mem_cons_of_mem loc hl)) (by simp at hfuel; omega)
        (unmatched_append hfront hmatch)
      rwa [List.append_assoc, List.singleton_append] at hstep

theorem indexUnlinkLoop_restart {fuel : Nat} {place : Place} {current : Int} {first : Nat}
    (hstale : current ≥ index.count) (hcurrent : 0 ≤ current)
    (hfirst : file.recno (.inl (some (indexBucket hash))) = first)
    (hin : first < (indexMaybeRemap index file current.toNat).count) :
    indexUnlinkLoop file hash (fuel + 1) index place current =
      indexUnlinkLoop file hash (fuel + 1) (indexMaybeRemap index file current.toNat)
        (.inl (some (indexBucket hash))) first := by
  rw [indexUnlinkLoop, indexUnlinkLoop, if_neg (by omega), if_neg (by omega)]
  dsimp only
  rw [if_pos hstale, if_neg
    (by omega : ¬(first : Int) ≥ (indexMaybeRemap index file current.toNat).count)]
  simp only [hfirst]

theorem indexUnlinkLoop_eq (hash : HASH) (hmapped : index.mapped = true)
    (hcount : index.count ≤ file.count) {recno : Int} {list : List Nat} (front : List Nat)
    {fuel : Nat}
    (hwhole : Chain file.link (file.link (.inl (some (indexBucket hash)))) (front ++ list))
    (hchain : Chain file.link (toLink recno) list) (hin : ∀ loc ∈ front ++ list, loc < file.count)
    (hfuel : list.length + (front ++ list).length < fuel)
    (hfront : ∀ loc ∈ front, (file.entries loc).matches hash = false) :
    ∃ found index',
      indexUnlinkLoop file hash fuel index (parent (some (indexBucket hash)) front) recno =
        .ok (found, index') ∧ Unlinks file hash (front ++ list) found ∧
      Remaps file index index' := by
  induction list generalizing recno fuel front with
  | nil =>
    obtain ⟨fuel, rfl⟩ : ∃ f, fuel = f + 1 := ⟨fuel - 1, by omega⟩
    have hend : toLink recno = none := by simpa using hchain.start_eq
    exact ⟨none, index, by rw [indexUnlinkLoop, if_pos (toLink_eq_none hend)], by simpa [Unlinks],
      .refl hcount⟩
  | cons loc list ih =>
    obtain ⟨fuel, rfl⟩ : ∃ f, fuel = f + 1 := ⟨fuel - 1, by omega⟩
    obtain rfl := toLink_eq_some (by simpa using hchain.start_eq : toLink recno = some loc)
    have hloc := hin loc (by simp)
    by_cases hstale : (loc : Int) ≥ index.count
    · obtain ⟨first, rest, hlist⟩ : ∃ first rest, front ++ loc :: list = first :: rest :=
        List.exists_cons_of_ne_nil (by simp)
      have hfirst : file.recno (.inl (some (indexBucket hash))) = first := by
        apply toLink_eq_some
        rw [hlist] at hwhole
        exact hwhole.start_eq
      have hremap : indexMaybeRemap index file loc =
          { index with count := file.count, mapped := true } := by
        rw [indexMaybeRemap, if_neg (by omega), if_neg (by omega)]
      have hfirst' : first < file.count := hin first (by rw [hlist]; simp)
      rw [indexUnlinkLoop_restart hstale (by omega) hfirst
        (by rw [Int.toNat_natCast, hremap]; exact hfirst'), Int.toNat_natCast, hremap]
      obtain ⟨found, heq, hfound⟩ := @indexUnlinkLoop_walk file
        { index with count := file.count, mapped := true } hash rfl first _ [] (fuel + 1)
        (hfirst ▸ hwhole) hin (by omega) (by simp)
      exact ⟨found, _, heq, hfound, ⟨rfl, hmapped.symm, hcount, Nat.le_refl _⟩⟩
    · have hnext := hchain.next_ne (List.mem_cons_self ..)
      have hrest := chain_rest hchain
      rw [indexUnlinkLoop_step (by omega) hloc hnext]
      by_cases hmatch : (file.entries loc).matches hash = true
      · exact ⟨some (loc, parent (some (indexBucket hash)) front), index, by rw [if_pos hmatch],
          ⟨front, list, rfl, hmatch, rfl⟩, .refl hcount⟩
      · rw [if_neg hmatch, ← parent_append (some (indexBucket hash)) front loc]
        have hstep :=
          @ih (file.entries loc).next (front ++ [loc]) fuel (by simpa using hwhole) hrest
          (by simpa using hin)
          (by simp only [List.length_append, List.length_cons, List.length_nil] at hfuel ⊢; omega)
          (unmatched_append hfront hmatch)
        rwa [List.append_assoc, List.singleton_append] at hstep

end Walks

end Inn.Tradindexed
