import Inn.Tradindexed.Updates

/-!
# What the operations on a group index do

Each operation is followed on the lists of a well-formed file. The handle may
know less of the file than there is by now: lookups map the rest when they come
to it, but taking a free entry and expanding the file rely on what it knows.
-/

namespace Inn.Tradindexed

open Function (update update_self update_of_ne update_eq_self)
open Foundation.Threaded

def Locates (file : IndexFile) (lists : Option Bucket → List Nat)
    (groups : HASH → Option Contents) (hash : HASH) : Option Nat → Prop
  | none => groups hash = none
  | some loc => loc ∈ lists (some (indexBucket hash)) ∧ (file.entries loc).hash = hash ∧
      groups hash = some (file.entries loc).contents

def newContents (low high : Nat) (flag : UInt8) (indexinode : Nat) : Contents :=
  { high := high, low := if low = 0 ∧ high ≠ 0 then high + 1 else low, base := 0, count := 0,
    flag := flag, indexinode := indexinode }

structure Extends (file file' : IndexFile) (lists lists' : Option Bucket → List Nat) : Prop where
  chains : ∀ bucket, ∃ front, lists' (some bucket) = front ++ lists (some bucket)
  hashes : ∀ {bucket loc}, loc ∈ lists (some bucket) →
    (file'.entries loc).hash = (file.entries loc).hash

structure Removes (hash : HASH) (file file' : IndexFile) (lists lists' : Option Bucket → List Nat) :
    Prop where
  chains : ∀ bucket, lists' (some bucket) =
    (lists (some bucket)).filter fun loc => (file.entries loc).hash ≠ hash
  hashes : ∀ {bucket loc}, loc ∈ lists (some bucket) → (file.entries loc).hash ≠ hash →
    (file'.entries loc).hash = (file.entries loc).hash

section Operations

variable {file : IndexFile} {lists : Option Bucket → List Nat} {groups : HASH → Option Contents}
  {index : GroupIndex}

theorem Locates.of_find? (hfile : Represents file lists groups (· < file.count)) (hash : HASH) :
    Locates file lists groups hash
      ((lists (some (indexBucket hash))).find? fun loc => (file.entries loc).matches hash) := by
  cases hfound :
    (lists (some (indexBucket hash))).find? fun loc => (file.entries loc).matches hash with
  | none =>
    rw [Locates, Option.eq_none_iff_forall_ne_some]
    intro contents hgroups
    obtain ⟨bucket, loc, hloc, hhash, -⟩ := (hfile.stored _ _).mp hgroups
    have hunmatched := List.find?_eq_none.mp hfound loc (hfile.mem_own_bucket hloc hhash)
    simp [GroupEntry.matches, (hfile.live hloc).1, hhash] at hunmatched
  | some loc =>
    have hloc := List.mem_of_find?_eq_some hfound
    have hmatch : (file.entries loc).matches hash = true := by
      simpa using List.find?_some hfound
    have hhash : (file.entries loc).hash = hash := by
      simp only [GroupEntry.matches, decide_eq_true_eq] at hmatch
      exact hmatch.2
    exact ⟨hloc, hhash, hhash ▸ hfile.groups_of_mem hloc⟩

theorem indexFind_walk (hfile : Placed file lists (· < file.count)) (hmapped : index.mapped = true)
    (hcount : index.count ≤ file.count) (hash : HASH) :
    ∃ index', indexFind index file hash = .ok ((lists (some (indexBucket hash))).find? fun loc =>
      (file.entries loc).matches hash, index') ∧ Remaps file index index' := by
  have hchain := hfile.threads.chain (some (indexBucket hash))
  have hin : ∀ loc ∈ lists (some (indexBucket hash)), loc < file.count := fun loc =>
    hfile.present_of_mem
  rw [indexFind, if_neg (by simp [hmapped])]
  exact indexFindLoop_eq hash hchain hin (Nat.lt_succ_of_le (hchain.length_le hin)) hmapped hcount

theorem indexFind_eq (hfile : Represents file lists groups (· < file.count))
    (hmapped : index.mapped = true) (hcount : index.count ≤ file.count) (hash : HASH) :
    ∃ found index', indexFind index file hash = .ok (found, index') ∧
      Locates file lists groups hash found ∧ Remaps file index index' := by
  obtain ⟨index', heq, hremaps⟩ := indexFind_walk hfile.toPlaced hmapped hcount hash
  exact ⟨_, index', heq, Locates.of_find? hfile hash, hremaps⟩

theorem updateFlag_eq (hfile : Represents file lists groups (· < file.count)) {hash : HASH}
    {loc : Nat} (hloc : Locates file lists groups hash (some loc)) (flag : UInt8) :
    Represents (updateFlag file loc flag) lists
      (update groups hash ((groups hash).map fun contents => { contents with flag := flag }))
      (· < file.count) := by
  obtain ⟨hmem, rfl, hgroups⟩ := hloc
  rw [hgroups, updateFlag]
  split
  · exact hfile.change hmem rfl rfl rfl
  next hsame =>
    rw [not_not] at hsame
    have hcontents : (file.entries loc).contents =
        { (file.entries loc).contents with flag := flag } := by
      rw [← hsame]
      rfl
    rw [Option.map_some, ← hcontents, ← hgroups, update_eq_self]
    exact hfile

theorem Represents.updateFlag (hfile : Represents file lists groups (· < file.count)) {loc : Nat}
    (hloc : loc < file.count) (flag : UInt8) :
    ∃ groups', Represents (updateFlag file loc flag) lists groups' (· < file.count) ∧
      ∀ hash, (groups' hash).isSome = (groups hash).isSome := by
  obtain ⟨i, hi⟩ := (hfile.threads.covers loc).mp hloc
  rw [Tradindexed.updateFlag]
  split
  · cases i with
    | none => exact ⟨groups, hfile.changeFree hi rfl, fun _ => rfl⟩
    | some bucket =>
      refine ⟨_, hfile.change hi rfl rfl rfl, fun hash => ?_⟩
      by_cases hsame : hash = (file.entries loc).hash
      · rw [hsame, update_self, hfile.groups_of_mem hi]
        rfl
      · rw [update_of_ne hsame]
  · exact ⟨groups, hfile, fun _ => rfl⟩

theorem extends_updateFlag (file : IndexFile) (lists : Option Bucket → List Nat) (loc : Nat)
    (flag : UInt8) : Extends file (updateFlag file loc flag) lists lists := by
  refine ⟨fun bucket => ⟨[], rfl⟩, fun {bucket other} _ => ?_⟩
  rw [updateFlag]
  split
  · by_cases hother : other = loc
    · rw [hother, IndexFile.entries_setEntry_self]
    · rw [IndexFile.entries_setEntry_of_ne hother]
  · rfl

@[simp]
theorem count_updateFlag (file : IndexFile) (loc : Nat) (flag : UInt8) :
    (updateFlag file loc flag).count = file.count := by
  rw [updateFlag]
  split <;> rfl

theorem count_addNewEntries (first n : Nat) (file : IndexFile) :
    (addNewEntries first n file).count = file.count := by
  induction n generalizing file with
  | zero => rfl
  | succ n ih =>
    rw [addNewEntries, ih]
    exact count_pushOnto file none _

theorem sameBodies_addNewEntries (first n : Nat) (file : IndexFile) :
    SameBodies file (addNewEntries first n file) := by
  induction n generalizing file with
  | zero => exact fun _ => ⟨rfl, rfl, rfl⟩
  | succ n ih => exact (sameBodies_pushOnto file none (first + n)).trans (ih _)

def grown (file : IndexFile) : IndexFile :=
  addNewEntries file.count 1024 (file.ftruncate (file.count + 1024))

theorem count_grown (file : IndexFile) : (grown file).count = file.count + 1024 := by
  rw [grown, count_addNewEntries]
  rfl

theorem bodies_grown (file : IndexFile) {loc : Nat} (hloc : loc < file.count) :
    ((grown file).entries loc).hash = (file.entries loc).hash ∧
      ((grown file).entries loc).deleted = (file.entries loc).deleted ∧
      ((grown file).entries loc).contents = (file.entries loc).contents := by
  have hbodies := sameBodies_addNewEntries file.count 1024 (file.ftruncate (file.count + 1024)) loc
  have hentry : (file.ftruncate (file.count + 1024)).entries loc = file.entries loc :=
    if_pos ⟨Nat.lt_of_lt_of_le hloc (Nat.le_add_right _ _), hloc⟩
  rw [hentry] at hbodies
  rw [grown]
  exact hbodies

theorem Placed.grown (hfile : Placed file lists (· < file.count)) :
    Placed (grown file) (update lists none (List.range' file.count 1024 ++ lists none))
      (· < (grown file).count) := by
  have hgrown := hfile.ftruncate (Nat.le_add_right file.count 1024)
  rw [count_grown]
  exact (hgrown.addNewEntries 1024 fun loc hfirst _ => by omega).congr_present fun loc => by omega

theorem Represents.grown (hfile : Represents file lists groups (· < file.count)) :
    Represents (grown file) (update lists none (List.range' file.count 1024 ++ lists none))
      groups (· < (grown file).count) := by
  refine hfile.of_placed hfile.toPlaced.grown (fun bucket => update_of_ne (by simp) _ _) ?_
  intro bucket loc hloc
  have hbodies := bodies_grown file (hfile.present_of_mem hloc)
  exact ⟨hbodies.1, hbodies.2.2⟩

theorem indexExpand_eq (hmagic : file.header.magic = TDX_MAGIC)
    (hcount : index.count = file.count) :
    indexExpand index file = ({ index with count := (grown file).count, mapped := true },
      grown file) := by
  have hheader : initHeader (file.ftruncate (file.count + 1024)) =
      file.ftruncate (file.count + 1024) := if_neg (not_not.mpr hmagic)
  rw [indexExpand, hcount, Nat.add_sub_cancel, hheader, count_grown]
  rfl

def fill (entry : GroupEntry) (hash : HASH) (low high : Nat) (flag : UInt8) (indexinode : Nat) :
    GroupEntry :=
  { entry with
    hash := hash
    low := if low = 0 ∧ high ≠ 0 then high + 1 else low
    high := high
    deleted := 0
    base := 0
    count := 0
    flag := flag
    indexinode := indexinode }

def enter (file : IndexFile) (loc : Nat) (entry : GroupEntry) : IndexFile :=
  pushOnto ((file.setRecno (.inl none) (file.entries loc).next).setEntry loc entry)
    (some (indexBucket entry.hash)) loc

@[simp]
theorem count_enter (file : IndexFile) (loc : Nat) (entry : GroupEntry) :
    (enter file loc entry).count = file.count := by
  rw [enter, count_pushOnto]
  exact IndexFile.count_setRecno (.inl none) (file.entries loc).next

theorem bodies_enter_of_ne (file : IndexFile) {loc other : Nat} (hne : other ≠ loc)
    (entry : GroupEntry) :
    ((enter file loc entry).entries other).hash = (file.entries other).hash ∧
      ((enter file loc entry).entries other).deleted = (file.entries other).deleted := by
  have hbodies := sameBodies_pushOnto
    ((file.setRecno (.inl none) (file.entries loc).next).setEntry loc entry)
    (some (indexBucket entry.hash)) loc other
  rw [IndexFile.entries_setEntry_of_ne hne] at hbodies
  have hbodies' := sameBodies_setRecno file (.inl none) (file.entries loc).next other
  exact ⟨hbodies.1.trans hbodies'.1, hbodies.2.1.trans hbodies'.2.1⟩

def entered (lists : Option Bucket → List Nat) (bucket : Bucket) (loc : Nat) (rest : List Nat) :
    Option Bucket → List Nat :=
  update (update lists none rest) (some bucket) (loc :: lists (some bucket))

section Enter

variable {loc : Nat} {rest : List Nat} {entry : GroupEntry}

theorem Placed.enter (hfile : Placed file lists (· < file.count)) (hlist : lists none = loc :: rest)
    (hlive : entry.deleted = 0) :
    Placed (enter file loc entry) (entered lists (indexBucket entry.hash) loc rest)
      (· < (enter file loc entry).count) := by
  have hloc : loc < file.count := hfile.present_of_mem (hlist ▸ List.mem_cons_self ..)
  have hout : ¬(loc < file.count ∧ loc ≠ loc) := by simp
  have hfront : lists none = [] ++ loc :: rest := hlist
  have hfilled : Placed ((file.setRecno (.inl none) (file.entries loc).next).setEntry loc entry)
      (update lists none rest) (fun other => other < file.count ∧ other ≠ loc) :=
    (hfile.detach hfront).edit hout entry
  have hbody : ∀ bucket, some (indexBucket entry.hash) = some bucket →
      (((file.setRecno (.inl none) (file.entries loc).next).setEntry loc entry).entries
        loc).deleted =
        0 ∧ indexBucket (((file.setRecno (.inl none) (file.entries loc).next).setEntry loc
          entry).entries loc).hash = bucket := by
    intro bucket hbucket
    rw [IndexFile.entries_setEntry_self]
    exact ⟨hlive, Option.some.inj hbucket⟩
  have hpush := hfilled.push hout hbody
  rw [count_enter]
  rw [update_of_ne (by simp)] at hpush
  exact hpush.congr_present fun other => by grind

theorem Represents.enter (hfile : Represents file lists groups (· < file.count))
    (hlist : lists none = loc :: rest) (hlive : entry.deleted = 0)
    (hnew : groups entry.hash = none) :
    Represents (enter file loc entry) (entered lists (indexBucket entry.hash) loc rest)
      (update groups entry.hash (some entry.contents))
      (· < (Tradindexed.enter file loc entry).count) := by
  have hout : ¬(loc < file.count ∧ loc ≠ loc) := by simp
  have hfront : lists none = [] ++ loc :: rest := hlist
  have hfilled : Represents ((file.setRecno (.inl none) (file.entries loc).next).setEntry loc entry)
      (update lists none rest) groups (fun other => other < file.count ∧ other ≠ loc) :=
    (hfile.detach hfront).edit hout entry
  have hentry :
      ((file.setRecno (.inl none) (file.entries loc).next).setEntry loc entry).entries loc =
      entry := IndexFile.entries_setEntry_self ..
  have hpush := hfilled.pushGroup hout (by rw [hentry, hlive]) (by rw [hentry, hnew])
  rw [hentry, update_of_ne (by simp)] at hpush
  exact ⟨hfile.toPlaced.enter hlist hlive, hpush.distinct, hpush.stored⟩

theorem extends_enter (hfile : Placed file lists (· < file.count))
    (hlist : lists none = loc :: rest) :
    Extends file (enter file loc entry) lists
      (entered lists (indexBucket entry.hash) loc rest) := by
  refine ⟨fun bucket => ?_, fun {bucket other} hother => ?_⟩
  · by_cases hbucket : bucket = indexBucket entry.hash
    · subst hbucket
      exact ⟨[loc], by simp [entered]⟩
    · exact ⟨[], by simp [entered, hbucket]⟩
  · refine (bodies_enter_of_ne file ?_ entry).1
    rintro rfl
    cases hfile.threads.disjoint hother (hlist ▸ List.mem_cons_self .. : other ∈ lists none)

theorem addEntry_free (hfile : Placed file lists (· < file.count))
    (hlist : lists none = loc :: rest)
    (hindex : loc < index.count) (hash : HASH) (low high : Nat) (flag : UInt8) (indexinode : Nat) :
    addEntry index file hash low high flag indexinode =
      .ok (index, enter file loc (fill (file.entries loc) hash low high flag indexinode)) := by
  have hloc : loc < file.count := hfile.present_of_mem (hlist ▸ List.mem_cons_self ..)
  have hfree : file.header.freelist = loc := by
    rcases hfile.freelist_eq with ⟨-, hnil⟩ | ⟨loc', rest', hhead, hlist'⟩
    · rw [hlist] at hnil
      cases hnil
    · rw [hhead, (List.cons.inj (hlist.symm.trans hlist')).1]
  -- The head of the chain is another entry, so that no loop is refused.
  have hhead : (loc : Int) ≠ file.header.hash (indexBucket hash) := by
    intro heq
    have hstart := (hfile.threads.chain (some (indexBucket hash))).start_eq
    rw [IndexFile.link, IndexFile.recno, ← heq, toLink_natCast] at hstart
    cases hfile.threads.disjoint (List.mem_of_head? hstart.symm)
      (hlist ▸ List.mem_cons_self .. : loc ∈ lists none)
  rw [addEntry, if_neg (by omega)]
  simp only [hfree, Int.toNat_natCast]
  rw [if_neg (by omega), indexAdd]
  simp only [IndexFile.entries_setEntry_self]
  exact congrArg Except.ok (congrArg (Prod.mk index) (if_neg hhead))

end Enter

def MapsFreelist (index : GroupIndex) (file : IndexFile) : Prop :=
  if file.header.freelist = -1 then index.count = file.count
  else file.header.freelist < index.count

instance (index : GroupIndex) (file : IndexFile) : Decidable (MapsFreelist index file) :=
  inferInstanceAs (Decidable (if file.header.freelist = -1 then index.count = file.count
    else file.header.freelist < index.count))

theorem mapsFreelist_of_count (hfile : Placed file lists (· < file.count))
    (hcount : index.count = file.count) : MapsFreelist index file := by
  rw [MapsFreelist]
  rcases hfile.freelist_eq with ⟨hend, -⟩ | ⟨loc, rest, hhead, hlist⟩
  · rwa [if_pos hend]
  · have hloc : loc < file.count := hfile.present_of_mem (hlist ▸ List.mem_cons_self ..)
    rw [if_neg (by omega)]
    omega

theorem addEntry_grown (hfile : Placed file lists (· < file.count))
    (hempty : file.header.freelist = -1) (hnil : lists none = [])
    (hcount : index.count = file.count)
    (hash : HASH) (low high : Nat) (flag : UInt8) (indexinode : Nat) :
    ∃ rest, update lists none (List.range' file.count 1024 ++ lists none) none =
        file.count :: rest ∧
      addEntry index file hash low high flag indexinode =
        .ok ({ index with count := (grown file).count, mapped := true },
          enter (grown file) file.count
          (fill ((grown file).entries file.count) hash low high flag indexinode)) := by
  have hlist : update lists none (List.range' file.count 1024 ++ lists none) none =
      file.count :: List.range' (file.count + 1) 1023 := by
    rw [update_self, hnil, List.append_nil, List.range'_succ]
  refine ⟨_, hlist, ?_⟩
  have hhead : (grown file).header.freelist ≠ -1 := by
    rcases hfile.grown.freelist_eq with ⟨-, hnone⟩ | ⟨loc, rest, hhead, -⟩
    · rw [hlist] at hnone
      cases hnone
    · omega
  have hexpand : addEntry index file hash low high flag indexinode =
      addEntry { index with count := (grown file).count, mapped := true } (grown file) hash low high
        flag indexinode := by
    rw [addEntry, addEntry, if_pos hempty, if_neg hhead, indexExpand_eq hfile.magic hcount]
  rw [hexpand]
  refine addEntry_free hfile.grown hlist ?_ hash low high flag indexinode
  rw [count_grown]
  exact Nat.lt_add_of_pos_right (by omega)

theorem addEntry_eq (hfile : Represents file lists groups (· < file.count))
    (hmapped : index.mapped = true) (hmaps : MapsFreelist index file)
    {hash : HASH} (hnew : groups hash = none) (low high : Nat) (flag : UInt8) (indexinode : Nat) :
    ∃ index' file' lists', addEntry index file hash low high flag indexinode = .ok (index', file') ∧
      Represents file' lists'
        (update groups hash (some (newContents low high flag indexinode)))
        (· < file'.count) ∧
      file.count ≤ file'.count ∧ Extends file file' lists lists' ∧
      (index' = { index with count := file'.count } ∨ index' = index ∧
        file'.count = file.count) := by
  rw [MapsFreelist] at hmaps
  rcases hfile.freelist_eq with ⟨hend, hnil⟩ | ⟨loc, rest, hhead, hlist⟩
  · rw [if_pos hend] at hmaps
    obtain ⟨rest, hlist, hadd⟩ :=
      addEntry_grown hfile.toPlaced hend hnil hmaps hash low high flag indexinode
    have hextends := @extends_enter _ _ _ _
      (fill ((grown file).entries file.count) hash low high flag indexinode)
        hfile.grown.toPlaced hlist
    refine ⟨_, _, _, hadd, hfile.grown.enter hlist rfl hnew, ?_, ⟨fun bucket => ?_, ?_⟩, Or.inl ?_⟩
    · rw [count_enter, count_grown]
      exact Nat.le_add_right _ _
    · rw [show lists (some bucket) = update lists none
        (List.range' file.count 1024 ++ lists none) (some bucket) from
          (update_of_ne (by simp) _ _).symm]
      exact hextends.chains bucket
    · intro bucket loc hloc
      have hmem : loc ∈ update lists none (List.range' file.count 1024 ++ lists none)
          (some bucket) := by
        rwa [update_of_ne (by simp)]
      rw [hextends.hashes hmem, (bodies_grown file (hfile.present_of_mem hloc)).1]
    · rw [count_enter, ← hmapped]
  · rw [if_neg (by omega)] at hmaps
    have hroom : loc < index.count := by omega
    exact ⟨index, _, _, addEntry_free hfile.toPlaced hlist hroom hash low high flag indexinode,
      hfile.enter hlist rfl hnew, Nat.le_of_eq (count_enter _ _ _).symm,
        extends_enter hfile.toPlaced hlist,
      Or.inr ⟨rfl, count_enter _ _ _⟩⟩

theorem groups_of_unlinks_none (hfile : Represents file lists groups (· < file.count)) {hash : HASH}
    (hfound : Unlinks file hash (lists (some (indexBucket hash))) none) : groups hash = none := by
  rw [Option.eq_none_iff_forall_ne_some]
  intro contents hgroups
  obtain ⟨bucket, loc, hloc, hhash, -⟩ := (hfile.stored _ _).mp hgroups
  have hunmatched := hfound loc (hfile.mem_own_bucket hloc hhash)
  simp [GroupEntry.matches, (hfile.live hloc).1, hhash] at hunmatched

theorem indexUnlinkHash_eq (hfile : Placed file lists (· < file.count))
    (hmapped : index.mapped = true) (hcount : index.count ≤ file.count) (hash : HASH) :
    ∃ index', Remaps file index index' ∧
      (Unlinks file hash (lists (some (indexBucket hash))) none ∧
          indexUnlinkHash index file hash = .ok (none, index', file) ∨
        ∃ loc front back, lists (some (indexBucket hash)) = front ++ loc :: back ∧
          (file.entries loc).hash = hash ∧ indexUnlinkHash index file hash =
            .ok (some loc, index',
              entrySplice file loc (parent (some (indexBucket hash)) front))) := by
  have hchain := hfile.threads.chain (some (indexBucket hash))
  have hin : ∀ loc ∈ lists (some (indexBucket hash)), loc < file.count := fun loc =>
    hfile.present_of_mem
  have hlength := hchain.length_le hin
  obtain ⟨found, index', heq, hfound, hremaps⟩ := indexUnlinkLoop_eq hash hmapped hcount []
    hchain hchain hin (by rw [List.nil_append]; omega : _ < 2 * (file.count + 1)) (by simp)
  have hwalk : indexUnlinkLoop file hash (2 * (file.count + 1)) index
      (.inl (some (indexBucket hash))) (file.recno (.inl (some (indexBucket hash)))) =
      .ok (found, index') := heq
  rw [List.nil_append] at hfound
  refine ⟨index', hremaps, ?_⟩
  cases found with
  | none => exact Or.inl ⟨hfound, by simp only [indexUnlinkHash, hwalk]⟩
  | some found =>
    obtain ⟨loc, place⟩ := found
    obtain ⟨front, back, hlist, hmatch, rfl⟩ := hfound
    simp only [GroupEntry.matches, decide_eq_true_eq] at hmatch
    exact Or.inr ⟨loc, front, back, hlist, hmatch.2, by simp only [indexUnlinkHash, hwalk]⟩

def discard (file : IndexFile) (bucket : Bucket) (front : List Nat) (loc now : Nat) : IndexFile :=
  freeEntry (entrySplice file loc (parent (some bucket) front)) loc now

def discarded (lists : Option Bucket → List Nat) (bucket : Bucket) (front : List Nat) (loc : Nat)
    (back : List Nat) : Option Bucket → List Nat :=
  update (update lists (some bucket) (front ++ back)) none (loc :: lists none)

section Discard

variable {bucket : Bucket} {front back : List Nat} {loc : Nat}

@[simp]
theorem count_discard (file : IndexFile) (bucket : Bucket) (front : List Nat) (loc now : Nat) :
    (discard file bucket front loc now).count = file.count := by
  simp [discard, freeEntry, freelistAdd, entrySplice, IndexFile.setEntry]

theorem bodies_discard_of_ne (file : IndexFile) (bucket : Bucket) (front : List Nat) (now : Nat)
    {other : Nat} (hne : other ≠ loc) :
    ((discard file bucket front loc now).entries other).hash = (file.entries other).hash ∧
      ((discard file bucket front loc now).entries other).deleted = (file.entries other).deleted ∧
      ((discard file bucket front loc now).entries other).contents =
        (file.entries other).contents := by
  have hspliced := ((sameBodies_setRecno file (parent (some bucket) front)
    (file.recno (.inr loc))).trans (sameBodies_setRecno _ (.inr loc) (-1))) other
  have hfreed :=
    sameBodies_pushOnto ((entrySplice file loc (parent (some bucket) front)).setEntry loc
    { (entrySplice file loc (parent (some bucket) front)).entries loc with
      deleted := now, hash := HashClear }) none loc other
  rw [IndexFile.entries_setEntry_of_ne hne] at hfreed
  exact ⟨hfreed.1.trans hspliced.1, hfreed.2.1.trans hspliced.2.1, hfreed.2.2.trans hspliced.2.2⟩

theorem Placed.discard (hfile : Placed file lists (· < file.count))
    (hlist : lists (some bucket) = front ++ loc :: back) (now : Nat) :
    Placed (discard file bucket front loc now) (discarded lists bucket front loc back)
      (· < (discard file bucket front loc now).count) := by
  have hloc : loc < file.count := hfile.present_of_mem (hlist ▸ by simp : loc ∈ lists (some bucket))
  have hout : ¬(loc < file.count ∧ loc ≠ loc) := by simp
  let cut := file.setRecno (parent (some bucket) front) (file.recno (.inr loc))
  let spliced := entrySplice file loc (parent (some bucket) front)
  have hspliced : Placed spliced (update lists (some bucket) (front ++ back))
      (fun other => other < file.count ∧ other ≠ loc) :=
    (hfile.detach hlist).edit hout { cut.entries loc with next := -1 }
  have hfreed : Placed (Tradindexed.discard file bucket front loc now) _ _ := (hspliced.edit hout
    { spliced.entries loc with deleted := now, hash := HashClear }).pushFree hout
  rw [count_discard]
  rw [update_of_ne (by simp)] at hfreed
  exact hfreed.congr_present fun other => by grind

theorem removes_discard (hfile : Represents file lists groups (· < file.count))
    (hlist : lists (some bucket) = front ++ loc :: back) (now : Nat) :
    Removes (file.entries loc).hash file (discard file bucket front loc now) lists
      (discarded lists bucket front loc back) := by
  have hin : loc ∈ lists (some bucket) := hlist ▸ by simp
  have hothers : ∀ {bucket' other}, other ∈ lists (some bucket') → other ≠ loc →
      (file.entries other).hash ≠ (file.entries loc).hash := fun hother hne heq =>
    hne (hfile.distinct hother hin heq)
  refine ⟨fun bucket' => ?_, fun {_ other} hother hne => ?_⟩
  · rw [discarded, update_of_ne (by simp)]
    by_cases hbucket : bucket' = bucket
    · subst hbucket
      have hnodup := (hfile.threads.chain (some bucket')).nodup
      rw [hlist, List.nodup_middle, List.nodup_cons] at hnodup
      rw [update_self, hlist, List.filter_append, List.filter_cons_of_neg (by simp),
        ← List.filter_append, eq_comm, List.filter_eq_self]
      intro other hother
      rw [decide_eq_true_eq]
      have hne : other ≠ loc := by
        rintro rfl
        exact hnodup.1 hother
      have hother' : other ∈ lists (some bucket') := by
        rw [hlist]
        grind
      exact hothers hother' hne
    · rw [update_of_ne (by simpa using hbucket), eq_comm, List.filter_eq_self]
      intro other hother
      rw [decide_eq_true_eq]
      refine hothers hother ?_
      rintro rfl
      exact hbucket (Option.some.inj (hfile.threads.disjoint hother hin))
  · refine (bodies_discard_of_ne file bucket front now ?_).1
    rintro rfl
    exact hne rfl

theorem Represents.discard (hfile : Represents file lists groups (· < file.count))
    (hlist : lists (some bucket) = front ++ loc :: back) (now : Nat) :
    Represents (discard file bucket front loc now) (discarded lists bucket front loc back)
      (update groups (file.entries loc).hash none)
      (· < (Tradindexed.discard file bucket front loc now).count) := by
  have hout : ¬(loc < file.count ∧ loc ≠ loc) := by simp
  let cut := file.setRecno (parent (some bucket) front) (file.recno (.inr loc))
  let spliced := entrySplice file loc (parent (some bucket) front)
  have hspliced : Represents spliced (update lists (some bucket) (front ++ back))
      (update groups (file.entries loc).hash none)
      (fun other => other < file.count ∧ other ≠ loc) :=
    (hfile.detach hlist).edit hout { cut.entries loc with next := -1 }
  have hfreed : Represents (Tradindexed.discard file bucket front loc now) _ _ _ :=
    (hspliced.edit hout
    { spliced.entries loc with deleted := now, hash := HashClear }).pushFree hout
  rw [update_of_ne (by simp)] at hfreed
  exact ⟨hfile.toPlaced.discard hlist now, hfreed.distinct, hfreed.stored⟩

end Discard

theorem tdxIndexDelete_eq (hfile : Represents file lists groups (· < file.count))
    (hmapped : index.mapped = true) (hcount : index.count ≤ file.count)
    (hwritable : index.writable = true) (hash : HASH) (now : Nat) :
    ∃ index' file' lists', tdxIndexDelete index file hash now =
        .ok ((groups hash).isSome, index', file') ∧
      Represents file' lists' (update groups hash none) (· < file'.count) ∧
      file'.count = file.count ∧ Remaps file index index' ∧
        Removes hash file file' lists lists' := by
  obtain ⟨index', hremaps, ⟨hfound, hunlink⟩ | ⟨loc, front, back, hlist, rfl, hunlink⟩⟩ :=
    indexUnlinkHash_eq hfile.toPlaced hmapped hcount hash
  · have hnone := groups_of_unlinks_none hfile hfound
    refine ⟨index', file, lists, ?_, ?_, rfl, hremaps, fun bucket => ?_, fun _ _ => rfl⟩
    · rw [tdxIndexDelete, if_neg (by simp [hwritable]), hunlink, hnone]
      rfl
    · rwa [← hnone, update_eq_self]
    · rw [eq_comm, List.filter_eq_self]
      intro loc hloc
      rw [decide_eq_true_eq]
      rintro rfl
      rw [hfile.groups_of_mem hloc] at hnone
      cases hnone
  · refine ⟨index', _, _, ?_, hfile.discard hlist now, count_discard .., hremaps,
      removes_discard hfile hlist now⟩
    have hin : loc ∈ lists (some (indexBucket (file.entries loc).hash)) := hlist ▸ by simp
    rw [tdxIndexDelete, if_neg (by simp [hwritable]), hunlink, hfile.groups_of_mem hin]
    rfl

end Operations

end Inn.Tradindexed
