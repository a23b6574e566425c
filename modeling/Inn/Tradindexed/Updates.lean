import Inn.Tradindexed.Chains

/-!
# Changing a well-formed group index

An entry is taken out of its list, filled in while it is in none, and put at the
front of another list. Each of the three keeps every other entry in its place.
-/

namespace Inn.Tradindexed

open Function (update update_idem update_self update_apply update_of_ne update_eq_self)
open Foundation.Threaded

def pushOnto (file : IndexFile) (i : Option Bucket) (loc : Nat) : IndexFile :=
  (file.setRecno (.inr loc) (file.recno (.inl i))).setRecno (.inl i) loc

theorem sameBodies_pushOnto (file : IndexFile) (i : Option Bucket) (loc : Nat) :
    SameBodies file (pushOnto file i loc) :=
  (sameBodies_setRecno file _ _).trans (sameBodies_setRecno _ _ _)

@[simp]
theorem count_pushOnto (file : IndexFile) (i : Option Bucket) (loc : Nat) :
    (pushOnto file i loc).count = file.count := by
  simp [pushOnto]

theorem mem_update_iff {lists : Option Bucket → List Nat} {i j : Option Bucket} {list : List Nat}
    {loc : Nat} : loc ∈ update lists i list j ↔
      (j = i ∧ loc ∈ list) ∨ (j ≠ i ∧ loc ∈ lists j) := by
  by_cases hj : j = i
  · subst hj
    simp
  · simp [hj]

namespace Placed

variable {file : IndexFile} {lists : Option Bucket → List Nat} {present : Nat → Prop}
  {loc : Nat} {hash : HASH}

section Placing

variable (hfile : Placed file lists present)

include hfile

theorem present_of_mem {i : Option Bucket}
    (hloc : loc ∈ lists i) : present loc := (hfile.threads.covers loc).mpr ⟨i, hloc⟩

theorem mem_own_bucket {bucket : Bucket}
    (hloc : loc ∈ lists (some bucket)) (hhash : (file.entries loc).hash = hash) :
    loc ∈ lists (some (indexBucket hash)) := by
  rw [← hhash, (hfile.live hloc).2]
  exact hloc

theorem congr_present {present' : Nat → Prop}
    (hsame : ∀ loc, present' loc ↔ present loc) : Placed file lists present' := by
  have heq : present' = present := funext fun loc => propext (hsame loc)
  exact heq ▸ hfile

theorem congr {file' : IndexFile} (hheader : file'.header = file.header)
    (hsame : ∀ {loc}, present loc → file'.entries loc = file.entries loc) :
    Placed file' lists present := by
  refine ⟨?_, ?_, by rw [hheader, hfile.magic], ?_⟩
  · refine hfile.threads.congr (fun i => ?_) fun loc hloc => ?_
    · cases i <;> simp only [IndexFile.link, IndexFile.recno, hheader]
    · simp only [IndexFile.link, IndexFile.recno, hsame hloc]
  · intro place hplace
    have hrecno : file'.recno place = file.recno place := by
      rcases place with (_ | bucket) | loc
      · simp only [IndexFile.recno, hheader]
      · simp only [IndexFile.recno, hheader]
      · simp only [IndexFile.recno, hsame (hplace loc rfl)]
    rw [hrecno]
    exact hfile.ends place hplace
  · intro bucket loc hloc
    rw [hsame (hfile.present_of_mem hloc)]
    exact hfile.live hloc

theorem edit (hloc : ¬present loc) (entry : GroupEntry) :
    Placed (file.setEntry loc entry) lists present := by
  refine hfile.congr rfl fun {other} hother => IndexFile.entries_setEntry_of_ne ?_ entry
  rintro rfl
  exact hloc hother

end Placing

theorem ftruncate (hfile : Placed file lists (· < file.count)) {count : Nat}
    (hcount : file.count ≤ count) : Placed (file.ftruncate count) lists (· < file.count) := by
  refine hfile.congr rfl fun {loc} hloc => ?_
  rw [IndexFile.ftruncate]
  exact if_pos ⟨Nat.lt_of_lt_of_le hloc hcount, hloc⟩

section Placing2

variable (hfile : Placed file lists present)

include hfile

theorem change {entry : GroupEntry}
    (hbody : entry.hash = (file.entries loc).hash ∧ entry.deleted = (file.entries loc).deleted ∨
      loc ∈ lists none)
    (hnext : entry.next = (file.entries loc).next) :
    Placed (file.setEntry loc entry) lists present := by
  refine ⟨?_, ?_, hfile.magic, ?_⟩
  · rw [IndexFile.link_setEntry hnext]
    exact hfile.threads
  · rw [IndexFile.recno_setEntry hnext]
    exact hfile.ends
  · intro bucket other hother
    by_cases hloc : other = loc
    · subst hloc
      rcases hbody with ⟨hhash, hdeleted⟩ | hfree
      · rw [IndexFile.entries_setEntry_self, hhash, hdeleted]
        exact hfile.live hother
      · cases hfile.threads.disjoint hother hfree
    · rw [IndexFile.entries_setEntry_of_ne hloc]
      exact hfile.live hother

theorem mem_of_splice {i : Option Bucket}
    {front back : List Nat} (hlist : lists i = front ++ loc :: back) {j : Option Bucket}
    {other : Nat} :
    other ∈ update lists i (front ++ back) j ↔ other ∈ lists j ∧ other ≠ loc := by
  have hnodup := (hfile.threads.chain i).nodup
  rw [hlist, List.nodup_append, List.nodup_cons] at hnodup
  rw [mem_update_iff]
  constructor
  · rintro (⟨rfl, hmem⟩ | ⟨hj, hmem⟩)
    · rw [hlist]
      simp only [List.mem_append, List.mem_cons] at hmem hnodup ⊢
      grind
    · refine ⟨hmem, ?_⟩
      rintro rfl
      exact hj (hfile.threads.disjoint hmem (hlist ▸ by simp))
  · rintro ⟨hmem, hne⟩
    by_cases hj : j = i
    · subst hj
      rw [hlist] at hmem
      simp only [List.mem_append, List.mem_cons] at hmem ⊢
      grind
    · exact Or.inr ⟨hj, hmem⟩

theorem detach {i : Option Bucket}
    {front back : List Nat} (hlist : lists i = front ++ loc :: back) :
    Placed (file.setRecno (parent i front) (file.recno (.inr loc)))
      (update lists i (front ++ back)) (fun other => present other ∧ other ≠ loc) := by
  have hbodies := sameBodies_setRecno file (parent i front) (file.recno (.inr loc))
  have hloc : loc ∈ lists i := hlist ▸ by simp
  refine ⟨?_, ?_, by simpa using hfile.magic, ?_⟩
  · rw [IndexFile.link_setRecno]
    exact hfile.threads.splice hlist
  · intro place hplace
    rw [IndexFile.recno_setRecno, update_apply]
    split
    · exact hfile.ends (.inr loc) (by simpa using hfile.present_of_mem hloc)
    · exact hfile.ends place fun other hother => (hplace other hother).1
  · intro bucket other hother
    rw [(hbodies other).1, (hbodies other).2.1]
    exact hfile.live ((hfile.mem_of_splice hlist).mp hother).1

theorem push (hloc : ¬present loc) {i : Option Bucket} (hbody : ∀ bucket, i = some bucket →
      (file.entries loc).deleted = 0 ∧ indexBucket (file.entries loc).hash = bucket) :
    Placed (pushOnto file i loc) (update lists i (loc :: lists i))
      (fun other => other = loc ∨ present other) := by
  have hbodies := sameBodies_pushOnto file i loc
  refine ⟨?_, fun place hplace => ?_, by simpa [pushOnto] using hfile.magic, ?_⟩
  · rw [pushOnto, IndexFile.link_setRecno, IndexFile.link_setRecno, toLink_natCast]
    exact hfile.threads.push hloc i
  · rw [pushOnto, IndexFile.recno_setRecno, IndexFile.recno_setRecno]
    by_cases hhead : place = .inl i
    · rw [hhead, update_self]
      omega
    rw [update_of_ne hhead]
    by_cases hpushed : place = .inr loc
    · rw [hpushed, update_self]
      exact hfile.ends (.inl i) nofun
    · rw [update_of_ne hpushed]
      refine hfile.ends place fun other hother => (hplace other hother).resolve_left ?_
      rintro rfl
      exact hpushed hother
  · intro bucket other hother
    rw [(hbodies other).1, (hbodies other).2.1]
    rcases mem_update_iff.mp hother with ⟨rfl, hmem⟩ | ⟨-, hmem⟩
    · rcases List.mem_cons.mp hmem with rfl | hmem
      · exact hbody bucket rfl
      · exact hfile.live hmem
    · exact hfile.live hmem

theorem pushFree (hloc : ¬present loc) :
    Placed (pushOnto file none loc) (update lists none (loc :: lists none))
      (fun other => other = loc ∨ present other) := hfile.push hloc nofun

end Placing2

theorem addNewEntries {first : Nat} (n : Nat) (hfile : Placed file lists present)
    (hnew : ∀ loc, first ≤ loc → loc < first + n → ¬present loc) :
    Placed (addNewEntries first n file)
      (update lists none (List.range' first n ++ lists none))
      (fun loc => present loc ∨ first ≤ loc ∧ loc < first + n) := by
  induction n generalizing file lists present with
  | zero =>
    rw [Tradindexed.addNewEntries, List.range'_zero, List.nil_append, update_eq_self]
    exact hfile.congr_present fun loc => by grind
  | succ n ih =>
    have hpush := hfile.pushFree (hnew (first + n) (by omega) (by omega))
    have hrest := ih hpush fun loc hfirst hlast hor =>
      hor.elim (by omega) (hnew loc hfirst (by omega))
    rw [update_idem, update_self] at hrest
    rw [Tradindexed.addNewEntries, List.range'_concat, Nat.one_mul, List.append_assoc]
    exact hrest.congr_present fun loc => by grind

theorem recno_lt (hfile : Placed file lists (· < file.count)) (place : Place)
    (hplace : ∀ loc, place = .inr loc → loc < file.count) :
    -1 ≤ file.recno place ∧ file.recno place < file.count := by
  refine ⟨hfile.ends place hplace, ?_⟩
  have hlink : ∀ loc, file.link place = some loc → loc < file.count := by
    intro loc hloc
    rcases place with i | from'
    · exact hfile.present_of_mem (List.mem_of_head? ((hfile.threads.chain i).start_eq ▸ hloc))
    · obtain ⟨i, hi⟩ := (hfile.threads.covers from').mp (hplace from' rfl)
      obtain ⟨front, back, hlist⟩ := List.append_of_mem hi
      have hnext := (hlist ▸ hfile.threads.chain i).next_eq
      have hmem : loc ∈ back := List.mem_of_head? (hnext.symm.trans hloc)
      exact hfile.present_of_mem (hlist ▸ by simp [hmem] : loc ∈ lists i)
  by_cases hnegative : file.recno place < 0
  · omega
  · have := hlink (file.recno place).toNat (by rw [IndexFile.link, toLink, if_neg hnegative])
    omega

theorem freelist_eq (hfile : Placed file lists present) :
    (file.header.freelist = -1 ∧ lists none = []) ∨
      ∃ loc rest, file.header.freelist = (loc : Nat) ∧ lists none = loc :: rest := by
  have hends : -1 ≤ file.header.freelist := hfile.ends (.inl none) nofun
  have hstart : toLink file.header.freelist = (lists none).head? :=
    (hfile.threads.chain none).start_eq
  cases hlist : lists none with
  | nil =>
    rw [hlist] at hstart
    have := toLink_eq_none hstart
    exact Or.inl ⟨by omega, rfl⟩
  | cons loc rest =>
    rw [hlist] at hstart
    exact Or.inr ⟨loc, rest, toLink_eq_some hstart, rfl⟩

end Placed

namespace Represents

variable {file : IndexFile} {lists : Option Bucket → List Nat} {groups : HASH → Option Contents}
  {present : Nat → Prop} {loc : Nat} {hash : HASH}

section Representing

variable (hfile : Represents file lists groups present)

include hfile

theorem groups_of_mem {bucket : Bucket} (hloc : loc ∈ lists (some bucket)) :
    groups (file.entries loc).hash = some (file.entries loc).contents :=
  (hfile.stored _ _).mpr ⟨bucket, loc, hloc, rfl, rfl⟩

theorem of_placed {file' : IndexFile} {lists' : Option Bucket → List Nat} {present' : Nat → Prop}
    (hplaced : Placed file' lists' present')
    (hchains : ∀ bucket, lists' (some bucket) = lists (some bucket))
    (hsame : ∀ {bucket loc}, loc ∈ lists (some bucket) →
      (file'.entries loc).hash = (file.entries loc).hash ∧
      (file'.entries loc).contents = (file.entries loc).contents) :
    Represents file' lists' groups present' := by
  refine ⟨hplaced, ?_, ?_⟩
  · intro bucket bucket' loc loc' hloc hloc'
    rw [hchains] at hloc hloc'
    rw [(hsame hloc).1, (hsame hloc').1]
    exact hfile.distinct hloc hloc'
  · intro hash contents
    rw [hfile.stored]
    refine exists_congr fun bucket => exists_congr fun loc => ?_
    rw [hchains]
    refine and_congr_right fun hloc => ?_
    rw [(hsame hloc).1, (hsame hloc).2]

theorem edit (hloc : ¬present loc)
    (entry : GroupEntry) : Represents (file.setEntry loc entry) lists groups present := by
  refine hfile.of_placed (hfile.toPlaced.edit hloc entry) (fun _ => rfl) fun {_ other} hother => ?_
  have hne : other ≠ loc := by
    rintro rfl
    exact hloc (hfile.present_of_mem hother)
  rw [IndexFile.entries_setEntry_of_ne hne]
  exact ⟨rfl, rfl⟩

def without (groups : HASH → Option Contents) (i : Option Bucket) (hash : HASH) :
    HASH → Option Contents :=
  match i with
  | none => groups
  | some _ => update groups hash none

theorem detach {i : Option Bucket}
    {front back : List Nat} (hlist : lists i = front ++ loc :: back) :
    Represents (file.setRecno (parent i front) (file.recno (.inr loc)))
      (update lists i (front ++ back)) (without groups i (file.entries loc).hash)
      (fun other => present other ∧ other ≠ loc) := by
  have hbodies := sameBodies_setRecno file (parent i front) (file.recno (.inr loc))
  have hplaced := hfile.toPlaced.detach hlist
  have hloc : loc ∈ lists i := hlist ▸ by simp
  cases i with
  | none =>
    refine hfile.of_placed hplaced (fun bucket => update_of_ne (by simp) _ _) ?_
    exact fun {_ other} _ => ⟨(hbodies other).1, (hbodies other).2.2⟩
  | some bucket =>
    have hmem := fun {j other} => @Placed.mem_of_splice _ _ _ loc hfile.toPlaced (some bucket) front
      back hlist j other
    refine ⟨hplaced, ?_, ?_⟩
    · intro bucket' bucket'' other other' hother hother' heq
      rw [(hbodies other).1, (hbodies other').1] at heq
      exact hfile.distinct (hmem.mp hother).1 (hmem.mp hother').1 heq
    · intro hash contents
      have hstored : (∃ bucket', ∃ other ∈
          update lists (some bucket) (front ++ back) (some bucket'),
          ((file.setRecno (parent (some bucket) front)
            (file.recno (.inr loc))).entries other).hash =
            hash ∧
          ((file.setRecno (parent (some bucket) front) (file.recno (.inr loc))).entries
            other).contents = contents) ↔ ∃ bucket', ∃ other ∈ lists (some bucket'), other ≠ loc ∧
              (file.entries other).hash = hash ∧ (file.entries other).contents = contents := by
        refine exists_congr fun bucket' => exists_congr fun other => ?_
        rw [hmem, (hbodies other).1, (hbodies other).2.2, and_assoc]
      rw [hstored, without, update_apply]
      split
      next hsame =>
        refine ⟨nofun, ?_⟩
        rintro ⟨bucket', other, hother, hne, hhash, -⟩
        exact absurd (hfile.distinct hother hloc (hhash.trans hsame)) hne
      next hdiffers =>
        rw [hfile.stored]
        refine exists_congr fun bucket' => exists_congr fun other =>
          and_congr_right fun hother => ?_
        constructor
        · rintro ⟨hhash, hcontents⟩
          refine ⟨?_, hhash, hcontents⟩
          rintro rfl
          exact hdiffers hhash.symm
        · exact And.right

theorem pushFree (hloc : ¬present loc) :
    Represents (pushOnto file none loc) (update lists none (loc :: lists none)) groups
      (fun other => other = loc ∨ present other) := by
  have hbodies := sameBodies_pushOnto file none loc
  refine hfile.of_placed (hfile.toPlaced.push hloc nofun)
    (fun bucket => update_of_ne (by simp) _ _) ?_
  exact fun {_ other} _ => ⟨(hbodies other).1, (hbodies other).2.2⟩

theorem pushGroup (hloc : ¬present loc)
    (hlive : (file.entries loc).deleted = 0) (hnew : groups (file.entries loc).hash = none) :
    Represents (pushOnto file (some (indexBucket (file.entries loc).hash)) loc)
      (update lists (some (indexBucket (file.entries loc).hash))
        (loc :: lists (some (indexBucket (file.entries loc).hash))))
      (update groups (file.entries loc).hash (some (file.entries loc).contents))
      (fun other => other = loc ∨ present other) := by
  have hplaced := hfile.toPlaced.push hloc fun bucket hbucket => ⟨hlive, Option.some.inj hbucket⟩
  set own := indexBucket (file.entries loc).hash with hown
  have hbodies := sameBodies_pushOnto file (some own) loc
  have hmem : ∀ {bucket other},
      other ∈ update lists (some own) (loc :: lists (some own)) (some bucket) ↔
        (bucket = own ∧ other = loc) ∨ other ∈ lists (some bucket) := by
    intro bucket other
    rw [mem_update_iff, List.mem_cons, Option.some_inj, ne_eq, Option.some_inj]
    by_cases hbucket : bucket = own
    · subst hbucket
      simp
    · simp [hbucket]
  -- No entry in a chain has the hash of the new group.
  have hfresh : ∀ {bucket other}, other ∈ lists (some bucket) →
      (file.entries other).hash ≠ (file.entries loc).hash := by
    intro bucket other hother heq
    have hgroups := hfile.groups_of_mem hother
    rw [heq, hnew] at hgroups
    cases hgroups
  refine ⟨hplaced, ?_, ?_⟩
  · intro bucket bucket' other other' hother hother' heq
    rw [(hbodies other).1, (hbodies other').1] at heq
    rcases hmem.mp hother with ⟨-, rfl⟩ | hin <;> rcases hmem.mp hother' with ⟨-, rfl⟩ | hin'
    · rfl
    · exact absurd heq.symm (hfresh hin')
    · exact absurd heq (hfresh hin)
    · exact hfile.distinct hin hin' heq
  · intro hash contents
    have hentry : ∀ other, ((pushOnto file (some own) loc).entries other).hash = hash ∧
        ((pushOnto file (some own) loc).entries other).contents = contents ↔
          (file.entries other).hash = hash ∧ (file.entries other).contents = contents :=
            fun other => by
      rw [(hbodies other).1, (hbodies other).2.2]
    simp only [hentry, hmem]
    rw [update_apply]
    split
    next hsame =>
      subst hsame
      constructor
      · intro h
        exact ⟨own, loc, Or.inl ⟨rfl, rfl⟩, rfl, Option.some.inj h⟩
      · rintro ⟨bucket, other, ⟨-, rfl⟩ | hother, hhash, rfl⟩
        · rfl
        · exact absurd hhash (hfresh hother)
    next hdiffers =>
      rw [hfile.stored]
      refine exists_congr fun bucket => exists_congr fun other => and_congr_left fun heq => ?_
      constructor
      · exact Or.inr
      · rintro (⟨-, rfl⟩ | hother)
        · exact absurd heq.1.symm hdiffers
        · exact hother

theorem change {bucket : Bucket} (hloc : loc ∈ lists (some bucket)) {entry : GroupEntry}
    (hhash : entry.hash = (file.entries loc).hash)
    (hdeleted : entry.deleted = (file.entries loc).deleted)
    (hnext : entry.next = (file.entries loc).next) :
    Represents (file.setEntry loc entry) lists
      (update groups (file.entries loc).hash (some entry.contents)) present := by
  have hentry : ∀ other,
      ((file.setEntry loc entry).entries other).hash = (file.entries other).hash := by
    intro other
    by_cases hother : other = loc
    · rw [hother, IndexFile.entries_setEntry_self, hhash]
    · rw [IndexFile.entries_setEntry_of_ne hother]
  refine ⟨hfile.toPlaced.change (Or.inl ⟨hhash, hdeleted⟩) hnext, ?_, ?_⟩
  · intro bucket' bucket'' other other' hother hother' heq
    rw [hentry, hentry] at heq
    exact hfile.distinct hother hother' heq
  · intro hash contents
    rw [update_apply]
    split
    next hsame =>
      subst hsame
      constructor
      · intro h
        exact ⟨bucket, loc, hloc, hentry loc, by simpa using h⟩
      · rintro ⟨bucket', other, hother, hother', rfl⟩
        obtain rfl := hfile.distinct hother hloc (hentry other ▸ hother')
        simp
    next hdiffers =>
      rw [hfile.stored]
      refine exists_congr fun bucket' => exists_congr fun other => and_congr_right fun hother => ?_
      rw [hentry other]
      refine and_congr_right fun hother' => ?_
      have hne : other ≠ loc := by
        rintro rfl
        exact hdiffers hother'.symm
      rw [IndexFile.entries_setEntry_of_ne hne]

theorem changeFree (hloc : loc ∈ lists none)
    {entry : GroupEntry} (hnext : entry.next = (file.entries loc).next) :
    Represents (file.setEntry loc entry) lists groups present := by
  refine hfile.of_placed (hfile.toPlaced.change (Or.inr hloc) hnext) (fun _ => rfl)
    fun {_ other} hother => ?_
  have hne : other ≠ loc := by
    rintro rfl
    cases hfile.threads.disjoint hother hloc
  rw [IndexFile.entries_setEntry_of_ne hne]
  exact ⟨rfl, rfl⟩

end Representing

end Represents

end Inn.Tradindexed
