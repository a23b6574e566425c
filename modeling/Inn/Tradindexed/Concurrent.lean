import Inn.Foundation.Runs
import Inn.Tradindexed.FiniteMap

/-!
# Processes that share a group index

Every process has a handle of its own on the file. A lookup goes along its chain
one entry at a time, without a lock; what `tdx_index_add` does when it has not
found its group, and `tdx_index_delete`, happen under the lock and are one step.

The group is not looked up again under the lock, and the file is expanded from
the number of entries that the handle knows of. Where neither goes wrong, the
file stays well formed and lookups find the groups that are there.
-/

namespace Inn.Tradindexed.Concurrent

open Foundation.Threaded Foundation.Runs

inductive Turn
  | stop (found : Option Nat)
  | next (loc : Int)

def indexFindTurn (file : IndexFile) (hash : HASH) (index : GroupIndex) (loc : Int) :
    Except Fault (Turn × GroupIndex) :=
  if loc < 0 then .ok (.stop none, index)
  else
    let index := if loc ≥ index.count then indexMaybeRemap index file loc.toNat else index
    if loc ≥ index.count then .ok (.stop none, index)
    else if loc ≥ file.count then .error .outside
    else
      let entry := file.entries loc.toNat
      if entry.matches hash then .ok (.stop (some loc.toNat), index)
      else if loc = entry.next then .ok (.stop none, index)
      else .ok (.next entry.next, index)

/-- A search from the bucket of the hash would find it. -/
def Live (file : IndexFile) (hash : HASH) : Prop :=
  ∃ list, Chain file.link (file.link (.inl (some (indexBucket hash)))) list ∧
    ∃ loc ∈ list, (file.entries loc).matches hash = true

structure Addition where
  low : Nat
  high : Nat
  flag : UInt8
  indexinode : Nat

inductive Activity
  | idle
  | finding (hash : HASH) (addition : Option Addition) (loc : Int)
  | found (hash : HASH) (addition : Option Addition) (loc : Nat)
  | missing (hash : HASH) (addition : Option Addition)

def Turn.activity (hash : HASH) (addition : Option Addition) : Turn → Activity
  | .stop (some loc) => .found hash addition loc
  | .stop none => .missing hash addition
  | .next loc => .finding hash addition loc

/-- The file, and each process with its handle and what it is at. -/
structure System (Process : Type) where
  file : IndexFile
  handle : Process → GroupIndex
  activity : Process → Activity

inductive Action (Process : Type)
  /-- Open the index again. -/
  | reopen (process : Process)
  /-- Begin to look up a group, in order to add it or not. -/
  | begin (process : Process) (hash : HASH) (addition : Option Addition)
  /-- Look at one entry of the chain. -/
  | turn (process : Process)
  /-- Finish the call with what the lookup has found. -/
  | finish (process : Process)
  /-- `tdx_index_delete` -/
  | delete (process : Process) (hash : HASH) (now : Nat)

section Steps

variable {Process : Type} [DecidableEq Process]

namespace System

def setHandle (s : System Process) (process : Process) (index : GroupIndex) : System Process :=
  { s with handle := Function.update s.handle process index }

def setActivity (s : System Process) (process : Process) (activity : Activity) : System Process :=
  { s with activity := Function.update s.activity process activity }

end System

def step (s : System Process) : Action Process → Except Fault (System Process)
  | .reopen process =>
    match s.activity process with
    | .idle =>
      let (index, file) := tdxIndexOpen true s.file
      .ok ({ s with file := file }.setHandle process index)
    | _ => .ok s
  | .begin process hash addition =>
    match s.activity process with
    | .idle =>
      if addition.isSome ∧ (s.handle process).writable = false then .ok s
      else if (s.handle process).mapped = false then
        .ok (s.setActivity process (.missing hash addition))
      else
        .ok (s.setActivity process
          (.finding hash addition (s.file.header.hash (indexBucket hash))))
    | _ => .ok s
  | .turn process =>
    match s.activity process with
    | .finding hash addition loc =>
      match indexFindTurn s.file hash (s.handle process) loc with
      | .error fault => .error fault
      | .ok (turn, index) =>
        .ok ((s.setHandle process index).setActivity process (turn.activity hash addition))
    | _ => .ok s
  | .finish process =>
    match s.activity process with
    | .found _ (some addition) loc =>
      if loc ≥ (s.handle process).count ∨ loc ≥ s.file.count then .error .outside
      else
        .ok ({ s with file := updateFlag s.file loc addition.flag }.setActivity process .idle)
    | .missing hash (some addition) =>
      match addEntry (s.handle process) s.file hash addition.low addition.high addition.flag
        addition.indexinode with
      | .error fault => .error fault
      | .ok (index, file) =>
        .ok (({ s with file := file }.setHandle process index).setActivity process .idle)
    | .found _ none _ | .missing _ none => .ok (s.setActivity process .idle)
    | _ => .ok s
  | .delete process hash now =>
    match s.activity process with
    | .idle =>
      match tdxIndexDelete (s.handle process) s.file hash now with
      | .error fault => .error fault
      | .ok (_, index, file) => .ok ({ s with file := file }.setHandle process index)
    | _ => .ok s

def opened : System Process :=
  { file := (tdxIndexOpen true .empty).2
    handle := fun _ => (tdxIndexOpen true .empty).1
    activity := fun _ => .idle }

def Allowed (s : System Process) : Action Process → Prop
  | .finish process =>
    ∀ hash addition, s.activity process = .missing hash (some addition) →
      ¬Live s.file hash ∧ MapsFreelist (s.handle process) s.file
  | .delete process hash _ =>
    s.activity process = .idle → ∀ other hash' addition loc,
      s.activity other = .finding hash' addition loc → hash' ≠ hash → Live s.file hash' →
        0 ≤ loc → (s.file.entries loc.toNat).matches hash = false
  | _ => True

structure History (Process : Type) where
  added : Set HASH
  due : Set Process

def Activity.hash? : Activity → Option HASH
  | .idle => none
  | .finding hash _ _ | .found hash _ _ | .missing hash _ => some hash

def record (s : System Process) (history : History Process) : Action Process → History Process
  | .begin process hash _ =>
    match s.activity process with
    | .idle => { history with
        due := {other | other = process ∧ hash ∈ history.added ∨
          other ≠ process ∧ other ∈ history.due} }
    | _ => history
  | .finish process =>
    match s.activity process with
    | .missing hash (some _) => { history with added := insert hash history.added }
    | _ => history
  | .delete process hash _ =>
    match s.activity process with
    | .idle =>
      { added := history.added \ {hash}
        due := {other | other ∈ history.due ∧ (s.activity other).hash? ≠ some hash} }
    | _ => history
  | _ => history

def recordedStep (state : System Process × History Process) (action : Action Process) :
    Except Fault (System Process × History Process) :=
  (step state.1 action).map fun s => (s, record state.1 state.2 action)

def beginning : System Process × History Process := (opened, { added := ∅, due := ∅ })

end Steps

section Lookups

variable {file file' : IndexFile} {lists lists' : Option Bucket → List Nat}
  {groups : HASH → Option Contents} {index : GroupIndex} {hash : HASH}

theorem live_iff (hfile : Represents file lists groups (· < file.count)) (hash : HASH) :
    Live file hash ↔ (groups hash).isSome := by
  constructor
  · rintro ⟨list, hchain, loc, hloc, hmatch⟩
    obtain rfl := hchain.unique (hfile.threads.chain _)
    simp only [GroupEntry.matches, decide_eq_true_eq] at hmatch
    rw [← hmatch.2, hfile.groups_of_mem hloc]
    rfl
  · intro hsome
    obtain ⟨contents, hgroups⟩ := Option.isSome_iff_exists.mp hsome
    obtain ⟨bucket, loc, hloc, hhash, -⟩ := (hfile.stored _ _).mp hgroups
    refine ⟨_, hfile.threads.chain _, loc, hfile.mem_own_bucket hloc hhash, ?_⟩
    simp [GroupEntry.matches, (hfile.live hloc).1, hhash]

def Turns (file : IndexFile) (hash : HASH) (index : GroupIndex) (loc : Int) : Turn → Prop
  | .stop none => loc < 0 ∨ (file.entries loc.toNat).matches hash = false ∧
      (file.entries loc.toNat).next = loc
  | .stop (some found) => loc = found ∧ found < index.count ∧
      (file.entries found).matches hash = true
  | .next loc' => 0 ≤ loc ∧ (file.entries loc.toNat).matches hash = false ∧
      (file.entries loc.toNat).next = loc'

theorem indexFindTurn_eq (hmapped : index.mapped = true) (hcount : index.count ≤ file.count)
    (hash : HASH) {loc : Int} (hloc : loc < file.count) :
    ∃ turn index', indexFindTurn file hash index loc = .ok (turn, index') ∧
      Turns file hash index' loc turn ∧ Remaps file index index' := by
  rw [indexFindTurn]
  split
  next hnegative => exact ⟨_, index, rfl, Or.inl hnegative, .refl hcount⟩
  next hnonnegative =>
    obtain ⟨hremaps, hwithin⟩ : Remaps file index
        (if loc ≥ index.count then indexMaybeRemap index file loc.toNat else index) ∧
        loc < (if loc ≥ index.count then indexMaybeRemap index file loc.toNat
          else index).count := by
      split
      · have hremap := @indexMaybeRemap_eq file index loc.toNat hmapped hcount (by omega)
        exact ⟨hremap.1, by omega⟩
      next h => exact ⟨.refl hcount, by omega⟩
    dsimp only
    generalize (if loc ≥ index.count then indexMaybeRemap index file loc.toNat else index) =
      index' at hremaps hwithin
    rw [if_neg (by omega), if_neg (by omega)]
    split
    next hmatch => exact ⟨_, index', rfl, ⟨by omega, by omega, hmatch⟩, hremaps⟩
    next hmatch =>
      rw [Bool.not_eq_true] at hmatch
      split
      next hself => exact ⟨_, index', rfl, Or.inr ⟨hmatch, hself.symm⟩, hremaps⟩
      · exact ⟨_, index', rfl, ⟨by omega, hmatch, rfl⟩, hremaps⟩

/-- What a process that is searching for a hash is yet to see. -/
def OnTrack (file : IndexFile) (lists : Option Bucket → List Nat) (index : GroupIndex)
    (due : Prop) :
    Activity → Prop
  | .idle => True
  | .finding hash _ loc => -1 ≤ loc ∧ loc < file.count ∧ (due → ∃ front back,
      lists (some (indexBucket hash)) = front ++ back ∧ toLink loc = back.head? ∧
      ∃ entry ∈ back, (file.entries entry).hash = hash)
  | .found hash _ loc => loc < index.count ∧ (due →
      loc ∈ lists (some (indexBucket hash)) ∧ (file.entries loc).hash = hash)
  | .missing _ _ => ¬due

theorem OnTrack.extends {due : Prop} {activity : Activity}
    (hontrack : OnTrack file lists index due activity) (hextends : Extends file file' lists lists')
    (hcount : file.count ≤ file'.count) : OnTrack file' lists' index due activity := by
  cases activity with
  | idle => trivial
  | finding hash addition loc =>
    obtain ⟨hlow, hhigh, hdue⟩ := hontrack
    refine ⟨hlow, by omega, fun h => ?_⟩
    obtain ⟨front, back, hlist, hstart, entry, hentry, hhash⟩ := hdue h
    obtain ⟨new, hnew⟩ := hextends.chains (indexBucket hash)
    refine ⟨new ++ front, back, by rw [hnew, hlist, List.append_assoc], hstart, entry, hentry, ?_⟩
    rw [hextends.hashes (hlist ▸ List.mem_append_right front hentry), hhash]
  | found hash addition loc =>
    refine ⟨hontrack.1, fun h => ?_⟩
    obtain ⟨hloc, hhash⟩ := hontrack.2 h
    obtain ⟨new, hnew⟩ := hextends.chains (indexBucket hash)
    exact ⟨hnew ▸ List.mem_append_right new hloc, by rw [hextends.hashes hloc, hhash]⟩
  | missing hash addition => exact hontrack

theorem OnTrack.removes {due due' : Prop} {activity : Activity}
    (hontrack : OnTrack file lists index due activity)
    (hremoves : Removes hash file file' lists lists') (hcount : file'.count = file.count)
    (hdue : due' → due ∧ activity.hash? ≠ some hash)
    (hstands : ∀ hash' addition loc, activity = .finding hash' addition loc → due' → 0 ≤ loc →
      (file.entries loc.toNat).hash ≠ hash) : OnTrack file' lists' index due' activity := by
  cases activity with
  | idle => trivial
  | finding hash' addition loc =>
    obtain ⟨hlow, hhigh, hwas⟩ := hontrack
    refine ⟨hlow, by omega, fun h => ?_⟩
    obtain ⟨hwasDue, hdiffers⟩ := hdue h
    have hne : hash' ≠ hash := fun heq => hdiffers (congrArg some heq)
    obtain ⟨front, back, hlist, hstart, entry, hentry, hhash⟩ := hwas hwasDue
    obtain ⟨loc', back, rfl⟩ := List.exists_cons_of_ne_nil (List.ne_nil_of_mem hentry)
    obtain rfl := toLink_eq_some hstart
    have hstays := hstands hash' addition loc' rfl h (by omega)
    rw [Int.toNat_natCast] at hstays
    have hkept : entry ∈ (loc' :: back).filter fun loc => (file.entries loc).hash ≠ hash := by
      rw [List.mem_filter, decide_eq_true_eq, hhash]
      exact ⟨hentry, hne⟩
    refine ⟨_, _, by rw [hremoves.chains, hlist, List.filter_append], ?_, entry, hkept, ?_⟩
    · rw [List.filter_cons_of_pos (by simpa using hstays), hstart]
      rfl
    · rw [hremoves.hashes (hlist ▸ List.mem_append_right front hentry) (by rwa [hhash]), hhash]
  | found hash' addition loc =>
    refine ⟨hontrack.1, fun h => ?_⟩
    obtain ⟨hwasDue, hdiffers⟩ := hdue h
    have hne : hash' ≠ hash := fun heq => hdiffers (congrArg some heq)
    obtain ⟨hloc, hhash⟩ := hontrack.2 hwasDue
    refine ⟨?_, by rw [hremoves.hashes hloc (by rwa [hhash]), hhash]⟩
    rw [hremoves.chains, List.mem_filter, decide_eq_true_eq, hhash]
    exact ⟨hloc, hne⟩
  | missing hash' addition => exact fun h => hontrack (hdue h).1

theorem OnTrack.turn {due : Prop} {addition : Option Addition} {loc : Int} {index' : GroupIndex}
    (hfile : Represents file lists groups (· < file.count))
    (hontrack : OnTrack file lists index due (.finding hash addition loc)) {turn : Turn}
    (hturns : Turns file hash index' loc turn) :
    OnTrack file lists index' due (turn.activity hash addition) := by
  obtain ⟨hlow, hhigh, hwas⟩ := hontrack
  -- Where a lookup that is due stands in its chain.
  have hstands : due → ∃ front loc' back entry, loc = (loc' : Nat) ∧
      lists (some (indexBucket hash)) = front ++ loc' :: back ∧ entry ∈ loc' :: back ∧
      (file.entries entry).hash = hash := by
    intro h
    obtain ⟨front, back, hlist, hstart, entry, hentry, hhash⟩ := hwas h
    obtain ⟨loc', back, rfl⟩ := List.exists_cons_of_ne_nil (List.ne_nil_of_mem hentry)
    exact ⟨front, loc', back, entry, toLink_eq_some hstart, hlist, hentry, hhash⟩
  have hchain := hfile.threads.chain (some (indexBucket hash))
  cases turn with
  | stop found =>
    cases found with
    | none =>
      intro h
      obtain ⟨front, loc', back, entry, rfl, hlist, -, -⟩ := hstands h
      rcases hturns with hnegative | ⟨-, hself⟩
      · omega
      · rw [Int.toNat_natCast] at hself
        refine hchain.next_ne (hlist ▸ by simp : loc' ∈ _) ?_
        rw [IndexFile.link, IndexFile.recno, hself, toLink_natCast]
    | some found =>
      obtain ⟨rfl, hwithin, hmatch⟩ := hturns
      refine ⟨hwithin, fun h => ?_⟩
      obtain ⟨front, loc', back, entry, hloc, hlist, -, -⟩ := hstands h
      obtain rfl : found = loc' := by omega
      simp only [GroupEntry.matches, decide_eq_true_eq] at hmatch
      exact ⟨hlist ▸ by simp, hmatch.2⟩
  | next loc' =>
    obtain ⟨hnonnegative, hmatch, rfl⟩ := hturns
    have hbounds := hfile.recno_lt (.inr loc.toNat) (by simp; omega)
    refine ⟨hbounds.1, hbounds.2, fun h => ?_⟩
    obtain ⟨front, loc', back, entry, rfl, hlist, hentry, hhash⟩ := hstands h
    rw [Int.toNat_natCast] at hmatch ⊢
    have hpassed : entry ≠ loc' := by
      rintro rfl
      have hlive := hfile.live (hlist ▸ by simp : entry ∈ lists (some (indexBucket hash)))
      simp [GroupEntry.matches, hlive.1, hhash] at hmatch
    refine ⟨front ++ [loc'], back, by rw [hlist, List.append_assoc, List.singleton_append],
      (hlist ▸ hchain).next_eq, entry, (List.mem_cons.mp hentry).resolve_left hpassed, hhash⟩

end Lookups

section Runs

variable {Process : Type} [DecidableEq Process]

def Ready (index : GroupIndex) (file : IndexFile) : Prop :=
  index.writable = true ∧ index.mapped = true ∧ index.count ≤ file.count

/-- The file is a map, and no process that is due misses its group. -/
structure Keeps (lists : Option Bucket → List Nat) (groups : HASH → Option Contents)
    (s : System Process) (history : History Process) : Prop where
  file : Represents s.file lists groups (· < s.file.count)
  nonempty : 0 < s.file.count
  added : ∀ hash, hash ∈ history.added ↔ (groups hash).isSome
  ready : ∀ process, Ready (s.handle process) s.file
  ontrack : ∀ process, OnTrack s.file lists (s.handle process) (process ∈ history.due)
    (s.activity process)

variable {lists : Option Bucket → List Nat} {groups : HASH → Option Contents}
  {s : System Process} {history : History Process}

theorem Ready.remaps {file : IndexFile} {index index' : GroupIndex} (hready : Ready index file)
    (hremaps : Remaps file index index') : Ready index' file :=
  ⟨hremaps.writable.trans hready.1, hremaps.mapped.trans hready.2.1, hremaps.within⟩

theorem OnTrack.grows {file : IndexFile} {index index' : GroupIndex} {due : Prop}
    {activity : Activity} (hontrack : OnTrack file lists index due activity)
    (hgrows : index.count ≤ index'.count) : OnTrack file lists index' due activity := by
  cases activity with
  | found hash addition loc => exact ⟨Nat.lt_of_lt_of_le hontrack.1 hgrows, hontrack.2⟩
  | _ => exact hontrack

section Keeping

variable (hkeeps : Keeps lists groups s history)

include hkeeps

theorem Keeps.setActivity (process : Process)
    {index : GroupIndex} {activity : Activity} (hready : Ready index s.file)
    (hontrack : OnTrack s.file lists index (process ∈ history.due) activity) :
    Keeps lists groups ((s.setHandle process index).setActivity process activity) history where
  file := hkeeps.file
  nonempty := hkeeps.nonempty
  added := hkeeps.added
  ready other := by
    by_cases hother : other = process
    · subst hother
      simpa [System.setActivity, System.setHandle] using hready
    · simpa [System.setActivity, System.setHandle, hother] using hkeeps.ready other
  ontrack other := by
    by_cases hother : other = process
    · subst hother
      simpa [System.setActivity, System.setHandle] using hontrack
    · simpa [System.setActivity, System.setHandle, hother] using hkeeps.ontrack other

theorem keeps_turn (process : Process) :
    ∃ s', step s (.turn process) = .ok s' ∧ Keeps lists groups s' history ∧
      s'.file = s.file := by
  rw [step]
  cases hactivity : s.activity process with
  | finding hash addition loc =>
    obtain ⟨hwritable, hmapped, hcount⟩ := hkeeps.ready process
    have hontrack := hkeeps.ontrack process
    rw [hactivity] at hontrack
    obtain ⟨turn, index', hturn, hturns, hremaps⟩ :=
      indexFindTurn_eq hmapped hcount hash hontrack.2.1
    have hnext := hontrack.turn hkeeps.file hturns
    have hready := (hkeeps.ready process).remaps hremaps
    dsimp only
    rw [hturn]
    exact ⟨_, rfl, hkeeps.setActivity process hready hnext, rfl⟩
  | _ => exact ⟨s, rfl, hkeeps, rfl⟩

theorem keeps_begin (process : Process) (hash : HASH) (addition : Option Addition) :
    ∃ s', step s (.begin process hash addition) = .ok s' ∧
      Keeps lists groups s' (record s history (.begin process hash addition)) ∧
      s'.file = s.file := by
  rw [step, record]
  cases hactivity : s.activity process with
  | idle =>
    obtain ⟨hwritable, hmapped, hcount⟩ := hkeeps.ready process
    rw [if_neg (by simp [hwritable]), if_neg (by simp [hmapped])]
    refine ⟨_, rfl, ⟨hkeeps.file, hkeeps.nonempty, hkeeps.added, hkeeps.ready,
      fun other => ?_⟩, rfl⟩
    have hbounds := hkeeps.file.recno_lt (.inl (some (indexBucket hash))) nofun
    have hstart := (hkeeps.file.threads.chain (some (indexBucket hash))).start_eq
    by_cases hother : other = process
    · subst hother
      simp only [System.setActivity, Function.update_self, Set.mem_ofPred_eq, true_and, ne_eq,
        not_true_eq_false, false_and, or_false]
      refine ⟨hbounds.1, hbounds.2, fun hadded => ?_⟩
      obtain ⟨contents, hgroups⟩ := Option.isSome_iff_exists.mp ((hkeeps.added hash).mp hadded)
      obtain ⟨bucket, loc, hloc, hhash, -⟩ := (hkeeps.file.stored _ _).mp hgroups
      exact ⟨[], _, rfl, hstart, loc, hkeeps.file.mem_own_bucket hloc hhash, hhash⟩
    · simpa [System.setActivity, hother] using hkeeps.ontrack other
  | _ => exact ⟨s, rfl, hkeeps, rfl⟩

theorem Keeps.remap (process : Process) {index : GroupIndex}
    (hready : Ready index s.file) (hgrows : (s.handle process).count ≤ index.count) :
    Keeps lists groups (s.setHandle process index) history where
  file := hkeeps.file
  nonempty := hkeeps.nonempty
  added := hkeeps.added
  ready other := by
    by_cases hother : other = process
    · subst hother
      simpa [System.setHandle] using hready
    · simpa [System.setHandle, hother] using hkeeps.ready other
  ontrack other := by
    by_cases hother : other = process
    · subst hother
      simpa [System.setHandle] using (hkeeps.ontrack other).grows hgrows
    · simpa [System.setHandle, hother] using hkeeps.ontrack other

theorem keeps_reopen (process : Process) :
    ∃ s', step s (.reopen process) = .ok s' ∧ Keeps lists groups s' history ∧
      s'.file = s.file := by
  rw [step]
  cases hactivity : s.activity process with
  | idle =>
    rw [tdxIndexOpen, if_pos hkeeps.nonempty]
    exact ⟨_, rfl, hkeeps.remap process ⟨rfl, rfl, Nat.le_refl _⟩ (hkeeps.ready process).2.2, rfl⟩
  | _ => exact ⟨s, rfl, hkeeps, rfl⟩

theorem Keeps.idle (process : Process) :
    Keeps lists groups (s.setActivity process .idle) history where
  file := hkeeps.file
  nonempty := hkeeps.nonempty
  added := hkeeps.added
  ready := hkeeps.ready
  ontrack other := by
    by_cases hother : other = process
    · subst hother
      simp [System.setActivity, OnTrack]
    · simpa [System.setActivity, hother] using hkeeps.ontrack other

end Keeping

omit [DecidableEq Process] in
theorem Keeps.setFile (hkeeps : Keeps lists groups s history) {file : IndexFile}
    {lists' : Option Bucket → List Nat} {groups' : HASH → Option Contents}
    {history' : History Process} (hfile : Represents file lists' groups' (· < file.count))
    (hcount : s.file.count ≤ file.count)
    (hadded : ∀ hash, hash ∈ history'.added ↔ (groups' hash).isSome)
    (hontrack : ∀ process, OnTrack file lists' (s.handle process) (process ∈ history'.due)
      (s.activity process)) : Keeps lists' groups' { s with file := file } history' where
  file := hfile
  nonempty := Nat.lt_of_lt_of_le hkeeps.nonempty hcount
  added := hadded
  ready process :=
    ⟨(hkeeps.ready process).1, (hkeeps.ready process).2.1, (hkeeps.ready process).2.2.trans hcount⟩
  ontrack := hontrack

theorem keeps_finish (hkeeps : Keeps lists groups s history) (process : Process)
    (hallowed : Allowed s (.finish process)) :
    ∃ s' lists' groups', step s (.finish process) = .ok s' ∧
      Keeps lists' groups' s' (record s history (.finish process)) ∧
      s.file.count ≤ s'.file.count := by
  rw [step, record]
  have hontrack := hkeeps.ontrack process
  cases hactivity : s.activity process with
  | found hash addition loc =>
    rw [hactivity] at hontrack
    cases addition with
    | none => exact ⟨_, lists, groups, rfl, hkeeps.idle process, Nat.le_refl _⟩
    | some addition =>
      have hwithin := hontrack.1
      have hloc := Nat.lt_of_lt_of_le hwithin (hkeeps.ready process).2.2
      obtain ⟨groups', hfile', hsame⟩ := hkeeps.file.updateFlag hloc addition.flag
      have hextends := extends_updateFlag s.file lists loc addition.flag
      have hcount := count_updateFlag s.file loc addition.flag
      dsimp only
      rw [if_neg (by omega)]
      refine ⟨_, lists, groups', rfl, (hkeeps.setFile (hcount.symm ▸ hfile') hcount.ge ?_ ?_).idle
        process, hcount.ge⟩
      · intro hash'
        rw [hsame, hkeeps.added]
      · exact fun other => (hkeeps.ontrack other).extends hextends hcount.ge
  | missing hash addition =>
    cases addition with
    | none => exact ⟨_, lists, groups, rfl, hkeeps.idle process, Nat.le_refl _⟩
    | some addition =>
      obtain ⟨habsent, hmaps⟩ := hallowed hash addition hactivity
      rw [live_iff hkeeps.file, Option.not_isSome_iff_eq_none] at habsent
      obtain ⟨index', file', lists', heq, hfile', hcount, hextends, hindex⟩ := addEntry_eq
        hkeeps.file (hkeeps.ready process).2.1 hmaps habsent addition.low addition.high
        addition.flag addition.indexinode
      have hnext : Keeps lists' (Function.update groups hash (some (newContents addition.low
          addition.high addition.flag addition.indexinode))) { s with file := file' }
          { history with added := insert hash history.added } := by
        refine hkeeps.setFile hfile' hcount (fun hash' => ?_)
          (fun other => (hkeeps.ontrack other).extends hextends hcount)
        rw [Set.mem_insert_iff, hkeeps.added]
        by_cases hsame : hash' = hash
        · simp [hsame]
        · simp [hsame]
      have hready : Ready index' file' := by
        rcases hindex with rfl | ⟨rfl, hsame⟩
        · exact ⟨(hkeeps.ready process).1, (hkeeps.ready process).2.1, Nat.le_refl _⟩
        · exact hnext.ready process
      dsimp only
      rw [heq]
      exact ⟨_, lists', _, rfl, hnext.setActivity process hready trivial, hcount⟩
  | _ => exact ⟨s, lists, groups, rfl, hkeeps, Nat.le_refl _⟩

theorem keeps_delete (hkeeps : Keeps lists groups s history) (process : Process) (hash : HASH)
    (now : Nat) (hallowed : Allowed s (.delete process hash now)) :
    ∃ s' lists' groups', step s (.delete process hash now) = .ok s' ∧
      Keeps lists' groups' s' (record s history (.delete process hash now)) ∧
      s.file.count ≤ s'.file.count := by
  rw [step, record]
  cases hactivity : s.activity process with
  | idle =>
    obtain ⟨hwritable, hmapped, hcount⟩ := hkeeps.ready process
    obtain ⟨index', file', lists', heq, hfile', hsame, hremaps, hremoves⟩ :=
      tdxIndexDelete_eq hkeeps.file hmapped hcount hwritable hash now
    have hadded : ∀ hash', hash' ∈ history.added \ {hash} ↔
        (Function.update groups hash none hash').isSome := by
      intro hash'
      rw [Set.mem_sdiff, Set.mem_singleton_iff, hkeeps.added, Function.update_apply]
      split <;> simp_all
    have hnext : Keeps lists' (Function.update groups hash none) { s with file := file' }
        { added := history.added \ {hash}
          due := {other | other ∈ history.due ∧ (s.activity other).hash? ≠ some hash} } := by
      refine hkeeps.setFile hfile' hsame.ge hadded fun other =>
        (hkeeps.ontrack other).removes hremoves hsame id ?_
      intro hash' addition loc hother hdue hloc heqHash
      have hontrack := hkeeps.ontrack other
      rw [hother] at hontrack
      obtain ⟨front, back, hlist, hstart, entry, hentry, hhash⟩ := hontrack.2.2 hdue.1
      have hlive : Live s.file hash' := by
        rw [live_iff hkeeps.file, ← hhash,
          hkeeps.file.groups_of_mem (hlist ▸ List.mem_append_right front hentry)]
        rfl
      have hunmatched := hallowed hactivity other hash' addition loc hother
        (fun heq => hdue.2 (by rw [hother, heq, Activity.hash?])) hlive hloc
      obtain ⟨loc', back, rfl⟩ := List.exists_cons_of_ne_nil (List.ne_nil_of_mem hentry)
      obtain rfl := toLink_eq_some hstart
      rw [Int.toNat_natCast] at heqHash hunmatched
      have hstands := hkeeps.file.live (hlist ▸ by simp : loc' ∈ lists (some (indexBucket hash')))
      simp [GroupEntry.matches, hstands.1, heqHash] at hunmatched
    rw [heq]
    refine ⟨_, lists', _, rfl, hnext.remap process (hnext.ready process |>.remaps ?_) ?_, hsame.ge⟩
    · exact ⟨hremaps.writable, hremaps.mapped, hremaps.grows, hsame ▸ hremaps.within⟩
    · exact hremaps.grows
  | _ => exact ⟨s, lists, groups, rfl, hkeeps, Nat.le_refl _⟩

theorem keeps_step (hkeeps : Keeps lists groups s history) (action : Action Process)
    (hallowed : Allowed s action) :
    ∃ s' lists' groups', step s action = .ok s' ∧
      Keeps lists' groups' s' (record s history action) ∧
      s.file.count ≤ s'.file.count := by
  cases action with
  | reopen process =>
    obtain ⟨s', heq, hkeeps', hsame⟩ := keeps_reopen hkeeps process
    exact ⟨s', lists, groups, heq, hkeeps', hsame ▸ Nat.le_refl _⟩
  | begin process hash addition =>
    obtain ⟨s', heq, hkeeps', hsame⟩ := keeps_begin hkeeps process hash addition
    exact ⟨s', lists, groups, heq, hkeeps', hsame ▸ Nat.le_refl _⟩
  | turn process =>
    obtain ⟨s', heq, hkeeps', hsame⟩ := keeps_turn hkeeps process
    exact ⟨s', lists, groups, heq, hkeeps', hsame ▸ Nat.le_refl _⟩
  | finish process => exact keeps_finish hkeeps process hallowed
  | delete process hash now => exact keeps_delete hkeeps process hash now hallowed

structure Sound (s : System Process) (history : History Process)
    (lists : Option Bucket → List Nat) : Prop where
  partitioned : Partitioned s.file lists
  live : ∀ {bucket loc}, loc ∈ lists (some bucket) → (s.file.entries loc).deleted = 0
  distinct : ∀ {bucket bucket' loc loc'}, loc ∈ lists (some bucket) →
    loc' ∈ lists (some bucket') →
      (s.file.entries loc).hash = (s.file.entries loc').hash → loc = loc'
  added : ∀ hash, hash ∈ history.added ↔ Live s.file hash
  finds : ∀ process hash, hash ∈ history.added → ∃ loc index',
    indexFind (s.handle process) s.file hash = .ok (some loc, index') ∧
      (s.file.entries loc).matches hash = true
  finding : ∀ process hash addition loc, process ∈ history.due →
    s.activity process = .finding hash addition loc → ∃ loc' index',
      indexFindLoop s.file hash (s.file.count + 1) (s.handle process) loc =
        .ok (some loc', index') ∧
        (s.file.entries loc').matches hash = true
  found : ∀ process hash addition loc, process ∈ history.due →
    s.activity process = .found hash addition loc → (s.file.entries loc).matches hash = true
  missing : ∀ process hash addition, process ∈ history.due →
    s.activity process ≠ .missing hash addition

omit [DecidableEq Process] in
theorem Keeps.sound (hkeeps : Keeps lists groups s history) : Sound s history lists where
  partitioned := hkeeps.file.partitioned
  live hloc := (hkeeps.file.live hloc).1
  distinct := hkeeps.file.distinct
  added hash := by rw [hkeeps.added, live_iff hkeeps.file]
  finds process hash hadded := by
    obtain ⟨-, hmapped, hcount⟩ := hkeeps.ready process
    obtain ⟨found, index', heq, hfound, -⟩ := indexFind_eq hkeeps.file hmapped hcount hash
    cases found with
    | none =>
      have hnone : groups hash = none := hfound
      rw [hkeeps.added, hnone] at hadded
      cases hadded
    | some loc =>
      refine ⟨loc, index', heq, ?_⟩
      simp [GroupEntry.matches, (hkeeps.file.live hfound.1).1, hfound.2.1]
  finding process hash addition loc hdue hactivity := by
    have hontrack := hkeeps.ontrack process
    rw [hactivity] at hontrack
    obtain ⟨-, hmapped, hcount⟩ := hkeeps.ready process
    obtain ⟨front, back, hlist, hstart, entry, hentry, hhash⟩ := hontrack.2.2 hdue
    have hwhole := hkeeps.file.threads.chain (some (indexBucket hash))
    rw [hlist] at hwhole
    have hchain : Chain s.file.link (toLink loc) back := hstart ▸ hwhole.of_append front
    have hin : ∀ other ∈ back, other < s.file.count := fun other hother =>
      hkeeps.file.present_of_mem (hlist ▸ List.mem_append_right front hother)
    obtain ⟨index', heq, -⟩ := indexFindLoop_eq hash hchain hin
      (Nat.lt_succ_of_le (hchain.length_le hin)) hmapped hcount
    have hmatch : (s.file.entries entry).matches hash = true := by
      have hlive := hkeeps.file.live (hlist ▸ List.mem_append_right front hentry)
      simp [GroupEntry.matches, hlive.1, hhash]
    cases hfind : back.find? fun loc => (s.file.entries loc).matches hash with
    | none => exact absurd hmatch (by simpa using List.find?_eq_none.mp hfind entry hentry)
    | some loc' => exact ⟨loc', index', by rw [heq, hfind], by simpa using List.find?_some hfind⟩
  found process hash addition loc hdue hactivity := by
    have hontrack := hkeeps.ontrack process
    rw [hactivity] at hontrack
    obtain ⟨hloc, hhash⟩ := hontrack.2 hdue
    simp [GroupEntry.matches, (hkeeps.file.live hloc).1, hhash]
  missing process hash addition hdue hactivity := by
    have hontrack := hkeeps.ontrack process
    rw [hactivity] at hontrack
    exact hontrack hdue

omit [DecidableEq Process] in
theorem keeps_opened : ∃ lists,
    Keeps lists (fun _ => none) (opened : System Process) { added := ∅, due := ∅ } := by
  obtain ⟨lists, hfile, hcount, hhandle⟩ := represents_open
  refine ⟨lists, ?_⟩
  rw [opened]
  generalize tdxIndexOpen true .empty = state at hfile hcount hhandle
  refine ⟨hfile, Nat.lt_of_lt_of_le (by decide : 0 < 1024) hcount.ge, by simp, fun process => ?_,
    fun process => trivial⟩
  exact ⟨congrArg GroupIndex.writable hhandle, congrArg GroupIndex.mapped hhandle,
    ((congrArg GroupIndex.count hhandle).trans hcount.symm).le⟩

/-- In a run whose steps are all allowed no step is outside the file or its mapping, what
holds in every state holds in every state reached, and the file never shrinks. -/
theorem sound_of_allowed (before after : List (Action Process))
    (hallowed : Meets recordedStep (fun state => Allowed state.1) (before ++ after) beginning) :
    ∃ state state', run recordedStep before beginning = .ok state ∧
      run recordedStep after state = .ok state' ∧
      (∃ lists, Sound state'.1 state'.2 lists) ∧ state.1.file.count ≤ state'.1.file.count := by
  let kept (state : System Process × History Process) : Prop :=
    ∃ lists groups, Keeps lists groups state.1 state.2
  have hbeginning : kept beginning := by
    obtain ⟨lists, hkeeps⟩ := @keeps_opened Process
    exact ⟨lists, _, hkeeps⟩
  have hstep : ∀ count state action, kept state ∧ count ≤ state.1.file.count →
      Allowed state.1 action → ∃ state', recordedStep state action = .ok state' ∧
        kept state' ∧ count ≤ state'.1.file.count := by
    rintro count ⟨s, history⟩ action ⟨⟨lists, groups, hkeeps⟩, hcount⟩ hallowed
    obtain ⟨s', lists', groups', heq, hkeeps', hgrows⟩ := keeps_step hkeeps action hallowed
    exact ⟨(s', record s history action), by rw [recordedStep, heq]; rfl,
      ⟨lists', groups', hkeeps'⟩, hcount.trans hgrows⟩
  obtain ⟨state, hrun, hkept, -⟩ := run_invariant (hstep 0) before
    hallowed.front ⟨hbeginning, Nat.zero_le _⟩
  obtain ⟨state', hrun', ⟨lists, groups, hkeeps⟩, hgrows⟩ :=
    run_invariant (hstep state.1.file.count)
    after (hallowed.back hrun) ⟨hkept, Nat.le_refl _⟩
  exact ⟨state, state', hrun, hrun', ⟨lists, hkeeps.sound⟩, hgrows⟩

end Runs

/-- A group that one process adds is there for the other one. -/
theorem sound_of_allowed_miscTest : ∃ state state',
    run recordedStep [.begin false (digests miscTest) (some ⟨1, 5, 121, 7⟩), .turn false,
      .finish false] beginning = .ok state ∧
    run recordedStep [.begin true (digests miscTest) none, .turn true] state = .ok state' ∧
    (∃ lists, Sound state'.1 state'.2 lists) ∧ state.1.file.count ≤ state'.1.file.count := by
  refine sound_of_allowed _ _ ⟨trivial, fun s₁ h₁ => ⟨trivial, fun s₂ h₂ => ⟨?_, fun _ _ =>
    ⟨trivial, fun _ _ => ⟨trivial, fun _ _ => trivial⟩⟩⟩⟩⟩
  have hstate : (run recordedStep [.begin false (digests miscTest) (some ⟨1, 5, 121, 7⟩),
      .turn false] beginning).map (fun state =>
        ((state.1.activity false).hash?, state.1.file.header.hash (indexBucket (digests miscTest)),
          decide (MapsFreelist (state.1.handle false) state.1.file))) =
      .ok (some (digests miscTest), -1, true) := by
    decide +kernel
  rw [run_cons h₁, run_cons h₂, run, Except.map, Except.ok.injEq, Prod.mk.injEq, Prod.mk.injEq,
    decide_eq_true_eq] at hstate
  obtain ⟨hlookup, hhead, hmaps⟩ := hstate
  intro hash addition hactivity
  obtain rfl : hash = digests miscTest := by
    rw [hactivity] at hlookup
    exact Option.some.inj hlookup
  refine ⟨?_, hmaps⟩
  rintro ⟨list, hchain, loc, hloc, -⟩
  have hstart : s₂.1.file.link (.inl (some (indexBucket (digests miscTest)))) = none := by
    rw [show s₂.1.file.link (.inl (some (indexBucket (digests miscTest)))) =
      toLink (s₂.1.file.header.hash (indexBucket (digests miscTest))) from rfl, hhead]
    rfl
  rw [hstart] at hchain
  cases hchain
  cases hloc

def race : List (Action Bool) :=
  [.begin false (digests miscTest) (some ⟨1, 5, 121, 7⟩), .turn false,
    .begin true (digests miscTest) (some ⟨1, 5, 121, 7⟩), .turn true, .finish false, .finish true]

/-- The group is live in two entries after both processes have added it. -/
theorem not_sound_race : ∃ state, run recordedStep race beginning = .ok state ∧
    ∀ lists, ¬Sound state.1 state.2 lists := by
  have hfacts : (run recordedStep race beginning).map (fun state =>
      (state.1.file.header.hash (indexBucket (digests miscTest)), (state.1.file.entries 1).next,
        (state.1.file.entries 0).next,
        decide ((state.1.file.entries 0).hash = (state.1.file.entries 1).hash))) =
      .ok (1, 0, -1, true) := by
    decide +kernel
  cases hrun : run recordedStep race beginning with
  | error fault =>
    rw [hrun] at hfacts
    cases hfacts
  | ok state =>
    refine ⟨state, rfl, fun lists hsound => ?_⟩
    rw [hrun, Except.map, Except.ok.injEq, Prod.mk.injEq, Prod.mk.injEq, Prod.mk.injEq,
      decide_eq_true_eq] at hfacts
    obtain ⟨hhead, hfirst, hsecond, hhash⟩ := hfacts
    -- The chain of the bucket goes from the second entry to the first one.
    have hchain : Chain state.1.file.link
        (state.1.file.link (.inl (some (indexBucket (digests miscTest))))) [1, 0] := by
      have hlink : ∀ place, state.1.file.link place = toLink (state.1.file.recno place) :=
        fun _ => rfl
      have hstart : state.1.file.link (.inl (some (indexBucket (digests miscTest)))) = some 1 := by
        rw [hlink, IndexFile.recno, hhead]
        rfl
      have hnext : state.1.file.link (.inr 1) = some 0 := by
        rw [hlink, IndexFile.recno, hfirst]
        rfl
      have hend : state.1.file.link (.inr 0) = none := by
        rw [hlink, IndexFile.recno, hsecond]
        rfl
      exact hstart ▸ .cons (hnext ▸ .cons (hend ▸ .nil))
    have hlist := (hsound.partitioned.chain _).unique hchain
    have hmem : ∀ loc ∈ [1, 0], loc ∈ lists (some (indexBucket (digests miscTest))) :=
      fun loc hloc => hlist ▸ hloc
    exact absurd (hsound.distinct (hmem 0 (by simp)) (hmem 1 (by simp)) hhash) (by decide)

end Inn.Tradindexed.Concurrent
