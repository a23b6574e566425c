import Inn.Foundation.Runs
import Inn.Tradindexed.Operations

/-!
# The group index as a finite map

Through one handle, which then has the whole file mapped, lookups see a finite
map from groups to entries. A group that is added again keeps its high and low
water marks; only its flag is updated.
-/

namespace Inn.Tradindexed

open Foundation.Runs

theorem tdxIndexAdd_eq {file : IndexFile} {lists : Option Bucket → List Nat}
    {groups : HASH → Option Contents} {index : GroupIndex}
    (hfile : Represents file lists groups (· < file.count))
    (hmapped : index.mapped = true) (hcount : index.count = file.count)
    (hwritable : index.writable = true) (hash : HASH) (low high : Nat) (flag : UInt8)
    (indexinode : Nat) :
    ∃ file' lists', tdxIndexAdd index file hash low high flag indexinode =
        .ok (true, { index with count := file'.count }, file') ∧
      Represents file' lists' (Function.update groups hash (some
        (((groups hash).map fun contents => { contents with flag := flag }).getD
          (newContents low high flag indexinode)))) (· < file'.count) := by
  obtain ⟨found, index', heq, hfound, hremaps⟩ := indexFind_eq hfile hmapped hcount.le hash
  obtain rfl := hremaps.eq_self hcount
  rw [tdxIndexAdd, if_neg (by simp [hwritable]), heq]
  cases found with
  | none =>
    obtain ⟨index'', file', lists', hadd, hfile', -, -, hindex⟩ := addEntry_eq hfile hmapped
      (mapsFreelist_of_count hfile.toPlaced hcount) hfound low high flag indexinode
    refine ⟨file', lists', ?_, ?_⟩
    · simp only [hadd]
      rcases hindex with rfl | ⟨rfl, hsame⟩
      · rfl
      · rw [hsame, ← hcount]
    · have hgroups : groups hash = none := hfound
      simpa [hgroups] using hfile'
  | some loc =>
    have hupdated := updateFlag_eq hfile hfound flag
    have hsame : (updateFlag file loc flag).count = file.count := by
      rw [updateFlag]
      split <;> rfl
    refine ⟨updateFlag file loc flag, lists, ?_, ?_⟩
    · rw [hsame, ← hcount]
    · rw [hsame]
      rw [hfound.2.2] at hupdated ⊢
      exact hupdated

inductive Operation
  | add (group : Group) (low high : Nat) (flag : UInt8) (indexinode : Nat)
  | delete (group : Group) (now : Nat)
  | expand

namespace Operation

def group? : Operation → Option Group
  | add group .. => some group
  | delete group _ => some group
  | expand => none

def perform (Hash : Group → HASH) (state : GroupIndex × IndexFile) :
    Operation → Except Fault (GroupIndex × IndexFile)
  | add group low high flag indexinode =>
    (tdxIndexAdd state.1 state.2 (Hash group) low high flag indexinode).map Prod.snd
  | delete group now => (tdxIndexDelete state.1 state.2 (Hash group) now).map Prod.snd
  | expand => .ok (indexExpand state.1 state.2)

def update (map : Group → Option Contents) : Operation → Group → Option Contents
  | add group low high flag indexinode => Function.update map group (some
      (((map group).map fun contents => { contents with flag := flag }).getD
        (newContents low high flag indexinode)))
  | delete group _ => Function.update map group none
  | expand => map

end Operation

/-- The index maps the groups as `map` does. -/
def Stores (Hash : Group → HASH) (names : Set Group) (state : GroupIndex × IndexFile)
    (map : Group → Option Contents) : Prop :=
  ∃ lists groups, Represents state.2 lists groups (· < state.2.count) ∧
    state.1 = { writable := true, count := state.2.count, mapped := true } ∧
    ∀ group ∈ names, groups (Hash group) = map group

section Runs

variable {Hash : Group → HASH} {names : Set Group} {state : GroupIndex × IndexFile}
  {map : Group → Option Contents}

theorem stores_perform (hdistinct : Set.InjOn Hash names) (hstores : Stores Hash names state map)
    (op : Operation) (hop : ∀ group ∈ op.group?, group ∈ names) :
    ∃ state', op.perform Hash state = .ok state' ∧ Stores Hash names state' (op.update map) := by
  obtain ⟨index, file⟩ := state
  obtain ⟨lists, groups, hfile, hindex, hgroups⟩ := hstores
  dsimp only at hfile hindex
  have hwritable : index.writable = true := by rw [hindex]
  have hmapped : index.mapped = true := by rw [hindex]
  have hcount : index.count = file.count := by rw [hindex]
  -- Storing under the hash of one group is storing under that group.
  have hupdate : ∀ group ∈ names, ∀ contents, ∀ other ∈ names,
      Function.update groups (Hash group) contents (Hash other) =
        Function.update map group contents other := by
    intro group hgroup contents other hother
    by_cases hsame : other = group
    · rw [hsame, Function.update_self, Function.update_self]
    · rw [Function.update_of_ne hsame,
        Function.update_of_ne fun heq => hsame (hdistinct hother hgroup heq), hgroups other hother]
  cases op with
  | add group low high flag indexinode =>
    have hgroup := hop group rfl
    obtain ⟨file', lists', heq, hfile'⟩ :=
      tdxIndexAdd_eq hfile hmapped hcount hwritable (Hash group) low high flag indexinode
    rw [hgroups group hgroup] at hfile'
    refine ⟨_, by rw [Operation.perform, heq]; rfl, lists', _, hfile', ?_, hupdate group hgroup _⟩
    rw [hindex]
  | delete group now =>
    have hgroup := hop group rfl
    obtain ⟨index', file', lists', heq, hfile', hsame, hremaps, -⟩ :=
      tdxIndexDelete_eq hfile hmapped hcount.le hwritable (Hash group) now
    obtain rfl := hremaps.eq_self hcount
    refine ⟨_, by rw [Operation.perform, heq]; rfl, lists', _, hfile', ?_,
      hupdate group hgroup none⟩
    rw [hsame]
    exact hindex
  | expand =>
    have hexpand := indexExpand_eq hfile.magic hcount
    have hgrown := hfile.grown
    generalize grown file = file' at hexpand hgrown
    exact ⟨_, congrArg Except.ok hexpand, _, groups, hgrown, by rw [hwritable], hgroups⟩

theorem stores_run (hdistinct : Set.InjOn Hash names) (ops : List Operation)
    (hops : ∀ op ∈ ops, ∀ group ∈ op.group?, group ∈ names)
    (hstores : Stores Hash names state map) :
    ∃ state', run (Operation.perform Hash) ops state = .ok state' ∧
      Stores Hash names state' (ops.foldl Operation.update map) := by
  induction ops generalizing state map with
  | nil => exact ⟨state, rfl, hstores⟩
  | cons op ops ih =>
    obtain ⟨state', heq, hstores'⟩ :=
      stores_perform hdistinct hstores op (hops op (List.mem_cons_self ..))
    obtain ⟨state'', heq', hstores''⟩ :=
      ih (fun other hother => hops other (List.mem_cons_of_mem _ hother)) hstores'
    exact ⟨state'', by rw [run_cons heq, heq'], hstores''⟩

theorem placed_initHeader (count : Nat) :
    Placed (initHeader (IndexFile.empty.ftruncate count)) (fun _ => []) (fun _ => False) := by
  have hheader : initHeader (IndexFile.empty.ftruncate count) =
      { IndexFile.empty.ftruncate count with
        header := { magic := TDX_MAGIC, hash := fun _ => -1, freelist := -1 } } :=
    if_pos (by decide : 0 ≠ TDX_MAGIC)
  rw [hheader]
  refine ⟨⟨fun i => ?_, nofun, fun loc => by simp⟩, fun place hplace => ?_, rfl, nofun⟩
  · cases i <;> exact .nil
  · rcases place with (_ | bucket) | loc
    · exact Int.le_refl _
    · exact Int.le_refl _
    · exact absurd (hplace loc rfl) id

theorem represents_open : ∃ lists,
    Represents (tdxIndexOpen true .empty).2 lists (fun _ => none)
      (· < (tdxIndexOpen true .empty).2.count) ∧
    (tdxIndexOpen true .empty).2.count = 1024 ∧
    (tdxIndexOpen true .empty).1 = { writable := true, count := 1024, mapped := true } := by
  have hopen : tdxIndexOpen true .empty = ({ writable := true, count := 1024, mapped := true },
      addNewEntries 0 1024 (initHeader (IndexFile.empty.ftruncate 1024))) := by
    rw [tdxIndexOpen, if_neg (by decide), if_pos rfl, indexExpand]
    simp only [Nat.zero_add, Nat.sub_self]
  have hcount :
      (addNewEntries 0 1024 (initHeader (IndexFile.empty.ftruncate 1024))).count = 1024 := by
    rw [count_addNewEntries, initHeader]
    split <;> rfl
  have hfile := (placed_initHeader 1024).addNewEntries 1024 fun loc (_ : 0 ≤ loc) _ => not_false
  rw [hopen]
  generalize addNewEntries 0 1024 (initHeader (IndexFile.empty.ftruncate 1024)) = opened
    at hcount hfile
  refine ⟨_, ⟨hfile.congr_present fun loc => ?_, by simp, by simp⟩, hcount, rfl⟩
  rw [hcount]
  simp

theorem stores_open (Hash : Group → HASH) (names : Set Group) :
    Stores Hash names (tdxIndexOpen true .empty) (fun _ => none) := by
  obtain ⟨lists, hfile, hcount, hhandle⟩ := represents_open
  exact ⟨lists, _, hfile, by rw [hhandle, hcount], fun _ _ => rfl⟩

end Runs

/-- After any calls on a newly created group index, its entries are in their places and
lookups see the map that the calls describe. -/
theorem finiteMap_of_run (Hash : Group → HASH) (names : Set Group)
    (hdistinct : Set.InjOn Hash names)
    (ops : List Operation) (hops : ∀ op ∈ ops, ∀ group ∈ op.group?, group ∈ names) :
    ∃ index file lists, run (Operation.perform Hash) ops (tdxIndexOpen true .empty) =
      .ok (index, file) ∧
      Partitioned file lists ∧
      ∀ group ∈ names, ∃ found, indexFind index file (Hash group) = .ok (found, index) ∧
        found.map (fun loc => (file.entries loc).contents) =
          ops.foldl Operation.update (fun _ => none) group := by
  obtain ⟨⟨index, file⟩, heq, lists, groups, hfile, hindex, hgroups⟩ :=
    stores_run hdistinct ops hops (stores_open Hash names)
  dsimp only at hfile hindex
  refine ⟨index, file, lists, heq, hfile.partitioned, fun group hgroup => ?_⟩
  obtain ⟨found, index', hfind, hfound, hremaps⟩ := indexFind_eq hfile
    (by rw [hindex] : index.mapped = true) (by rw [hindex]) (Hash group)
  obtain rfl := hremaps.eq_self (by rw [hindex])
  refine ⟨found, hfind, ?_⟩
  rw [← hgroups group hgroup]
  cases found with
  | none => exact hfound.symm
  | some loc => exact hfound.2.2.symm

def miscTest : Group := [109, 105, 115, 99, 46, 116, 101, 115, 116]

def miscJobs : Group := [109, 105, 115, 99, 46, 106, 111, 98, 115]

theorem misc_digest_length :
    ([125, 205, 71, 59, 18, 74, 103, 170, 104, 142, 35, 42, 127, 23, 144,
      231] : List UInt8).length = 16 := rfl

theorem jobs_digest_length :
    ([39, 126, 214, 104, 39, 204, 53, 2, 221, 73, 254, 39, 248, 25, 192, 248] : List UInt8).length =
      16 := rfl

def digests (group : Group) : HASH :=
  if group = miscTest then
    ⟨[125, 205, 71, 59, 18, 74, 103, 170, 104, 142, 35, 42, 127, 23, 144, 231], misc_digest_length⟩
  else if group = miscJobs then
    ⟨[39, 126, 214, 104, 39, 204, 53, 2, 221, 73, 254, 39, 248, 25, 192, 248], jobs_digest_length⟩
  else HashClear

theorem digests_injOn : Set.InjOn digests {miscTest, miscJobs} := by
  rintro group (rfl | rfl) other (rfl | rfl) heq
  · rfl
  · exact absurd heq (by decide)
  · exact absurd heq (by decide)
  · rfl

/-- A group that is deleted and added again has the water marks of the second time. -/
theorem finiteMap_of_run_readded : ∃ index file found,
    run (Operation.perform digests) [.add miscTest 1 5 121 7, .add miscJobs 1 0 109 8,
      .delete miscTest 1000000000,
      .expand, .add miscTest 10 20 121 9] (tdxIndexOpen true .empty) = .ok (index, file) ∧
    indexFind index file (digests miscTest) = .ok (found, index) ∧
    found.map (fun loc => (file.entries loc).contents) = some (newContents 10 20 121 9) := by
  obtain ⟨index, file, lists, hrun, -, hlookup⟩ := finiteMap_of_run digests {miscTest, miscJobs}
    digests_injOn [.add miscTest 1 5 121 7, .add miscJobs 1 0 109 8, .delete miscTest 1000000000,
      .expand, .add miscTest 10 20 121 9] (by simp [Operation.group?])
  obtain ⟨found, hfind, hfound⟩ := hlookup miscTest (Or.inl rfl)
  exact ⟨index, file, found, hrun, hfind, hfound.trans (by decide)⟩

/-- A group that is added twice does not have the water marks of the last time. -/
theorem not_contents_of_last_add : ∃ index file loc,
    run (Operation.perform digests) [.add miscTest 1 5 121 7, .add miscTest 10 20 121 7]
      (tdxIndexOpen true .empty) =
      .ok (index, file) ∧
    indexFind index file (digests miscTest) = .ok (some loc, index) ∧
    (file.entries loc).contents ≠ newContents 10 20 121 7 := by
  obtain ⟨⟨index, file⟩, hrun, lists, groups, hfile, hindex, hgroups⟩ :=
    stores_run digests_injOn [.add miscTest 1 5 121 7, .add miscTest 10 20 121 7]
      (by simp [Operation.group?]) (stores_open digests _)
  dsimp only at hfile hindex
  obtain ⟨found, index', hfind, hfound, hremaps⟩ := indexFind_eq hfile
    (by rw [hindex] : index.mapped = true) (by rw [hindex]) (digests miscTest)
  obtain rfl := hremaps.eq_self (by rw [hindex])
  have hstored : groups (digests miscTest) = some (newContents 1 5 121 7) :=
    (hgroups miscTest (Or.inl rfl)).trans (by decide)
  cases found with
  | none =>
    have hnone : groups (digests miscTest) = none := hfound
    rw [hstored] at hnone
    cases hnone
  | some loc =>
    refine ⟨index', file, loc, hrun, hfind, ?_⟩
    have hcontents := hfound.2.2
    rw [hstored] at hcontents
    rw [← Option.some.inj hcontents]
    decide

end Inn.Tradindexed
