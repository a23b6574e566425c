import Inn.Buffindexed.Groups

/-!
# The groups of the index, and its slots

Lookups see a finite map from groups to their water marks and flags. A slot that held a group is
looked for by the group's hash when the group is added again. As the hash is cleared when the group
is deleted, the slot is never found, nor is it put into the free list: it is lost.
-/

namespace Inn.Buffindexed.Groups

open Foundation.Threaded Foundation.Runs
open Function (update update_of_ne update_self)

namespace Index

variable (Hash : Group → HASH) (names : Set Group)

def FiniteMap (s : Index) (map : Group → Option Contents) : Prop :=
  ∀ group ∈ names, s.buffindexedGroupstats Hash group = .ok (map group)

def Reusable (s : Index) : Prop :=
  ∀ loc < s.GROUPcount, (∃ free, Chain s.links (s.links (.inl none)) free ∧ loc ∈ free) ∨
    ∃ group ∈ names, s.GROUPfind (Hash group) true = .ok (some loc)

end Index

def described (calls : List Call) : Group → Option Contents := calls.foldl Call.update fun _ => none

noncomputable def live (map : Group → Option Contents) : Nat := {group | map group ≠ none}.ncard

/-- In every run the index is the map described, and no slot is lost. -/
def SlotsKept (Hash : Group → HASH) (names : Set Group) (calls : List Call) : Prop :=
  ∀ front, front <+: calls → ∃ s, run (Index.step Hash) front Index.buffindexedOpen = .ok s ∧
    s.FiniteMap Hash names (described front) ∧ s.Reusable Hash names ∧
    ∃ before, before <+: front ∧ s.GROUPcount ≤ live (described before) + 1024

def Keeps (map : Group → Option Contents) : Call → Prop
  | .buffindexedGroupadd .. => True
  | .buffindexedGroupdel group _ => map group = none

namespace Index

variable {Hash : Group → HASH} {names : Set Group} {s s' : Index} {lists : Option Bucket → List Nat}
  {groups : HASH → Option Contents} {map : Group → Option Contents} {call : Call}

structure Stores (Hash : Group → HASH) (names : Set Group) (s : Index)
    (lists : Option Bucket → List Nat)
    (groups : HASH → Option Contents) (map : Group → Option Contents) : Prop where
  kept : s.Kept lists groups
  stored : ∀ group ∈ names, groups (Hash group) = map group
  named : ∀ hash, groups hash ≠ none → ∃ group ∈ names, Hash group = hash
  inside : ∀ group, map group ≠ none → group ∈ names
  finite : {group | map group ≠ none}.Finite

structure Tight (s : Index) (lists : Option Bucket → List Nat)
    (map : Group → Option Contents) : Prop where
  used : ∀ i, ∀ loc ∈ lists (some i), (s.entries loc).hash ≠ HashClear
  count : s.GROUPcount = (lists none).length + live map

theorem Stores.finiteMap (hstores : Stores Hash names s lists groups map)
    (hclear : ∀ group ∈ names, Hash group ≠ HashClear) : s.FiniteMap Hash names map := by
  intro group hgroup
  rw [buffindexedGroupstats, ← hstores.stored group hgroup]
  rcases hstores.kept.find (hclear group hgroup) false with ⟨hfind, hnone⟩ | ⟨loc, hfind,
    -, -, -, hsome⟩
  · rw [hfind, hnone]
    rfl
  · rw [hfind, hsome]
    rfl

theorem Stores.reusable (hstores : Stores Hash names s lists groups map)
    (htight : s.Tight lists map) :
    s.Reusable Hash names := by
  intro loc hloc
  obtain ⟨list, hmem⟩ := (hstores.kept.threads.covers loc).mp hloc
  cases list with
  | none => exact .inl ⟨lists none, hstores.kept.threads.chain none, hmem⟩
  | some i =>
    right
    have hclear := htight.used i loc hmem
    have hsome := (hstores.kept.stored _ _ hclear).mpr ⟨i, loc, hmem, rfl, rfl⟩
    obtain ⟨group, hgroup, hhash⟩ := hstores.named _ (by rw [hsome]; nofun)
    refine ⟨group, hgroup, ?_⟩
    rw [hhash]
    rcases hstores.kept.find hclear true with ⟨-, hnone⟩ | ⟨loc', hfind, hmem', hhash', -, -⟩
    · rw [hsome] at hnone
      cases hnone
    · obtain rfl := hstores.kept.distinct hmem hmem' hhash'.symm hclear
      exact hfind

theorem Stores.not_reusable (hstores : Stores Hash names s lists groups map)
    (hclear : ∀ group ∈ names, Hash group ≠ HashClear) {i : Bucket} {loc : Nat}
    (hmem : loc ∈ lists (some i))
    (hcleared : (s.entries loc).hash = HashClear) : ¬ s.Reusable Hash names := by
  intro hreusable
  rcases hreusable loc (hstores.kept.lt hmem) with ⟨free, hchain, hfree⟩ | ⟨group, hgroup, hfind⟩
  · rw [hchain.unique (hstores.kept.threads.chain none)] at hfree
    cases hstores.kept.threads.disjoint hmem hfree
  · rcases hstores.kept.find (hclear group hgroup) true with ⟨hnone, -⟩ | ⟨loc', hfound,
      -, hhash, -, -⟩
    · rw [hfind] at hnone
      cases hnone
    · rw [hfind] at hfound
      cases hfound
      exact hclear group hgroup (hhash.symm.trans hcleared)

theorem live_update (hfinite : {group | map group ≠ none}.Finite) (group : Group)
    (contents : Contents) :
    live (update map group (some contents)) = live map + (if map group = none then 1 else 0) := by
  have hset : {other | update map group (some contents) other ≠ none} =
      insert group {other | map other ≠ none} := by
    ext other
    by_cases hother : other = group <;> simp [hother, update_of_ne]
  rw [live, hset]
  split
  next hnone => exact Set.ncard_insert_of_notMem (fun hmem => hmem hnone) hfinite
  next hsome => rw [Set.insert_eq_of_mem (show group ∈ {other | map other ≠ none} from hsome)]; rfl

theorem Stores.update (hstores : Stores Hash names s lists groups map)
    (hdistinct : Set.InjOn Hash names)
    {lists' : Option Bucket → List Nat} {group : Group} (hgroup : group ∈ names)
    {contents : Option Contents} (hkept : s'.Kept lists' (update groups (Hash group) contents)) :
    Stores Hash names s' lists' (update groups (Hash group) contents)
      (update map group contents) where
  kept := hkept
  stored other hother := by
    by_cases heq : other = group
    · rw [heq, update_self, update_self]
    · rw [update_of_ne heq, update_of_ne (fun hhash => heq (hdistinct hother hgroup hhash)),
        hstores.stored other hother]
  named hash hsome := by
    by_cases heq : hash = Hash group
    · exact ⟨group, hgroup, heq.symm⟩
    · rw [update_of_ne heq] at hsome
      exact hstores.named hash hsome
  inside other hsome := by
    by_cases heq : other = group
    · rwa [heq]
    · rw [update_of_ne heq] at hsome
      exact hstores.inside other hsome
  finite := by
    refine (hstores.finite.insert group).subset fun other hother => ?_
    by_cases heq : other = group
    · exact .inl heq
    · refine .inr ?_
      rwa [Set.mem_ofPred_eq, update_of_ne heq] at hother

theorem Stores.step (hstores : Stores Hash names s lists groups map)
    (hdistinct : Set.InjOn Hash names)
    (hclear : ∀ group ∈ names, Hash group ≠ HashClear) (hcall : call.group ∈ names) :
    ∃ s' lists' groups', s.step Hash call = .ok s' ∧
      Stores Hash names s' lists' groups' (call.update map) ∧
      (s.Tight lists map → Keeps map call → s'.Tight lists' (call.update map)) ∧
      (¬ Keeps map call → ¬ s'.Reusable Hash names) := by
  cases call with
  | buffindexedGroupadd group lo hi flag =>
    obtain ⟨s', lists', heq, hkept, hcount, hchains⟩ :=
      hstores.kept.groupadd (hclear group hcall) lo hi flag
    have hmap := hstores.stored group hcall
    have hstores' := hstores.update hdistinct hcall hkept
    rw [hmap] at hstores'
    refine ⟨s', lists', _, heq, hstores', fun htight _ => ⟨fun i loc hloc => ?_, ?_⟩,
      fun hkeeps => absurd trivial hkeeps⟩
    · rcases hchains i loc hloc with hhash | ⟨j, hold, hhash⟩
      · rw [hhash]
        exact hclear group hcall
      · rw [hhash]
        exact htight.used j loc hold
    · rw [Call.update, live_update hstores.finite]
      have htotal := htight.count
      rw [hmap] at hcount
      split at hcount
      next hnone =>
        rw [if_pos hnone]
        omega
      next hsome =>
        rw [if_neg hsome]
        omega
  | buffindexedGroupdel group now =>
    obtain ⟨s', heq, hkept, hsame, hlost⟩ := hstores.kept.groupdel (hclear group hcall) now
    have hmap := hstores.stored group hcall
    have hstores' := hstores.update hdistinct hcall hkept
    refine ⟨s', lists, _, heq, hstores', fun htight hkeeps => ?_, fun hkeeps => ?_⟩
    · have hnone : map group = none := hkeeps
      rw [hsame (hmap.trans hnone), Call.update, ← hnone, Function.update_eq_self]
      exact htight
    · obtain ⟨i, loc, hmem, hcleared⟩ := hlost (hmap ▸ hkeeps)
      exact hstores'.not_reusable hclear hmem hcleared

theorem stores_open (Hash : Group → HASH) (names : Set Group) :
    Stores Hash names buffindexedOpen (update (fun _ => []) none (List.range' 0 1024))
      (fun _ => none)
      fun _ => none where
  kept := open_kept
  stored _ _ := rfl
  named _ hsome := absurd rfl hsome
  inside _ hsome := absurd rfl hsome
  finite := by simp

theorem tight_open :
    Tight buffindexedOpen (update (fun _ => []) none (List.range' 0 1024)) fun _ => none where
  used i loc hloc := by
    rw [update_of_ne (Option.some_ne_none i)] at hloc
    cases hloc
  count := by
    have hcount : buffindexedOpen.GROUPcount = 1024 := by
      rw [buffindexedOpen, GROUPexpand, addNewEntries_eq, setHeader, if_pos (by decide)]
      rfl
    rw [hcount, update_self, List.length_range', live]
    simp

theorem Stores.run (hdistinct : Set.InjOn Hash names)
    (hclear : ∀ group ∈ names, Hash group ≠ HashClear)
    (hstores : Stores Hash names s lists groups map) (calls : List Call)
    (hcalls : ∀ call ∈ calls, call.group ∈ names) :
    ∃ s' lists' groups', run (Index.step Hash) calls s = .ok s' ∧
      Stores Hash names s' lists' groups' (calls.foldl Call.update map) ∧
      (s.Tight lists map → Throughout Call.update Keeps calls map →
        s'.Tight lists' (calls.foldl Call.update map)) := by
  induction calls generalizing s lists groups map with
  | nil => exact ⟨s, lists, groups, rfl, hstores, fun htight _ => htight⟩
  | cons call calls ih =>
    obtain ⟨s₁, lists₁, groups₁, heq, hstores₁, htight₁, -⟩ :=
      hstores.step hdistinct hclear (hcalls call List.mem_cons_self)
    obtain ⟨s', lists', groups', hrun, hstores', htight'⟩ :=
      ih hstores₁ fun call hcall => hcalls call (List.mem_cons_of_mem _ hcall)
    refine ⟨s', lists', groups', by rw [run_cons heq, hrun], hstores', fun htight hkeeps => ?_⟩
    exact htight' (htight₁ htight hkeeps.1) hkeeps.2

theorem exists_deleted {calls : List Call} (hkeeps : ¬ Throughout Call.update Keeps calls map) :
    ∃ front call back, calls = front ++ call :: back ∧
      ¬ Keeps (front.foldl Call.update map) call := by
  induction calls generalizing map with
  | nil => exact absurd trivial hkeeps
  | cons call calls ih =>
    by_cases hcall : Keeps map call
    · obtain ⟨front, call', back, rfl, hnot⟩ := ih fun hrest => hkeeps ⟨hcall, hrest⟩
      exact ⟨call :: front, call', back, rfl, hnot⟩
    · exact ⟨[], call, calls, rfl, hcall⟩

theorem throughout_prefix {front back : List Call}
    (hkeeps : Throughout Call.update Keeps (front ++ back) map) :
    Throughout Call.update Keeps front map := by
  induction front generalizing map with
  | nil => trivial
  | cons call front ih => exact ⟨hkeeps.1, ih hkeeps.2⟩

theorem not_slotsKept (hdistinct : Set.InjOn Hash names)
    (hclear : ∀ group ∈ names, Hash group ≠ HashClear)
    {calls : List Call} (hcalls : ∀ call ∈ calls, call.group ∈ names)
    (hkeeps : ¬ Throughout Call.update Keeps calls fun _ => none) :
    ¬ SlotsKept Hash names calls := by
  intro hslots
  obtain ⟨front, call, back, rfl, hnot⟩ := exists_deleted hkeeps
  obtain ⟨s, lists, groups, hrun, hstores, -⟩ := (stores_open Hash names).run hdistinct hclear front
    fun call hcall => hcalls call (List.mem_append_left _ hcall)
  obtain ⟨s', -, -, hstep, -, -, hlost⟩ := hstores.step hdistinct hclear
    (hcalls call (List.mem_append_right _ List.mem_cons_self))
  obtain ⟨s'', hrun'', -, hreusable, -⟩ := hslots (front ++ [call]) ⟨back, by simp⟩
  rw [run_append hrun, run_cons hstep] at hrun''
  cases hrun''
  exact hlost hnot hreusable

end Index

/-- Lookups see the groups that the calls describe after any calls. The slots are all kept, and no
more than there are groups but for one step of growth, just if no call deletes a group that is
there. -/
theorem slotsKept_iff (Hash : Group → HASH) (names : Set Group) (hdistinct : Set.InjOn Hash names)
    (hclear : ∀ group ∈ names, Hash group ≠ HashClear) (calls : List Call)
    (hcalls : ∀ call ∈ calls, call.group ∈ names) :
    (∃ s, run (Index.step Hash) calls Index.buffindexedOpen = .ok s ∧
      s.FiniteMap Hash names (described calls)) ∧
      (SlotsKept Hash names calls ↔ Throughout Call.update Keeps calls fun _ => none) := by
  refine ⟨?_, fun hslots => ?_, fun hkeeps front hfront => ?_⟩
  · obtain ⟨s, lists, groups, hrun, hstores, -⟩ :=
      (Index.stores_open Hash names).run hdistinct hclear calls hcalls
    exact ⟨s, hrun, hstores.finiteMap hclear⟩
  · by_contra hkeeps
    exact Index.not_slotsKept hdistinct hclear hcalls hkeeps hslots
  · obtain ⟨back, rfl⟩ := hfront
    obtain ⟨s, lists, groups, hrun, hstores, htight⟩ :=
      (Index.stores_open Hash names).run hdistinct hclear front
      fun call hcall => hcalls call (List.mem_append_left _ hcall)
    have htight := htight Index.tight_open (Index.throughout_prefix hkeeps)
    refine ⟨s, hrun, hstores.finiteMap hclear, hstores.reusable htight, front,
      List.prefix_refl front, ?_⟩
    have hroom := hstores.kept.room
    have hcount := htight.count
    rw [described]
    omega

def miscTest : Group := [109, 105, 115, 99, 46, 116, 101, 115, 116]

def digest (_ : Group) : HASH :=
    ⟨[125, 205, 71, 59, 18, 74, 103, 170, 104, 142, 35, 42, 127, 23, 144, 231], rfl⟩

theorem digest_injOn : Set.InjOn digest {miscTest} := by
  rintro group rfl other rfl -
  rfl

theorem digest_ne_clear : ∀ group ∈ ({miscTest} : Set Group), digest group ≠ HashClear := by
  rintro group rfl
  decide

/-- A group is added, and deleted once it is there no more. -/
theorem slotsKept_iff_added : SlotsKept digest {miscTest}
    [.buffindexedGroupdel miscTest 1000000000, .buffindexedGroupadd miscTest 1 5 121] :=
  (slotsKept_iff digest {miscTest} digest_injOn digest_ne_clear
    [.buffindexedGroupdel miscTest 1000000000, .buffindexedGroupadd miscTest 1 5 121]
      (by simp [Call.group])).2.mpr
    ⟨rfl, trivial, trivial⟩

/-- The slot of a group that is added and deleted is lost. -/
theorem not_slotsKept_deleted : ¬ SlotsKept digest {miscTest}
    [.buffindexedGroupadd miscTest 1 5 121, .buffindexedGroupdel miscTest 1000000000] := by
  refine Index.not_slotsKept digest_injOn digest_ne_clear (by simp [Call.group]) fun hkeeps => ?_
  have hnone : Call.update (fun _ => none) (.buffindexedGroupadd miscTest 1 5 121) miscTest =
      none := hkeeps.2.1
  rw [Call.update, update_self] at hnone
  cases hnone

end Inn.Buffindexed.Groups
