import Mathlib

/-!
# Resumable walks

A walk over nested lists keeps its place between two calls: what is left of the list that it is
in, and of each list around it. What it has still to come to is a list, and each call takes the
first of it. The one who calls holds the place in a handle, which is made for each thing that is
found and taken apart by the next call.
-/

namespace Inn.Foundation.Walking

variable {S A E H ε : Type*}

/-- A walk that gives one thing at a time. -/
structure Walk (S A : Type*) where
  next : S → Option (A × S)
  contents : S → List A
  lawful : ∀ s, contents s = match next s with
    | none => []
    | some (a, s') => a :: contents s'

theorem Walk.contents_nil {walk : Walk S A} {s : S} (hnext : walk.next s = none) :
    walk.contents s = [] := by
  rw [walk.lawful, hnext]

theorem Walk.contents_cons {walk : Walk S A} {s s' : S} {a : A}
    (hnext : walk.next s = some (a, s')) :
    walk.contents s = a :: walk.contents s' := by
  rw [walk.lawful, hnext]

section Lists

variable (p : E → Option A)

def findNext : List E → Option (A × List E)
  | [] => none
  | e :: es =>
    match p e with
    | some a => some (a, es)
    | none => findNext es

def Walk.find : Walk (List E) A where
  next := findNext p
  contents := List.filterMap p
  lawful es := by
    induction es with
    | nil => rfl
    | cons e es ih =>
      rw [findNext, List.filterMap_cons]
      cases p e with
      | some a => rfl
      | none => exact ih

end Lists

section Nesting

variable (inner : Walk S A) (enter : E → Option S)

def nestNext : List E → Option (A × Option S × List E)
  | [] => none
  | e :: es =>
    match (enter e).bind inner.next with
    | some (a, s) => some (a, some s, es)
    | none => nestNext es

def nestContents (place : Option S) : List A := place.elim [] inner.contents

theorem nestContents_bind (place : Option S) :
    nestContents inner place = match place.bind inner.next with
      | none => []
      | some (a, s) => a :: inner.contents s := by
  cases place with
  | none => rfl
  | some s => exact inner.lawful s

def Walk.nest : Walk (Option S × List E) A where
  next place :=
    match place.1.bind inner.next with
    | some (a, s) => some (a, some s, place.2)
    | none => nestNext inner enter place.2
  contents place :=
    nestContents inner place.1 ++ place.2.flatMap fun e => nestContents inner (enter e)
  lawful place := by
    obtain ⟨place, es⟩ := place
    dsimp only
    rw [nestContents_bind inner place]
    cases place.bind inner.next with
    | some found => rfl
    | none =>
      rw [List.nil_append]
      induction es with
      | nil => rfl
      | cons e es ih =>
        rw [List.flatMap_cons, nestContents_bind inner (enter e), nestNext]
        cases (enter e).bind inner.next with
        | some found => rfl
        | none => exact ih

end Nesting

section Starting

variable {inner : Walk S A} {enter : E → Option S} {es : List E} {a : A}

theorem mem_nestContents {place : Option S} :
    a ∈ nestContents inner place ↔ ∃ s, place = some s ∧ a ∈ inner.contents s := by
  cases place with
  | none => exact ⟨nofun, nofun⟩
  | some s =>
    constructor
    · intro h
      exact ⟨s, rfl, h⟩
    · rintro ⟨_, heq, h⟩
      cases heq
      exact h

theorem mem_nest_start :
    a ∈ (inner.nest enter).contents (none, es) ↔ ∃ e ∈ es, ∃ s, enter e = some s ∧
      a ∈ inner.contents s := by
  change a ∈ [] ++ es.flatMap (fun e => nestContents inner (enter e)) ↔ _
  rw [List.nil_append, List.mem_flatMap]
  simp only [mem_nestContents]

theorem nest_start_nodup {K : Type*} (k : E → K) (key : A → K) (hkeys : (es.map k).Nodup)
    (hinner : ∀ e ∈ es, ∀ s, enter e = some s → (inner.contents s).Nodup ∧
      ∀ a ∈ inner.contents s, key a = k e) :
    ((inner.nest enter).contents (none, es)).Nodup := by
  change ([] ++ es.flatMap fun e => nestContents inner (enter e)).Nodup
  rw [List.nil_append]
  induction es with
  | nil => exact List.nodup_nil
  | cons e es ih =>
    rw [List.map_cons, List.nodup_cons] at hkeys
    rw [List.flatMap_cons, List.nodup_append]
    refine ⟨?_, ih hkeys.2 fun e he => hinner e (List.mem_cons_of_mem _ he), ?_⟩
    · cases henter : enter e with
      | none => exact List.nodup_nil
      | some s => exact (hinner e List.mem_cons_self s henter).1
    · rintro a ha b hb rfl
      obtain ⟨s, henter, has⟩ := mem_nestContents.mp ha
      obtain ⟨e', he', hb⟩ := List.mem_flatMap.mp hb
      obtain ⟨s', henter', has'⟩ := mem_nestContents.mp hb
      refine hkeys.1 (List.mem_map.mpr ⟨e', he', ?_⟩)
      rw [← (hinner e' (List.mem_cons_of_mem _ he') s' henter').2 a has',
        (hinner e List.mem_cons_self s henter).2 a has]

end Starting

section Directories

variable {F : Type*} {inner : Walk S A} {enter : E → Option S} {p : Prop} [Decidable p]
    {entries : Option (List F)} {f : F → E}
  {a : A}

theorem mem_directory :
    (∃ s, (if p then entries.map fun es => (none, es.map f) else none) = some s ∧
      a ∈ (inner.nest enter).contents s) ↔
      p ∧ ∃ e ∈ entries.getD [], ∃ s, enter (f e) = some s ∧ a ∈ inner.contents s := by
  constructor
  · rintro ⟨s, henter, hmem⟩
    split at henter
    next hp =>
      obtain ⟨es, rfl, rfl⟩ := Option.map_eq_some_iff.mp henter
      obtain ⟨_, hmap, hinner⟩ := mem_nest_start.mp hmem
      obtain ⟨e, he, rfl⟩ := List.mem_map.mp hmap
      exact ⟨hp, e, he, hinner⟩
    next => cases henter
  · rintro ⟨hp, e, he, hinner⟩
    cases entries with
    | none => cases he
    | some es => exact ⟨_, if_pos hp,
        mem_nest_start.mpr ⟨f e, List.mem_map.mpr ⟨e, he, rfl⟩, hinner⟩⟩

theorem directory_nodup {K : Type*} (k : F → K) (key : A → K)
    (hkeys : ((entries.getD []).map k).Nodup)
    (hinner : ∀ e ∈ entries.getD [], ∀ s, enter (f e) = some s → (inner.contents s).Nodup ∧
      ∀ a ∈ inner.contents s, key a = k e)
    {s : Option S × List E}
    (henter : (if p then entries.map fun es => (none, es.map f) else none) = some s) :
    ((inner.nest enter).contents s).Nodup := by
  split at henter
  next =>
    obtain ⟨es, rfl, rfl⟩ := Option.map_eq_some_iff.mp henter
    rw [Option.getD_some] at hkeys hinner
    change ([] ++ (es.map f).flatMap fun e => nestContents inner (enter e)).Nodup
    rw [List.flatMap_map]
    have hdone : ((inner.nest (enter ∘ f)).contents (none, es)).Nodup :=
      nest_start_nodup k key hkeys hinner
    exact hdone
  next => cases henter

end Directories

section Handles

inductive Runs (step : H → Except ε (Option (A × H))) : H → List A → Prop
  | stop {h} (hstep : step h = .ok none) : Runs step h []
  | more {h h' a rest} (hstep : step h = .ok (some (a, h'))) (hrest : Runs step h' rest) :
      Runs step h (a :: rest)

def walkStep (walk : Walk S A) (release : H → Except ε S) (make : A → S → Except ε H) (h : H) :
    Except ε (Option (A × H)) :=
  match release h with
  | .error fault => .error fault
  | .ok s =>
    match walk.next s with
    | none => .ok none
    | some (a, s') =>
      match make a s' with
      | .error fault => .error fault
      | .ok h' => .ok (some (a, h'))

variable {walk : Walk S A} {release : H → Except ε S} {make : A → S → Except ε H}

theorem runs_walkStep_iff (good : A → Prop)
    (hgood : ∀ a s, good a → ∃ h, make a s = .ok h ∧ release h = .ok s)
    (hbad : ∀ a s h, ¬good a → make a s = .ok h → ∃ fault, release h = .error fault) {h : H} {s : S}
    (hrelease : release h = .ok s) {given : List A} :
    Runs (walkStep walk release make) h given ↔ (∀ a ∈ walk.contents s, good a) ∧
      given = walk.contents s := by
  constructor
  · intro hruns
    induction hruns generalizing s with
    | stop hstep =>
      unfold walkStep at hstep
      rw [hrelease] at hstep
      dsimp only at hstep
      split at hstep
      next hnext =>
        rw [Walk.contents_nil hnext]
        exact ⟨nofun, rfl⟩
      next hnext => split at hstep <;> cases hstep
    | more hstep hrest ih =>
      unfold walkStep at hstep
      rw [hrelease] at hstep
      dsimp only at hstep
      split at hstep
      next => cases hstep
      next a s' hnext =>
        split at hstep
        next => cases hstep
        next h' hmake =>
          obtain ⟨rfl, rfl⟩ := Prod.mk.inj (Option.some.inj (Except.ok.inj hstep))
          have hisGood : good a := by
            by_contra hno
            -- the next call takes a handle apart that is no good
            obtain ⟨fault, hfault⟩ := hbad a s' h' hno hmake
            cases hrest with
            | stop hstep =>
              unfold walkStep at hstep
              rw [hfault] at hstep
              cases hstep
            | more hstep =>
              unfold walkStep at hstep
              rw [hfault] at hstep
              cases hstep
          obtain ⟨h'', hmake', hrelease'⟩ := hgood a s' hisGood
          obtain rfl := Except.ok.inj (hmake.symm.trans hmake')
          obtain ⟨hall, rfl⟩ := ih hrelease'
          rw [Walk.contents_cons hnext]
          exact ⟨List.forall_mem_cons.mpr ⟨hisGood, hall⟩, rfl⟩
  · rintro ⟨hall, rfl⟩
    generalize hcontents : walk.contents s = contents at hall ⊢
    induction contents generalizing h s with
    | nil =>
      refine .stop ?_
      unfold walkStep
      rw [hrelease]
      dsimp only
      cases hnext : walk.next s with
      | none => rfl
      | some found =>
        rw [Walk.contents_cons (show walk.next s = some (found.1, found.2) from hnext)] at hcontents
        cases hcontents
    | cons a rest ih =>
      cases hnext : walk.next s with
      | none =>
        rw [Walk.contents_nil hnext] at hcontents
        cases hcontents
      | some found =>
        obtain ⟨a', s'⟩ := found
        rw [Walk.contents_cons hnext] at hcontents
        obtain ⟨rfl, hrest⟩ := List.cons.inj hcontents
        obtain ⟨hfirst, hall⟩ := List.forall_mem_cons.mp hall
        obtain ⟨h', hmake, hrelease'⟩ := hgood a' s' hfirst
        refine .more ?_ (ih hrelease' hrest hall)
        unfold walkStep
        rw [hrelease]
        dsimp only
        rw [hnext]
        dsimp only
        rw [hmake]

end Handles

end Inn.Foundation.Walking
