import Mathlib

/-!
# Runs under a condition

A system takes one step after another until one fails. What a step keeps in the
states where a condition allows it, a run keeps whose steps all meet the
condition.
-/

namespace Inn.Foundation.Runs

variable {σ α ε : Type*} {step : σ → α → Except ε σ} {condition : σ → α → Prop}

theorem bind_ok {ε α β : Type} {x : Except ε α} {f : α → Except ε β} {b : β}
    (hbind : x >>= f = .ok b) :
    ∃ a, x = .ok a ∧ f a = .ok b := by
  cases x with
  | error e => cases hbind
  | ok a => exact ⟨a, rfl, hbind⟩

def run (step : σ → α → Except ε σ) : List α → σ → Except ε σ
  | [], s => .ok s
  | a :: rest, s =>
    match step s a with
    | .error e => .error e
    | .ok s' => run step rest s'

def Meets (step : σ → α → Except ε σ) (condition : σ → α → Prop) : List α → σ → Prop
  | [], _ => True
  | a :: rest, s => condition s a ∧ ∀ s', step s a = .ok s' → Meets step condition rest s'

def decidableMeets [∀ s a, Decidable (condition s a)] :
    ∀ (actions : List α) (s : σ), Decidable (Meets step condition actions s)
  | [], _ => isTrue trivial
  | a :: rest, s =>
    match hstep : step s a with
    | .error e => decidable_of_iff (condition s a)
        ⟨fun h => ⟨h, fun s' hs' => by rw [hstep] at hs'; cases hs'⟩, And.left⟩
    | .ok s' =>
      have := decidableMeets rest s'
      decidable_of_iff (condition s a ∧ Meets step condition rest s')
        ⟨fun h => ⟨h.1, fun s'' hs'' => by rw [hstep] at hs''; exact Except.ok.inj hs'' ▸ h.2⟩,
          fun h => ⟨h.1, h.2 s' hstep⟩⟩

instance [∀ s a, Decidable (condition s a)] (actions : List α) (s : σ) :
    Decidable (Meets step condition actions s) :=
  decidableMeets actions s

theorem run_cons {a : α} {rest : List α} {s s' : σ} (hstep : step s a = .ok s') :
    run step (a :: rest) s = run step rest s' := by
  rw [run, hstep]

theorem run_append {before after : List α} {s s' : σ} (hrun : run step before s = .ok s') :
    run step (before ++ after) s = run step after s' := by
  induction before generalizing s with
  | nil =>
    cases hrun
    rfl
  | cons a before ih =>
    rw [run] at hrun
    split at hrun
    · cases hrun
    next s₁ hstep =>
      rw [List.cons_append, run_cons hstep]
      exact ih hrun

theorem of_run_append {before after : List α} {s s' : σ}
    (hrun : run step (before ++ after) s = .ok s') :
    ∃ s₁, run step before s = .ok s₁ ∧ run step after s₁ = .ok s' := by
  induction before generalizing s with
  | nil => exact ⟨s, rfl, hrun⟩
  | cons a before ih =>
    rw [List.cons_append, run] at hrun
    split at hrun
    · cases hrun
    next s₁ hstep =>
      obtain ⟨s₂, hfront, hback⟩ := ih hrun
      exact ⟨s₂, by rw [run_cons hstep, hfront], hback⟩

theorem run_ne_error {inv : σ → Prop} {e : ε}
    (hstep : ∀ s a, inv s → condition s a → step s a ≠ .error e)
    (hinv : ∀ s a s', inv s → step s a = .ok s' → inv s') (actions : List α) {s : σ} (hs : inv s)
    (hmeets : Meets step condition actions s) : run step actions s ≠ .error e := by
  induction actions generalizing s with
  | nil => nofun
  | cons a rest ih =>
    rw [run]
    split
    next e' heq =>
      rintro ⟨⟩
      exact hstep s a hs hmeets.1 heq
    next s₁ heq => exact ih (hinv s a s₁ hs heq) (hmeets.2 s₁ heq)

theorem run_ne_error_iff {e : ε} (hstep : ∀ s a, step s a ≠ .error e ↔ condition s a)
    (actions : List α) (s : σ) :
    run step actions s ≠ .error e ↔ Meets step condition actions s := by
  induction actions generalizing s with
  | nil => exact iff_of_true nofun trivial
  | cons a rest ih =>
    rw [run, Meets, ← hstep]
    cases hfirst : step s a with
    | error e' => exact ⟨fun h => ⟨h, nofun⟩, fun h => h.1⟩
    | ok s' =>
      rw [ih]
      exact ⟨fun h => ⟨nofun, fun _ heq => Except.ok.inj heq ▸ h⟩, fun h => h.2 s' rfl⟩

theorem Meets.front {before after : List α} {s : σ}
    (hmeets : Meets step condition (before ++ after) s) : Meets step condition before s := by
  induction before generalizing s with
  | nil => trivial
  | cons a before ih => exact ⟨hmeets.1, fun s' hstep => ih (hmeets.2 s' hstep)⟩

theorem Meets.back {before after : List α} {s s' : σ}
    (hmeets : Meets step condition (before ++ after) s) (hrun : run step before s = .ok s') :
    Meets step condition after s' := by
  induction before generalizing s with
  | nil =>
    cases hrun
    exact hmeets
  | cons a before ih =>
    rw [run] at hrun
    split at hrun
    · cases hrun
    next s₁ hstep => exact ih (hmeets.2 s₁ hstep) hrun

theorem meets_congr {good : σ → α → Prop} {P : σ → Prop}
    (hsame : ∀ s a, P s → (good s a ↔ condition s a))
    (hstep : ∀ s a s', P s → condition s a → step s a = .ok s' → P s') (actions : List α) {s : σ}
    (hinv : P s) :
    Meets step good actions s ↔ Meets step condition actions s := by
  induction actions generalizing s with
  | nil => exact Iff.rfl
  | cons a rest ih =>
    rw [Meets, Meets, hsame s a hinv]
    exact and_congr_right fun hfirst => forall₂_congr fun s' heq =>
      ih (hstep s a s' hinv hfirst heq)

theorem run_invariant {inv : σ → Prop}
    (hstep : ∀ s a, inv s → condition s a → ∃ s', step s a = .ok s' ∧ inv s')
    (actions : List α) {s : σ} (hmeets : Meets step condition actions s) (hinv : inv s) :
    ∃ s', run step actions s = .ok s' ∧ inv s' := by
  induction actions generalizing s with
  | nil => exact ⟨s, rfl, hinv⟩
  | cons a rest ih =>
    obtain ⟨s₁, heq, hinv₁⟩ := hstep s a hinv hmeets.1
    obtain ⟨s', hrun, hinv'⟩ := ih (hmeets.2 s₁ heq) hinv₁
    exact ⟨s', by rw [run_cons heq, hrun], hinv'⟩

theorem of_run {inv : σ → Prop} (hstep : ∀ s a s', inv s → step s a = .ok s' → inv s')
    {actions : List α} {s s' : σ} (hinv : inv s) (hrun : run step actions s = .ok s') : inv s' := by
  induction actions generalizing s with
  | nil =>
    cases hrun
    exact hinv
  | cons a rest ih =>
    rw [run] at hrun
    split at hrun
    · cases hrun
    next s₁ heq => exact ih (hstep s a s₁ hinv heq) hrun

theorem of_run_of_meets {P : σ → Prop}
    (hstep : ∀ s a s', P s → condition s a → step s a = .ok s' → P s') {actions : List α} {s s' : σ}
    (hinv : P s) (hmeets : Meets step condition actions s)
    (hrun : run step actions s = .ok s') : P s' := by
  induction actions generalizing s with
  | nil =>
    cases hrun
    exact hinv
  | cons a rest ih =>
    rw [run] at hrun
    split at hrun
    · cases hrun
    next s₁ heq => exact ih (hstep s a s₁ hinv hmeets.1 heq) (hmeets.2 s₁ heq) hrun

section Total

variable {step : σ → α → σ} {condition good : σ → α → Prop}

def Throughout (step : σ → α → σ) (condition : σ → α → Prop) : List α → σ → Prop
  | [], _ => True
  | a :: rest, s => condition s a ∧ Throughout step condition rest (step s a)

instance instDecidableThroughout [∀ s a, Decidable (condition s a)] :
    ∀ actions s, Decidable (Throughout step condition actions s)
  | [], _ => isTrue trivial
  | a :: rest, s =>
    have := instDecidableThroughout rest (step s a)
    inferInstanceAs (Decidable (condition s a ∧ Throughout step condition rest (step s a)))

theorem throughout_invariant {inv : σ → Prop}
    (hstep : ∀ s a, inv s → condition s a → inv (step s a) ∧ good s a)
    (actions : List α) {s : σ} (hinv : inv s) (hmeets : Throughout step condition actions s) :
    inv (actions.foldl step s) ∧ Throughout step good actions s := by
  induction actions generalizing s with
  | nil => exact ⟨hinv, trivial⟩
  | cons a rest ih =>
    obtain ⟨hinv', hgood⟩ := hstep s a hinv hmeets.1
    obtain ⟨hend, hrest⟩ := ih hinv' hmeets.2
    exact ⟨hend, hgood, hrest⟩

theorem always_iff_throughout {inv : σ → Prop}
    (hstep : ∀ s a, inv s → (inv (step s a) ↔ condition s a))
    (actions : List α) {s : σ} (hinv : inv s) :
    (∀ before after, actions = before ++ after → inv (before.foldl step s)) ↔
      Throughout step condition actions s := by
  induction actions generalizing s with
  | nil =>
    refine ⟨fun _ => trivial, fun _ before after hsplit => ?_⟩
    obtain ⟨rfl, -⟩ := List.append_eq_nil_iff.mp hsplit.symm
    exact hinv
  | cons a rest ih =>
    constructor
    · intro halways
      have hinv' : inv (step s a) := halways [a] rest rfl
      refine ⟨(hstep s a hinv).mp hinv', (ih hinv').mp fun before after hsplit => ?_⟩
      exact halways (a :: before) after (congrArg (a :: ·) hsplit)
    · rintro ⟨hcondition, hrest⟩ before after hsplit
      cases before with
      | nil => exact hinv
      | cons first before =>
        obtain ⟨rfl, htail⟩ := List.cons.inj hsplit
        exact (ih ((hstep s a hinv).mpr hcondition)).mpr hrest before after htail

end Total

section Flags

variable (step : σ → α → σ) (flag : σ → Bool) {p : α → Bool}

theorem foldl_set (hstep : ∀ s a, flag (step s a) = (flag s || p a)) (l : List α) (s : σ) :
    flag (l.foldl step s) ↔ flag s ∨ ∃ a ∈ l, p a := by
  induction l generalizing s with
  | nil => simp
  | cons a l ih =>
    rw [List.foldl_cons, ih, hstep]
    simp [or_assoc]

theorem foldl_cleared (hstep : ∀ s a, flag (step s a) = (flag s && p a)) (l : List α) (s : σ) :
    flag (l.foldl step s) ↔ flag s ∧ ∀ a ∈ l, p a := by
  induction l generalizing s with
  | nil => simp
  | cons a l ih =>
    rw [List.foldl_cons, ih, hstep]
    simp [and_assoc]

end Flags

end Inn.Foundation.Runs
