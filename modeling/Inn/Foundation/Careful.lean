import Mathlib

/-!
# Careful runs

A program may be run with care, so that it stops where something goes wrong that it does not notice
itself. Unless the careful run stops, the program does what it does with care, and that is what a
specification says.
-/

namespace Inn.Foundation.Careful

variable {ε α β γ δ : Type} {slip : ε} {whole : Prop}

/-- The run is as specified, careful or not, unless it slips. -/
def Agrees (slip : ε) (whole : Prop) (run : Bool → Except ε α) (spec : Except ε β)
    (R : α → β → Prop) : Prop :=
  (run true = .error slip ∧ (whole → spec = .error slip)) ∨
    ∃ a b, (∀ careful, run careful = .ok a) ∧ spec = .ok b ∧ R a b

theorem Agrees.ok {R : α → β → Prop} {run : Bool → Except ε α} {a : α} {b : β}
    (hrun : ∀ careful, run careful = .ok a) (hR : R a b) : Agrees slip whole run (.ok b) R :=
  .inr ⟨a, b, hrun, rfl, hR⟩

theorem Agrees.mono {run : Bool → Except ε α} {spec : Except ε β} {R R' : α → β → Prop}
    (h : Agrees slip whole run spec R) (hR : ∀ a b, spec = .ok b → R a b → R' a b) :
    Agrees slip whole run spec R' := by
  obtain hslip | ⟨a, b, hrun, hspec, hab⟩ := h
  · exact .inl hslip
  · exact .inr ⟨a, b, hrun, hspec, hR a b hspec hab⟩

theorem Agrees.change {run : Bool → Except ε α} {b : β} {c : γ} {R : α → β → Prop}
    {R' : α → γ → Prop} (h : Agrees slip whole run (.ok b) R) (hR : ∀ a, R a b → R' a c) :
    Agrees slip whole run (.ok c) R' := by
  obtain ⟨hslip, hwhole⟩ | ⟨a, b', hrun, hspec, hab⟩ := h
  · exact .inl ⟨hslip, fun h => absurd (hwhole h) (by nofun)⟩
  · cases hspec
    exact .inr ⟨a, c, hrun, rfl, hR a hab⟩

theorem Agrees.bind {run : Bool → Except ε α} {spec : Except ε β} {R : α → β → Prop}
    {next : Bool → α → Except ε γ}
    {k : β → Except ε δ} {R' : γ → δ → Prop} (h : Agrees slip whole run spec R)
    (hnext : ∀ a b, spec = .ok b → R a b →
      Agrees slip whole (fun careful => next careful a) (k b) R') :
    Agrees slip whole (fun careful => run careful >>= next careful) (spec >>= k) R' := by
  obtain ⟨hslip, hwhole⟩ | ⟨a, b, hrun, rfl, hab⟩ := h
  · refine .inl ⟨?_, fun h => by rw [hwhole h]; rfl⟩
    change run true >>= next true = _
    rw [hslip]
    rfl
  · have hsame : (fun careful => run careful >>= next careful) = fun careful => next careful a := by
      funext careful
      rw [hrun]
      rfl
    rw [hsame]
    exact hnext a b rfl hab

end Inn.Foundation.Careful
