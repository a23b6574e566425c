import Mathlib

/-!
# Locks that are names of files

A party holds a lock by the file that it has given the name to. The name is given only
when nothing has it. What can go wrong is that somebody else takes the name away while
the party still counts on it.
-/

namespace Inn.Foundation.Locks

open Function (update update_self update_of_ne)

variable {ι F : Type*}

/-- The file behind the name, and the one each party has taken. -/
structure Lock (ι F : Type*) where
  name : Option F
  taken : ι → Option F

def Lock.Believed (lock : Lock ι F) (p : ι) : Prop := lock.taken p ≠ none

/-- Nobody holds the file behind the name. -/
def Deserted (lock : Lock ι F) : Prop := ∀ p, ∀ f ∈ lock.taken p, lock.name ≠ some f

instance {n : Nat} [DecidableEq F] (lock : Lock (Fin n) F) : Decidable (Deserted lock) := by
  unfold Deserted
  infer_instance

inductive Move [DecidableEq ι] (lock : Lock ι F) : Lock ι F → Prop
  | stay : Move lock lock
  | take (p : ι) (f : F) (hfree : lock.name = none) :
      Move lock ⟨some f, update lock.taken p (some f)⟩
  | give (p : ι) (f : F) (hp : lock.taken p = some f) : Move lock ⟨none, update lock.taken p none⟩
  | leave (p : ι) : Move lock ⟨lock.name, update lock.taken p none⟩
  | remove (hdeserted : Deserted lock) : Move lock ⟨none, lock.taken⟩

/-- What is taken is the file behind the name, by one at most. -/
structure Held (lock : Lock ι F) : Prop where
  named : ∀ p f, lock.taken p = some f → lock.name = some f
  single : ∀ p q f g, lock.taken p = some f → lock.taken q = some g → p = q

theorem held_of_nobody {lock : Lock ι F} (hnobody : ∀ p, lock.taken p = none) : Held lock where
  named p f hp := by rw [hnobody] at hp; cases hp
  single p _ f _ hp _ := by rw [hnobody] at hp; cases hp

theorem Held.nobody {lock : Lock ι F} (h : Held lock) (hdeserted : Deserted lock) (p : ι) :
    lock.taken p = none := by
  cases hp : lock.taken p with
  | none => rfl
  | some f => exact absurd (h.named p f hp) (hdeserted p f hp)

theorem Held.free {lock : Lock ι F} (h : Held lock) (hfree : lock.name = none) (p : ι) :
    lock.taken p = none := by
  refine h.nobody (fun q f _ => ?_) p
  rw [hfree]
  exact fun hname => by cases hname

variable [DecidableEq ι]

theorem lock_update {S : Type*} (name : Option F) (holds : S → Option F) (stage : ι → S)
    (p : ι) (x : S) :
    (⟨name, fun q => holds (update stage p x q)⟩ : Lock ι F) =
      ⟨name, update (fun q => holds (stage q)) p (holds x)⟩ :=
  congrArg (Lock.mk name) (Function.comp_update holds stage p x)

theorem Move.held {lock lock' : Lock ι F} (hmove : Move lock lock') (h : Held lock) :
    Held lock' := by
  cases hmove with
  | stay => exact h
  | take p f hfree =>
    have htaken : ∀ q g, update lock.taken p (some f) q = some g → q = p ∧ g = f := by
      intro q g hq
      by_cases hqp : q = p
      · rw [hqp, update_self] at hq
        exact ⟨hqp, (Option.some.inj hq).symm⟩
      · rw [update_of_ne hqp, h.free hfree] at hq
        cases hq
    constructor
    · intro q g hq
      rw [(htaken q g hq).2]
    · intro q r g g' hq hr
      rw [(htaken q g hq).1, (htaken r g' hr).1]
  | give p f hp =>
    refine held_of_nobody fun q => ?_
    by_cases hqp : q = p
    · exact (congrArg _ hqp).trans (update_self p none lock.taken)
    · refine (update_of_ne hqp none lock.taken).trans ?_
      cases hq : lock.taken q with
      | none => rfl
      | some g => exact absurd (h.single q p g f hq hp) hqp
  | leave p =>
    have htaken : ∀ q g, update lock.taken p none q = some g → lock.taken q = some g := by
      intro q g hq
      by_cases hqp : q = p
      · rw [hqp, update_self] at hq
        cases hq
      · rwa [update_of_ne hqp] at hq
    exact ⟨fun q g hq => h.named q g (htaken q g hq),
      fun q r g g' hq hr => h.single q r g g' (htaken q g hq) (htaken r g' hr)⟩
  | remove hdeserted => exact held_of_nobody (h.nobody hdeserted)

end Inn.Foundation.Locks
