import Mathlib

/-!
# Direct-mapped caches

A key has one slot, and a slot holds the key that was noted there last, with a
value. The cache is truthful if it holds what would be answered without it. An
answer that changes stays unnoticed where the slot is taken at the same time.
-/

namespace Inn.Foundation.Caching

variable {κ ν ι : Type} [DecidableEq κ] (slot : κ → ι)

def noted (entries : ι → κ × ν) (key : κ) : Option ν :=
  if (entries (slot key)).1 = key then some (entries (slot key)).2 else none

/-- What is noted is what would be answered. -/
def Truthful (entries : ι → κ × ν) (answer : κ → ν) : Prop :=
  ∀ key value, noted slot entries key = some value → answer key = value

variable {slot} {entries : ι → κ × ν} {key other : κ} {value : ν} {answer : κ → ν}

theorem truthful_iff_getD :
    Truthful slot entries answer ↔
      ∀ key, (noted slot entries key).getD (answer key) = answer key := by
  constructor
  · intro htruthful key
    cases hnoted : noted slot entries key with
    | none => rfl
    | some value => exact (htruthful key value hnoted).symm
  · intro hsame key value hnoted
    rw [← hsame key, hnoted, Option.getD_some]

section Note

variable [DecidableEq ι]

variable (slot) in
def note (entries : ι → κ × ν) (key : κ) (value : ν) : ι → κ × ν :=
  Function.update entries (slot key) (key, value)

theorem noted_note_self : noted slot (note slot entries key value) key = some value := by
  rw [noted, note, Function.update_self, if_pos rfl]

theorem noted_note_evicted (hslot : slot other = slot key) (hne : other ≠ key) :
    noted slot (note slot entries key value) other = none := by
  rw [noted, note, hslot, Function.update_self, if_neg (Ne.symm hne)]

theorem noted_note_kept (hslot : slot other ≠ slot key) :
    noted slot (note slot entries key value) other = noted slot entries other := by
  rw [noted, noted, note, Function.update_of_ne hslot]

theorem truthful_note_iff : Truthful slot (note slot entries key value) answer ↔
    answer key = value ∧
      ∀ other found, slot other ≠ slot key → noted slot entries other = some found →
        answer other = found := by
  constructor
  · intro htruthful
    refine ⟨htruthful key value noted_note_self, fun other found hslot hnoted =>
      htruthful other found ?_⟩
    rwa [noted_note_kept hslot]
  · rintro ⟨hvalue, hkept⟩ other found hnoted
    by_cases hslot : slot other = slot key
    · by_cases hne : other = key
      · subst hne
        rw [noted_note_self] at hnoted
        exact hvalue.trans (Option.some.inj hnoted)
      · rw [noted_note_evicted hslot hne] at hnoted
        cases hnoted
    · rw [noted_note_kept hslot] at hnoted
      exact hkept other found hslot hnoted

end Note

end Inn.Foundation.Caching
