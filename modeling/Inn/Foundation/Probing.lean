import Mathlib

/-!
# Open addressing

A table of slots in which every key has a fixed, endless sequence of probes.
A record is kept at the first probe of its key that met a vacant slot, and
records are never removed. Nothing is assumed about the probe sequence: two
probes of one key may fall on the same slot.
-/

namespace Inn.Foundation.Probing

open Function (update update_of_ne update_self)

variable {Key Slot Value : Type*}

abbrev Slots (Slot Key Value : Type*) := Slot → Option (Key × Value)

variable (probe : Key → Nat → Slot)

/-- The first `n` places have other keys. -/
def Blocked (slots : Slots Slot Key Value) (key : Key) (n : Nat) : Prop :=
  ∀ m < n, ∃ other value, slots (probe key m) = some (other, value) ∧ other ≠ key

/-- The key is at the `n`th place, and not before it. -/
def FoundAt (slots : Slots Slot Key Value) (key : Key) (value : Value) (n : Nat) : Prop :=
  slots (probe key n) = some (key, value) ∧ Blocked probe slots key n

/-- The first place without another key is vacant. -/
def VacantAt (slots : Slots Slot Key Value) (key : Key) (n : Nat) : Prop :=
  slots (probe key n) = none ∧ Blocked probe slots key n

/-- The pair is in some slot. -/
def Holds (slots : Slots Slot Key Value) (key : Key) (value : Value) : Prop :=
  ∃ slot, slots slot = some (key, value)

/-- Every pair is found where its key is probed. -/
def WellProbed (slots : Slots Slot Key Value) : Prop :=
  ∀ slot key value, slots slot = some (key, value) →
    ∃ n, probe key n = slot ∧ Blocked probe slots key n

variable {probe} {slots : Slots Slot Key Value} {key : Key} {value : Value} {n : Nat}

theorem wellProbed_empty : WellProbed probe (fun _ => none : Slots Slot Key Value) := by
  intro slot key value hslot
  cases hslot

theorem not_holds_empty : ¬ Holds (fun _ => none : Slots Slot Key Value) key value := by
  rintro ⟨slot, hslot⟩
  cases hslot

theorem Blocked.le_of_found {m : Nat} (hblocked : Blocked probe slots key m)
    (hslot : slots (probe key n) = some (key, value)) : m ≤ n := by
  by_contra hlt
  obtain ⟨other, _, hother, hne⟩ := hblocked n (Nat.lt_of_not_le hlt)
  rw [hslot] at hother
  exact hne (congrArg Prod.fst (Option.some.inj hother)).symm

theorem Blocked.le_of_vacant {m : Nat} (hblocked : Blocked probe slots key m)
    (hslot : slots (probe key n) = none) : m ≤ n := by
  by_contra hlt
  obtain ⟨_, _, hother, _⟩ := hblocked n (Nat.lt_of_not_le hlt)
  rw [hslot] at hother
  cases hother

theorem FoundAt.holds (hfound : FoundAt probe slots key value n) : Holds slots key value :=
  ⟨_, hfound.1⟩

theorem FoundAt.value_unique {value' : Value} {n' : Nat}
    (hfound : FoundAt probe slots key value n) (hfound' : FoundAt probe slots key value' n') :
    value = value' := by
  have heq : n = n' := Nat.le_antisymm
    (hfound.2.le_of_found hfound'.1) (hfound'.2.le_of_found hfound.1)
  subst heq
  have hpair := hfound.1.symm.trans hfound'.1
  exact congrArg Prod.snd (Option.some.inj hpair)

theorem WellProbed.holds_iff (hwell : WellProbed probe slots) :
    Holds slots key value ↔ ∃ n, FoundAt probe slots key value n := by
  constructor
  · rintro ⟨slot, hslot⟩
    obtain ⟨n, rfl, hblocked⟩ := hwell slot key value hslot
    exact ⟨n, hslot, hblocked⟩
  · rintro ⟨n, hfound⟩
    exact hfound.holds

theorem FoundAt.holds_iff (hwell : WellProbed probe slots)
    (hfound : FoundAt probe slots key value n) {value' : Value} :
    Holds slots key value' ↔ value' = value := by
  constructor
  · intro hholds
    obtain ⟨n', hfound'⟩ := hwell.holds_iff.mp hholds
    exact hfound'.value_unique hfound
  · rintro rfl
    exact hfound.holds

theorem VacantAt.not_holds (hwell : WellProbed probe slots)
    (hvacant : VacantAt probe slots key n) : ¬ Holds slots key value := by
  intro hholds
  obtain ⟨n', hslot, hblocked⟩ := hwell.holds_iff.mp hholds
  have hle := hvacant.2.le_of_found hslot
  have hge := hblocked.le_of_vacant hvacant.1
  obtain rfl := Nat.le_antisymm hle hge
  rw [hvacant.1] at hslot
  cases hslot

section Store

variable [DecidableEq Slot]

theorem Blocked.store {slot : Slot} {record : Key × Value}
    (hblocked : Blocked probe slots key n) (hvacant : slots slot = none) :
    Blocked probe (update slots slot (some record)) key n := by
  intro m hm
  obtain ⟨other, value', hslot, hne⟩ := hblocked m hm
  refine ⟨other, value', ?_, hne⟩
  rw [update_of_ne _ _ _, hslot]
  rintro rfl
  rw [hvacant] at hslot
  cases hslot

theorem WellProbed.store (hwell : WellProbed probe slots) (hvacant : VacantAt probe slots key n) :
    WellProbed probe (update slots (probe key n) (some (key, value))) := by
  intro slot key' value' hslot
  by_cases heq : slot = probe key n
  · subst heq
    rw [update_self] at hslot
    cases hslot
    exact ⟨n, rfl, hvacant.2.store hvacant.1⟩
  · rw [update_of_ne heq] at hslot
    obtain ⟨n', hprobe, hblocked⟩ := hwell slot key' value' hslot
    exact ⟨n', hprobe, hblocked.store hvacant.1⟩

theorem holds_store {slot : Slot} (hvacant : slots slot = none) {key' : Key} {value' : Value} :
    Holds (update slots slot (some (key, value))) key' value' ↔
      Holds slots key' value' ∨ (key' = key ∧ value' = value) := by
  constructor
  · rintro ⟨slot', hslot⟩
    by_cases heq : slot' = slot
    · subst heq
      rw [update_self] at hslot
      cases hslot
      exact Or.inr ⟨rfl, rfl⟩
    · rw [update_of_ne heq] at hslot
      exact Or.inl ⟨slot', hslot⟩
  · rintro (⟨slot', hslot⟩ | ⟨rfl, rfl⟩)
    · refine ⟨slot', ?_⟩
      rw [update_of_ne _, hslot]
      rintro rfl
      rw [hvacant] at hslot
      cases hslot
    · exact ⟨slot, update_self ..⟩

end Store

end Inn.Foundation.Probing
