import Mathlib

/-!
# Open addressing with marks for what was removed

A value is found by probing for its key, in a fixed order of the slots. What is removed leaves a
mark in its slot, so that probing goes on behind it, and a new value may be put where a mark is.
-/

namespace Inn.Foundation.Tombstones

open Function (update update_self update_of_ne)

inductive Slot (Value : Type*)
  | empty
  | deleted
  | live (value : Value)

variable {Key Value S : Type*}

def Slot.value? : Slot Value → Option Value
  | .live value => some value
  | _ => none

variable (probe : Key → Nat → S) (key : Value → Key)

/-- The first `n` slots are neither empty nor of the key. -/
def Passed (slots : S → Slot Value) (k : Key) (n : Nat) : Prop :=
  ∀ m < n, slots (probe k m) ≠ .empty ∧ ∀ value, slots (probe k m) = .live value → key value ≠ k

/-- Every live value is found from its key. -/
def WellProbed (slots : S → Slot Value) : Prop :=
  ∀ s value, slots s = .live value → ∃ n, probe (key value) n = s ∧
    Passed probe key slots (key value) n

/-- The live values are those of the map. -/
def Represents (slots : S → Slot Value) (m : Key → Option Value) : Prop :=
  ∀ k value, m k = some value ↔ (∃ s, slots s = .live value) ∧ key value = k

variable {probe key} {slots : S → Slot Value} {k : Key} {n : Nat} {s : S} {value : Value}

theorem Passed.succ (hpassed : Passed probe key slots k n) (hempty : slots (probe k n) ≠ .empty)
    (hother : ∀ value, slots (probe k n) = .live value → key value ≠ k) :
    Passed probe key slots k (n + 1) := by
  intro m hm
  rcases Nat.lt_succ_iff_lt_or_eq.mp hm with hlt | rfl
  · exact hpassed m hlt
  · exact ⟨hempty, hother⟩

theorem Passed.le {n' : Nat} (hpassed : Passed probe key slots k n)
    (hlive : slots (probe k n') = .live value) (hkey : key value = k) : n ≤ n' := by
  by_contra hlt
  exact (hpassed n' (Nat.lt_of_not_le hlt)).2 value hlive hkey

theorem WellProbed.slot_unique (hwell : WellProbed probe key slots) {s' : S} {value' : Value}
    (hlive : slots s = .live value) (hlive' : slots s' = .live value')
    (hkey : key value = key value') : s = s' := by
  obtain ⟨n, rfl, hpassed⟩ := hwell s value hlive
  obtain ⟨n', rfl, hpassed'⟩ := hwell s' value' hlive'
  rw [← hkey] at hlive' hpassed' ⊢
  have hle := hpassed.le hlive' hkey.symm
  have hge := hpassed'.le hlive rfl
  rw [Nat.le_antisymm hle hge]

theorem WellProbed.missing (hwell : WellProbed probe key slots)
    (hpassed : Passed probe key slots k n)
    (hempty : slots (probe k n) = .empty) (hlive : slots s = .live value) : key value ≠ k := by
  rintro rfl
  obtain ⟨n', rfl, hpassed'⟩ := hwell s value hlive
  rcases Nat.lt_trichotomy n n' with hlt | rfl | hlt
  · exact (hpassed' n hlt).1 hempty
  · rw [hempty] at hlive
    cases hlive
  · exact (hpassed n' hlt).2 value hlive rfl

section Updating

variable [DecidableEq S]

theorem Passed.update {entry : Slot Value} (hpassed : Passed probe key slots k n)
    (hentry : entry ≠ .empty)
    (hother : ∀ m < n, probe k m = s → ∀ value, entry = .live value → key value ≠ k) :
    Passed probe key (update slots s entry) k n := by
  intro m hm
  by_cases heq : probe k m = s
  · rw [heq, update_self]
    exact ⟨hentry, hother m hm heq⟩
  · rw [update_of_ne heq]
    exact hpassed m hm

theorem WellProbed.put (hwell : WellProbed probe key slots)
    (hpassed : Passed probe key slots (key value) n)
    (hfirst : ∀ m < n, probe (key value) m ≠ probe (key value) n)
    (hnew : ∀ s other, slots s = .live other → key other ≠ key value) :
    WellProbed probe key (update slots (probe (key value) n) (.live value)) := by
  intro s' other hlive
  by_cases heq : s' = probe (key value) n
  · rw [heq, update_self] at hlive
    obtain rfl := Slot.live.inj hlive
    exact ⟨n, heq.symm, hpassed.update nofun fun m hm hsame => absurd hsame (hfirst m hm)⟩
  · rw [update_of_ne heq] at hlive
    obtain ⟨n', hprobe, hpassed'⟩ := hwell s' other hlive
    refine ⟨n', hprobe, hpassed'.update nofun fun _ _ _ value' hvalue => ?_⟩
    rw [← Slot.live.inj hvalue]
    exact (hnew s' other hlive).symm

theorem WellProbed.change (hwell : WellProbed probe key slots) (hlive : slots s = .live value)
    {entry : Slot Value}
    (hentry : entry ≠ .empty) (hkey : ∀ value', entry = .live value' → key value' = key value) :
    WellProbed probe key (update slots s entry) := by
  intro s' other hother
  by_cases heq : s' = s
  · rw [heq, update_self] at hother
    obtain ⟨n, rfl, hpassed⟩ := hwell s value hlive
    rw [heq, hkey other hother]
    exact ⟨n, rfl, hpassed.update hentry fun m hm hsame =>
      absurd rfl ((hpassed m hm).2 value (by rw [hsame, hlive]))⟩
  · rw [update_of_ne heq] at hother
    obtain ⟨n', hprobe, hpassed'⟩ := hwell s' other hother
    refine ⟨n', hprobe, hpassed'.update hentry fun m hm hsame value' hvalue => ?_⟩
    rw [hkey value' hvalue]
    exact (hpassed' m hm).2 value (by rw [hsame, hlive])

variable [DecidableEq Key] {m : Key → Option Value}

theorem Represents.put (hm : Represents key slots m) (hfree : ∀ other, slots s ≠ .live other)
    (hnew : ∀ s other, slots s = .live other → key other ≠ key value) :
    Represents key (update slots s (.live value)) (update m (key value) (some value)) := by
  intro k other
  by_cases hk : k = key value
  · rw [hk, update_self, Option.some.injEq]
    constructor
    · rintro rfl
      exact ⟨⟨s, update_self ..⟩, rfl⟩
    · rintro ⟨⟨s', hlive⟩, hkey⟩
      by_cases heq : s' = s
      · rw [heq, update_self] at hlive
        exact Slot.live.inj hlive
      · rw [update_of_ne heq] at hlive
        exact absurd hkey (hnew s' other hlive)
  · rw [update_of_ne hk, hm]
    refine and_congr_left fun hkey => ⟨fun ⟨s', hlive⟩ => ⟨s', ?_⟩, fun ⟨s', hlive⟩ => ⟨s', ?_⟩⟩
    · rwa [update_of_ne]
      rintro rfl
      exact hfree other hlive
    · rw [update_of_ne] at hlive
      · exact hlive
      · rintro rfl
        rw [update_self] at hlive
        exact hk (by rw [← hkey, Slot.live.inj hlive])

theorem Represents.change (hm : Represents key slots m) (hwell : WellProbed probe key slots)
    (hlive : slots s = .live value) {entry : Slot Value}
    (hkey : ∀ value', entry = .live value' → key value' = key value) :
    Represents key (update slots s entry) (update m (key value) (entry.value?)) := by
  intro k other
  by_cases hk : k = key value
  · rw [hk, update_self]
    constructor
    · intro hentry
      cases entry with
      | live value' =>
        cases hentry
        exact ⟨⟨s, update_self ..⟩, hkey _ rfl⟩
      | _ => cases hentry
    · rintro ⟨⟨s', hother⟩, hsame⟩
      by_cases heq : s' = s
      · rw [heq, update_self] at hother
        rw [hother]
        rfl
      · rw [update_of_ne heq] at hother
        exact absurd (hwell.slot_unique hother hlive hsame) heq
  · rw [update_of_ne hk, hm]
    refine and_congr_left fun hsame => ⟨fun ⟨s', hother⟩ => ⟨s', ?_⟩, fun ⟨s', hother⟩ => ⟨s', ?_⟩⟩
    · rwa [update_of_ne]
      rintro rfl
      rw [hlive] at hother
      exact hk (by rw [← hsame, Slot.live.inj hother])
    · rw [update_of_ne] at hother
      · exact hother
      · rintro rfl
        rw [update_self] at hother
        exact hk (by rw [← hsame, hkey other hother])

end Updating

end Inn.Foundation.Tombstones
