import Mathlib

/-!
# Counting references

Objects refer to others, and the ones that are referred to count their references. An
object is there as long as there are references to it, and its count is their number.
-/

namespace Inn.Foundation.Counting

open Function (update update_self update_of_ne)

variable {κ α : Type*}

section Tally

variable {keys : List κ} {heap : κ → Option α} {f g : α → Nat} {k : κ} {v : α}

def tally (keys : List κ) (heap : κ → Option α) (f : α → Nat) : Nat :=
  (keys.map fun k => (heap k).elim 0 f).sum

theorem tally_congr {heap' : κ → Option α}
    (h : ∀ k ∈ keys, (heap k).elim 0 f = (heap' k).elim 0 g) :
    tally keys heap f = tally keys heap' g :=
  congrArg List.sum (List.map_congr_left h)

theorem tally_perm {keys' : List κ} (h : keys.Perm keys') :
    tally keys heap f = tally keys' heap f :=
  (h.map _).sum_eq

variable [DecidableEq κ]

theorem tally_update_of_notMem (hk : k ∉ keys) (o : Option α) :
    tally keys (update heap k o) f = tally keys heap f := by
  refine tally_congr fun k' hk' => ?_
  rw [update_of_ne]
  rintro rfl
  exact hk hk'

theorem tally_cons (hk : k ∉ keys) :
    tally (k :: keys) (update heap k (some v)) f = f v + tally keys heap f := by
  change (update heap k (some v) k).elim 0 f + tally keys (update heap k (some v)) f = _
  rw [update_self, tally_update_of_notMem hk]
  rfl

theorem tally_update (hnodup : keys.Nodup) (hk : k ∈ keys) (hv : heap k = some v) (v' : α) :
    tally keys (update heap k (some v')) f + f v = tally keys heap f + f v' := by
  have hperm := List.perm_cons_erase hk
  have hnot : k ∉ keys.erase k := hnodup.not_mem_erase
  rw [tally_perm hperm, tally_cons hnot, tally_perm hperm]
  change f v' + tally (keys.erase k) heap f + f v =
    (heap k).elim 0 f + tally (keys.erase k) heap f + f v'
  rw [hv]
  change f v' + tally (keys.erase k) heap f + f v = f v + tally (keys.erase k) heap f + f v'
  omega

theorem tally_erase (hnodup : keys.Nodup) (hk : k ∈ keys) (hv : heap k = some v) :
    tally (keys.erase k) (update heap k none) f + f v = tally keys heap f := by
  rw [tally_update_of_notMem hnodup.not_mem_erase, tally_perm (List.perm_cons_erase hk)]
  change tally (keys.erase k) heap f + f v = (heap k).elim 0 f + tally (keys.erase k) heap f
  rw [hv]
  exact Nat.add_comm _ _

theorem le_tally (hk : k ∈ keys) (hv : heap k = some v) : f v ≤ tally keys heap f := by
  rw [tally_perm (List.perm_cons_erase hk)]
  change f v ≤ (heap k).elim 0 f + tally (keys.erase k) heap f
  rw [hv]
  exact Nat.le_add_right _ _

end Tally

section Counted

variable {count : κ → Option Nat} {refs refs' : κ → Nat} {k : κ}

/-- Each thing is counted as often as there are references to it. -/
def Counted (count : κ → Option Nat) (refs : κ → Nat) : Prop :=
  ∀ k, count k = if refs k = 0 then none else some (refs k)

theorem Counted.congr (hcounted : Counted count refs) (h : ∀ k, refs' k = refs k) :
    Counted count refs' :=
  fun k => by rw [h k]; exact hcounted k

theorem Counted.eq_some (hcounted : Counted count refs) {n : Nat} (hn : count k = some n) :
    n = refs k ∧ 0 < n := by
  rw [hcounted k] at hn
  split at hn
  · exact absurd hn nofun
  next hpos =>
    cases hn
    exact ⟨rfl, Nat.pos_of_ne_zero hpos⟩

theorem Counted.eq_none (hcounted : Counted count refs) (hnone : count k = none) : refs k = 0 := by
  rw [hcounted k] at hnone
  split at hnone
  next hzero => exact hzero
  · exact absurd hnone nofun

theorem Counted.exists_of_pos (hcounted : Counted count refs) (hpos : 0 < refs k) :
    count k = some (refs k) := by
  rw [hcounted k, if_neg (Nat.ne_of_gt hpos)]

variable [DecidableEq κ]

theorem Counted.take (hcounted : Counted count refs) (k : κ) :
    Counted (update count k (some (refs k + 1))) fun k' => refs k' + if k' = k then 1 else 0 := by
  intro k'
  by_cases h : k' = k
  · simp only [h, update_self, if_true, if_neg (Nat.succ_ne_zero _)]
  · simp only [update_of_ne h, if_neg h]
    exact hcounted k'

theorem Counted.release (hrefs : ∀ k', refs k' = refs' k' + if k' = k then 1 else 0)
    (hcounted : Counted count refs) :
    Counted (update count k (if refs' k = 0 then none else some (refs' k))) refs' := by
  intro k'
  by_cases h : k' = k
  · rw [h, update_self]
  · rw [update_of_ne h, hcounted k', hrefs k', if_neg h]
    rfl

end Counted

end Inn.Foundation.Counting
