import Mathlib

/-!
# Sorting with a comparison function

What is sorted is reordered. It comes into order when the comparison is an order on what is there,
and how elements stand that compare as equal is left open.
-/

namespace Inn.Foundation.Sorting

variable {α : Type*} {compar : α → α → Int} {base sorted : List α}

/-- The comparison is a preorder on these elements. -/
structure Consistent (compar : α → α → Int) (base : List α) : Prop where
  antisymm : ∀ a ∈ base, ∀ b ∈ base, compar a b < 0 ↔ 0 < compar b a
  trans : ∀ a ∈ base, ∀ b ∈ base, ∀ c ∈ base, compar a b ≤ 0 → compar b c ≤ 0 → compar a c ≤ 0

/-- A permutation, in order if there is one. -/
structure Sorted (compar : α → α → Int) (base sorted : List α) : Prop where
  perm : sorted.Perm base
  ordered : Consistent compar base → sorted.Pairwise fun a b => compar a b ≤ 0

/-- A function like `qsort`, which need not be stable. -/
structure Sorter (compar : α → α → Int) where
  qsort : List α → List α
  sorted : ∀ base, Sorted compar base (qsort base)

def insertsort (compar : α → α → Int) (base : List α) : List α :=
  (base.attach.insertionSort fun a b => compar a.val b.val ≤ 0).map Subtype.val

theorem insertsort_sorted (compar : α → α → Int) (base : List α) :
    Sorted compar base (insertsort compar base) where
  perm := by
    have hperm := (base.attach.perm_insertionSort fun a b => compar a.val b.val ≤ 0).map Subtype.val
    rwa [List.attach_map_subtype_val] at hperm
  ordered hconsistent := by
    have htotal : Std.Total fun a b : { a // a ∈ base } => compar a.val b.val ≤ 0 := by
      refine ⟨fun a b => ?_⟩
      have hneg := hconsistent.antisymm b.val b.property a.val a.property
      omega
    have htrans : IsTrans { a // a ∈ base } fun a b => compar a.val b.val ≤ 0 :=
      ⟨fun a b c => hconsistent.trans a.val a.property b.val b.property c.val c.property⟩
    exact List.pairwise_map.mpr (List.pairwise_insertionSort _ base.attach)

def inserting (compar : α → α → Int) : Sorter compar :=
    ⟨insertsort compar, insertsort_sorted compar⟩

theorem mem_takeWhile {r : α → α → Prop} {p : α → Bool} {l : List α} (hordered : l.Pairwise r)
    (hbefore : ∀ a b, r a b → p b = true → p a = true) {a : α} :
    a ∈ l.takeWhile p ↔ a ∈ l ∧ p a = true := by
  induction l with
  | nil => exact ⟨nofun, fun h => nomatch h.1⟩
  | cons b l ih =>
    obtain ⟨hfirst, hrest⟩ := List.pairwise_cons.mp hordered
    cases hb : p b with
    | true =>
      rw [List.takeWhile_cons_of_pos hb, List.mem_cons, List.mem_cons, ih hrest, or_and_right]
      exact or_congr_left ⟨fun h => ⟨h, h ▸ hb⟩, And.left⟩
    | false =>
      rw [List.takeWhile_cons_of_neg (Bool.eq_false_iff.mp hb)]
      refine ⟨nofun, fun ⟨hmem, hp⟩ => ?_⟩
      rcases List.mem_cons.mp hmem with rfl | hmem
      · rw [hb] at hp
        cases hp
      · rw [hbefore b a (hfirst a hmem) hp] at hb
        cases hb

section Keys

variable {κ : Type*} [LinearOrder κ] {key : α → κ}

def Compares (compar : α → α → Int) (key : α → κ) (base : List α) : Prop :=
  ∀ a ∈ base, ∀ b ∈ base, (compar a b < 0 ↔ key a < key b) ∧ (0 < compar a b ↔ key b < key a)

theorem Compares.le_iff (hcompares : Compares compar key base) {a b : α} (ha : a ∈ base)
    (hb : b ∈ base) :
    compar a b ≤ 0 ↔ key a ≤ key b := by
  rw [← Int.not_lt, (hcompares a ha b hb).2, not_lt]

theorem Compares.consistent (hcompares : Compares compar key base) : Consistent compar base where
  antisymm a ha b hb := by rw [(hcompares a ha b hb).1, (hcompares b hb a ha).2]
  trans a ha b hb c hc hab hbc :=
    (hcompares.le_iff ha hc).mpr
      (le_trans ((hcompares.le_iff ha hb).mp hab) ((hcompares.le_iff hb hc).mp hbc))

theorem Sorted.pairwise (hsorted : Sorted compar base sorted)
    (hcompares : Compares compar key base) :
    sorted.Pairwise fun a b => key a ≤ key b :=
  (hsorted.ordered hcompares.consistent).imp_of_mem fun ha hb h =>
    (hcompares.le_iff (hsorted.perm.mem_iff.mp ha) (hsorted.perm.mem_iff.mp hb)).mp h

end Keys

end Inn.Foundation.Sorting
