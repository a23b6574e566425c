import Mathlib

/-!
# Bitmaps

A bitmap is a table of words. The bits of a word are numbered from the left, and those of the
table go on from one word to the next. A bit is looked at, set and cleared with a mask.
-/

namespace Inn.Foundation.Bitmap

variable {w : Nat}

section Masks

variable {word : BitVec w} {i j : Nat}

def mask (w j : Nat) : BitVec w := 1#w <<< (w - 1 - j)

theorem getMsbD_mask (hj : j < w) : (mask w j).getMsbD i = decide (i = j) := by
  unfold mask
  rw [BitVec.getMsbD_shiftLeft, BitVec.getMsbD_one]
  have hw : 0 < w := Nat.lt_of_le_of_lt (Nat.zero_le j) hj
  rw [decide_eq_true hw, Bool.and_true]
  exact decide_eq_decide.mpr ⟨fun h => by omega, fun h => by omega⟩

theorem and_mask_eq_zero (hj : j < w) : word &&& mask w j = 0#w ↔ word.getMsbD j = false := by
  constructor
  · intro h
    have hbit := congrArg (BitVec.getMsbD · j) h
    simpa [getMsbD_mask hj] using hbit
  · intro h
    refine BitVec.eq_of_getMsbD_eq fun i _ => ?_
    rw [BitVec.getMsbD_and, getMsbD_mask hj, BitVec.getMsbD_zero]
    by_cases hij : i = j
    · rw [hij, h, Bool.false_and]
    · rw [decide_eq_false hij, Bool.and_false]

theorem getMsbD_or_mask (hj : j < w) :
    (word ||| mask w j).getMsbD i = if i = j then true else word.getMsbD i := by
  rw [BitVec.getMsbD_or, getMsbD_mask hj]
  by_cases hij : i = j
  · rw [if_pos hij, decide_eq_true hij, Bool.or_true]
  · rw [if_neg hij, decide_eq_false hij, Bool.or_false]

theorem getMsbD_and_not_mask (hj : j < w) :
    (word &&& ~~~mask w j).getMsbD i = if i = j then false else word.getMsbD i := by
  rw [BitVec.getMsbD_and, BitVec.getMsbD_not, getMsbD_mask hj]
  by_cases hij : i = j
  · rw [if_pos hij, decide_eq_true hij, Bool.not_true, Bool.and_false, Bool.and_false]
  · rw [if_neg hij, decide_eq_false hij, Bool.not_false, Bool.and_true]
    by_cases hi : i < w
    · rw [decide_eq_true hi, Bool.and_true]
    · rw [BitVec.getMsbD_of_ge _ _ (Nat.le_of_not_lt hi), Bool.false_and]

theorem eq_allOnes_iff : word = BitVec.allOnes w ↔ ∀ j < w, word.getMsbD j = true := by
  constructor
  · rintro rfl j hj
    rw [BitVec.getMsbD_allOnes, decide_eq_true hj]
  · intro h
    refine BitVec.eq_of_getMsbD_eq fun j hj => ?_
    rw [h j hj, BitVec.getMsbD_allOnes, decide_eq_true hj]

end Masks

section Tables

variable {table : Nat → BitVec w} {n m : Nat}

def bit (table : Nat → BitVec w) (n : Nat) : Bool := (table (n / w)).getMsbD (n % w)

theorem bit_word {i j : Nat} (hj : j < w) : bit table (i * w + j) = (table i).getMsbD j := by
  have hw : 0 < w := Nat.lt_of_le_of_lt (Nat.zero_le j) hj
  unfold bit
  rw [Nat.mul_comm, Nat.mul_add_div hw, Nat.div_eq_of_lt hj, Nat.add_zero, Nat.mul_add_mod,
    Nat.mod_eq_of_lt hj]

theorem bit_update {word : BitVec w} {b : Bool}
    (hword : ∀ i, word.getMsbD i = if i = n % w then b else (table (n / w)).getMsbD i) :
    bit (Function.update table (n / w) word) m = if m = n then b else bit table m := by
  unfold bit
  rw [Function.update_apply]
  by_cases hdiv : m / w = n / w
  · rw [if_pos hdiv, hword, hdiv]
    by_cases hmod : m % w = n % w
    · have hsame : m = n := by rw [← Nat.div_add_mod m w, ← Nat.div_add_mod n w, hdiv, hmod]
      rw [if_pos hmod, if_pos hsame]
    · rw [if_neg hmod, if_neg fun h => hmod (congrArg (· % w) h)]
  · rw [if_neg hdiv, if_neg fun h => hdiv (congrArg (· / w) h)]

theorem bit_set (hw : 0 < w) :
    bit (Function.update table (n / w) (table (n / w) ||| mask w (n % w))) m =
      if m = n then true else bit table m :=
  bit_update fun _ => getMsbD_or_mask (Nat.mod_lt n hw)

theorem bit_clear (hw : 0 < w) :
    bit (Function.update table (n / w) (table (n / w) &&& ~~~mask w (n % w))) m =
      if m = n then false else bit table m :=
  bit_update fun _ => getMsbD_and_not_mask (Nat.mod_lt n hw)

def ones (table : Nat → BitVec w) (limit : Nat) : Finset Nat :=
    (Finset.range limit).filter fun n => bit table n

theorem mem_ones {limit : Nat} : n ∈ ones table limit ↔ n < limit ∧ bit table n = true := by
  unfold ones
  rw [Finset.mem_filter, Finset.mem_range]

theorem ones_set {table' : Nat → BitVec w} {limit : Nat} (hn : n < limit)
    (hclear : bit table n = false)
    (hbits : ∀ m, bit table' m = if m = n then true else bit table m) :
    (ones table' limit).card = (ones table limit).card + 1 := by
  have hinsert : ones table' limit = insert n (ones table limit) := by
    ext m
    rw [Finset.mem_insert, mem_ones, mem_ones, hbits]
    by_cases hm : m = n
    · simp [hm, hn]
    · simp [hm]
  rw [hinsert, Finset.card_insert_of_notMem]
  rw [mem_ones, hclear]
  exact fun h => Bool.false_ne_true h.2

theorem ones_clear {table' : Nat → BitVec w} {limit : Nat} (hn : n < limit)
    (hset : bit table n = true) (hbits : ∀ m, bit table' m = if m = n then false else bit table m) :
    (ones table limit).card = (ones table' limit).card + 1 := by
  refine ones_set hn ?_ fun m => ?_
  · rw [hbits, if_pos rfl]
  · rw [hbits]
    by_cases hm : m = n
    · rw [if_pos hm, hm, hset]
    · rw [if_neg hm, if_neg hm]

theorem ones_card_le (table : Nat → BitVec w) (limit : Nat) : (ones table limit).card ≤ limit := by
  refine (Finset.card_filter_le _ _).trans ?_
  rw [Finset.card_range]

theorem ones_card_eq {limit : Nat} : (ones table limit).card = limit ↔
    ∀ n < limit, bit table n = true := by
  unfold ones
  conv_lhs => rhs; rw [← Finset.card_range limit]
  rw [Finset.card_filter_eq_iff]
  simp

end Tables

end Inn.Foundation.Bitmap
