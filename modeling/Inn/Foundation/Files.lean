import Mathlib

/-!
# Writing to a place in a file

A file is the list of what it holds. Writing beyond its end leaves a gap that
reads as a fixed value, and reading stops at the end.
-/

namespace Inn.Foundation.Files

variable {α : Type*} {zero : α}

def overwrite (zero : α) (file : List α) (place : Nat) : List α → List α
  | [] => file
  | text => file.take place ++ List.replicate (place - file.length) zero ++ text ++
      file.drop (place + text.length)

def pread (file : List α) (place size : Nat) : List α := (file.drop place).take size

theorem overwrite_eq {file : List α} {place : Nat} (text : List α) (hplace : place ≤ file.length) :
    overwrite zero file place text =
      file.take place ++ text ++ file.drop (place + text.length) := by
  cases text with
  | nil => rw [overwrite, List.append_nil, List.length_nil, Nat.add_zero, List.take_append_drop]
  | cons first rest =>
    rw [overwrite, Nat.sub_eq_zero_of_le hplace, List.replicate_zero, List.append_nil]
    nofun

theorem overwrite_beyond {file text : List α} {place : Nat} (htext : text ≠ [])
    (hplace : file.length ≤ place) :
    overwrite zero file place text = file ++ List.replicate (place - file.length) zero ++ text := by
  rw [overwrite, List.take_of_length_le hplace, List.drop_of_length_le (by omega), List.append_nil]
  exact htext

theorem getElem?_overwrite {used : α → Bool} (hzero : used zero = false) (file text : List α)
    (place i : Nat) :
    (overwrite zero file place text)[i]?.filter used =
      if place ≤ i ∧ i < place + text.length then text[i - place]?.filter used
        else file[i]?.filter used := by
  cases htext : text with
  | nil => rw [overwrite, if_neg (by simp only [List.length_nil]; omega)]
  | cons first rest =>
    rw [← htext, overwrite]
    · have hfront :
          (file.take place ++ List.replicate (place - file.length) zero).length = place := by
        rw [List.length_append, List.length_take, List.length_replicate]
        omega
      by_cases hbefore : i < place
      · rw [if_neg (by omega), List.append_assoc, List.getElem?_append_left (by omega)]
        by_cases hinside : i < file.length
        · rw [List.getElem?_append_left (by rw [List.length_take]; omega),
            List.getElem?_take_of_lt hbefore]
        · rw [List.getElem?_append_right (by rw [List.length_take]; omega), List.getElem?_replicate,
            List.getElem?_eq_none (Nat.le_of_not_lt hinside),
              if_pos (by rw [List.length_take]; omega),
            Option.filter_some, hzero, if_neg Bool.false_ne_true, Option.filter_none]
      · by_cases hafter : i < place + text.length
        · rw [if_pos ⟨Nat.le_of_not_lt hbefore, hafter⟩, List.getElem?_append_left,
            List.getElem?_append_right, hfront]
          · omega
          · rw [List.length_append, hfront]
            omega
        · rw [if_neg (by omega), List.getElem?_append_right, List.length_append, hfront,
            List.getElem?_drop,
            show place + text.length + (i - (place + text.length)) = i by omega]
          rw [List.length_append, hfront]
          omega
    · rw [htext]
      nofun

theorem take_overwrite {file : List α} {place n : Nat} {text : List α}
    (hplace : place ≤ file.length) (hn : n ≤ text.length) :
    (overwrite zero file place text).take (place + n) = file.take place ++ text.take n := by
  have htake : (file.take place).length = place := List.length_take_of_le hplace
  rw [overwrite_eq text hplace, List.append_assoc, List.take_append, htake, Nat.add_sub_cancel_left,
    List.take_append_of_le_length hn, List.take_of_length_le (by omega)]

theorem length_overwrite_ge {file : List α} {place : Nat} {text : List α}
    (hplace : place ≤ file.length) :
    place + text.length ≤ (overwrite zero file place text).length := by
  rw [overwrite_eq text hplace, List.length_append, List.length_append,
    List.length_take_of_le hplace]
  omega

end Inn.Foundation.Files
