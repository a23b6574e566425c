import Inn.Foundation.Lines

/-!
# Reading a stream in chunks

A stream is read line by line, and each time into a buffer of the same size, so that a line that is
too long comes in several chunks.
-/

namespace Inn.Foundation.Chunks

open Lines

variable {α : Type*} [DecidableEq α] {sep : α} {size : Nat}

def through (sep : α) (s : List α) : List α :=
  match cut sep s with
  | none => s
  | some (first, _) => first ++ [sep]

theorem through_ne_nil {s : List α} (hs : s ≠ []) : through sep s ≠ [] := by
  rw [through]
  split
  · exact hs
  · simp

def chunks (sep : α) (size : Nat) (s : List α) : List (List α) :=
  if _h : s = [] ∨ size = 0 then []
  else through sep (s.take size) :: chunks sep size (s.drop (through sep (s.take size)).length)
termination_by s.length
decreasing_by
  have hne : s.take size ≠ [] := fun h => _h (List.take_eq_nil_iff.mp h).symm
  have hpos : 0 < (through sep (s.take size)).length := List.length_pos_iff.mpr (through_ne_nil hne)
  have := List.length_pos_iff.mpr (not_or.mp _h).1
  rw [List.length_drop]
  omega

theorem chunks_nil : chunks sep size [] = [] := by
  rw [chunks, dif_pos (.inl rfl)]

theorem chunks_line {line : List α} (hsep : sep ∉ line) (hshort : line.length < size)
    (rest : List α) :
    chunks sep size (line ++ sep :: rest) = (line ++ [sep]) :: chunks sep size rest := by
  obtain ⟨n, hn⟩ : ∃ n, size = line.length + (n + 1) := ⟨size - line.length - 1, by omega⟩
  have hthrough : through sep ((line ++ sep :: rest).take size) = line ++ [sep] := by
    rw [hn, List.take_length_add_append, List.take_succ_cons, through, cut_first hsep]
  have hdrop : (line ++ sep :: rest).drop (line ++ [sep]).length = rest := by
    rw [show line ++ sep :: rest = line ++ [sep] ++ rest by simp, List.drop_left]
  rw [chunks, dif_neg (by simp; omega), hthrough, hdrop]

theorem chunks_last {s : List α} (hsep : sep ∉ s) (hne : s ≠ []) (hshort : s.length ≤ size) :
    chunks sep size s = [s] := by
  have hpos := List.length_pos_iff.mpr hne
  have hthrough : through sep (s.take size) = s := by
    rw [List.take_of_length_le hshort, through, cut_of_notMem hsep]
  rw [chunks, dif_neg (by simp [hne]; omega), hthrough, List.drop_length, chunks_nil]

theorem chunks_pieces {s : List α} (hshort : ∀ line ∈ (pieces sep s).1, line.length < size)
    (hlast : (pieces sep s).2.length ≤ size) :
    chunks sep size s =
      (pieces sep s).1.map (· ++ [sep]) ++ if (pieces sep s).2 = [] then []
        else [(pieces sep s).2] := by
  induction s using pieces_induction sep with
  | last s hsep =>
    rw [pieces_of_notMem hsep] at hlast ⊢
    by_cases hne : s = []
    · rw [hne, chunks_nil]
      rfl
    · rw [chunks_last hsep hne hlast, if_neg hne]
      rfl
  | first line rest hsep ih =>
    rw [pieces_first hsep] at hshort hlast ⊢
    rw [chunks_line hsep (hshort line List.mem_cons_self),
      ih (fun l hl => hshort l (List.mem_cons_of_mem _ hl)) hlast]
    rfl

end Inn.Foundation.Chunks
