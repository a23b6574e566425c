import Mathlib

/-!
# Pieces of a stream

A stream is cut into pieces by a separator. What comes behind the last separator is
kept until more of the stream arrives.
-/

namespace Inn.Foundation.Lines

variable {α : Type*} [DecidableEq α] {sep : α}

def pieces (sep : α) : List α → List (List α) × List α
  | [] => ([], [])
  | c :: rest =>
    if c = sep then
      ([] :: (pieces sep rest).1, (pieces sep rest).2)
    else
      match pieces sep rest with
      | ([], last) => ([], c :: last)
      | (first :: more, last) => ((c :: first) :: more, last)

theorem pieces_of_notMem {s : List α} (hsep : sep ∉ s) : pieces sep s = ([], s) := by
  induction s with
  | nil => rfl
  | cons c rest ih =>
    rw [List.mem_cons, not_or] at hsep
    rw [pieces, if_neg (Ne.symm hsep.1), ih hsep.2]

theorem pieces_first {first : List α} (hsep : sep ∉ first) (rest : List α) :
    pieces sep (first ++ sep :: rest) = (first :: (pieces sep rest).1, (pieces sep rest).2) := by
  induction first with
  | nil => rw [List.nil_append, pieces, if_pos rfl]
  | cons c first ih =>
    rw [List.mem_cons, not_or] at hsep
    rw [List.cons_append, pieces, if_neg (Ne.symm hsep.1), ih hsep.2]

theorem pieces_induction (sep : α) {P : List α → Prop} (last : ∀ s, sep ∉ s → P s)
    (first : ∀ piece rest, sep ∉ piece → P rest → P (piece ++ sep :: rest)) (s : List α) : P s := by
  induction hlength : s.length using Nat.strongRecOn generalizing s with
  | ind n ih =>
    by_cases hsep : sep ∈ s
    · obtain ⟨piece, rest, rfl, hpiece⟩ := List.eq_append_cons_of_mem hsep
      refine first piece rest hpiece (ih rest.length ?_ rest rfl)
      rw [← hlength, List.length_append, List.length_cons]
      omega
    · exact last s hsep

theorem last_length_le (s : List α) : (pieces sep s).2.length ≤ s.length := by
  induction s using pieces_induction sep with
  | last s hsep =>
    have hlast : (pieces sep s).2 = s := by rw [pieces_of_notMem hsep]
    exact Nat.le_of_eq (congrArg List.length hlast)
  | first piece rest hsep ih =>
    rw [pieces_first hsep, List.length_append, List.length_cons]
    exact Nat.le_trans ih (by omega)

theorem pieces_subset (s : List α) :
    (∀ piece ∈ (pieces sep s).1, sep ∉ piece ∧ piece ⊆ s) ∧ sep ∉ (pieces sep s).2 ∧
      (pieces sep s).2 ⊆ s := by
  induction s using pieces_induction sep with
  | last s hsep =>
    rw [pieces_of_notMem hsep]
    exact ⟨nofun, hsep, List.Subset.refl s⟩
  | first first rest hsep ih =>
    have hrest : rest ⊆ first ++ sep :: rest := fun c hc => by simp [hc]
    rw [pieces_first hsep]
    refine ⟨fun piece hpiece => ?_, ih.2.1, List.Subset.trans ih.2.2 hrest⟩
    rcases List.mem_cons.mp hpiece with rfl | hpiece
    · exact ⟨hsep, List.subset_append_left piece _⟩
    · exact ⟨(ih.1 piece hpiece).1, List.Subset.trans (ih.1 piece hpiece).2 hrest⟩

theorem pieces_append (s more : List α) :
    pieces sep (s ++ more) =
      ((pieces sep s).1 ++ (pieces sep ((pieces sep s).2 ++ more)).1,
        (pieces sep ((pieces sep s).2 ++ more)).2) := by
  induction s using pieces_induction sep with
  | last s hsep => rw [pieces_of_notMem hsep, List.nil_append]
  | first piece rest hsep ih =>
    rw [List.append_assoc, List.cons_append, pieces_first hsep, pieces_first hsep, ih]
    rfl

def cut (sep : α) : List α → Option (List α × List α)
  | [] => none
  | c :: rest => if c = sep then some ([], rest) else (cut sep rest).map fun halves =>
      (c :: halves.1, halves.2)

theorem cut_of_notMem {s : List α} (hsep : sep ∉ s) : cut sep s = none := by
  induction s with
  | nil => rfl
  | cons c rest ih =>
    rw [List.mem_cons, not_or] at hsep
    rw [cut, if_neg (Ne.symm hsep.1), ih hsep.2, Option.map_none]

theorem cut_first {first : List α} (hsep : sep ∉ first) (rest : List α) :
    cut sep (first ++ sep :: rest) = some (first, rest) := by
  induction first with
  | nil => rw [List.nil_append, cut, if_pos rfl]
  | cons c first ih =>
    rw [List.mem_cons, not_or] at hsep
    rw [List.cons_append, cut, if_neg (Ne.symm hsep.1), ih hsep.2, Option.map_some]

theorem cut_append {before : List α} (hsep : sep ∉ before) (s : List α) :
    cut sep (before ++ s) = (cut sep s).map fun halves => (before ++ halves.1, halves.2) := by
  induction before with
  | nil => exact Option.map_id'.symm
  | cons c before ih =>
    rw [List.mem_cons, not_or] at hsep
    rw [List.cons_append, cut, if_neg (Ne.symm hsep.1), ih hsep.2, Option.map_map]
    rfl

theorem of_cut {s first rest : List α} (hcut : cut sep s = some (first, rest)) :
    s = first ++ sep :: rest ∧ sep ∉ first := by
  by_cases hsep : sep ∈ s
  · obtain ⟨before, after, rfl, hbefore⟩ := List.eq_append_cons_of_mem hsep
    rw [cut_first hbefore] at hcut
    cases hcut
    exact ⟨rfl, hbefore⟩
  · rw [cut_of_notMem hsep] at hcut
    cases hcut

theorem of_cut_none {s : List α} (hcut : cut sep s = none) : sep ∉ s := by
  intro hsep
  obtain ⟨before, after, rfl, hbefore⟩ := List.eq_append_cons_of_mem hsep
  rw [cut_first hbefore] at hcut
  cases hcut

def cutLast (sep : α) (s : List α) : Option (List α × List α) :=
  (cut sep s.reverse).map fun halves => (halves.2.reverse, halves.1.reverse)

theorem cutLast_of_notMem {s : List α} (hsep : sep ∉ s) : cutLast sep s = none := by
  rw [cutLast, cut_of_notMem (mt List.mem_reverse.mp hsep)]
  rfl

theorem cutLast_last (before : List α) {behind : List α} (hsep : sep ∉ behind) :
    cutLast sep (before ++ sep :: behind) = some (before, behind) := by
  rw [cutLast, List.reverse_append, List.reverse_cons, List.append_assoc, List.singleton_append,
    cut_first (mt List.mem_reverse.mp hsep), Option.map_some, List.reverse_reverse,
      List.reverse_reverse]

theorem of_cutLast {s before behind : List α} (hcut : cutLast sep s = some (before, behind)) :
    s = before ++ sep :: behind ∧ sep ∉ behind := by
  obtain ⟨⟨first, rest⟩, hfirst, heq⟩ := Option.map_eq_some_iff.mp hcut
  cases heq
  obtain ⟨hs, hnot⟩ := of_cut hfirst
  refine ⟨?_, mt List.mem_reverse.mp hnot⟩
  rw [← List.reverse_reverse s, hs, List.reverse_append, List.reverse_cons, List.append_assoc,
    List.singleton_append]

theorem of_cutLast_none {s : List α} (hcut : cutLast sep s = none) : sep ∉ s :=
  mt List.mem_reverse.mpr (of_cut_none (Option.map_eq_none_iff.mp hcut))

end Inn.Foundation.Lines
