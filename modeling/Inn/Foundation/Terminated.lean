import Mathlib

/-!
# Lines with a terminator of two items

A text is made of lines, and each line ends with the same two items. One of the two alone may stand
in a line.
-/

namespace Inn.Foundation.Terminated

variable {α : Type*} {cr lf : α}

def Unbroken (cr lf : α) : List α → Prop
  | [] => True
  | c :: line => ¬(c = cr ∧ line.head? = some lf) ∧ Unbroken cr lf line

def text (cr lf : α) (lines : List (List α)) : List α := lines.flatMap fun line => line ++ [cr, lf]

theorem text_nil : text cr lf [] = [] := rfl

theorem text_cons (line : List α) (lines : List (List α)) :
    text cr lf (line :: lines) = line ++ cr :: lf :: text cr lf lines := by
  rw [text, List.flatMap_cons, List.append_assoc]
  rfl

theorem text_append (before after : List (List α)) :
    text cr lf (before ++ after) = text cr lf before ++ text cr lf after := List.flatMap_append

theorem length_le_text (lines : List (List α)) : 2 * lines.length ≤ (text cr lf lines).length := by
  induction lines with
  | nil => exact Nat.le_refl 0
  | cons line lines ih =>
    rw [text_cons, List.length_append, List.length_cons, List.length_cons, List.length_cons]
    omega

theorem Unbroken.not_terminator {c : α} {line : List α} (h : Unbroken cr lf (c :: line))
    (hne : cr ≠ lf) (rest : List α) : ¬(c = cr ∧ (line ++ cr :: rest).head? = some lf) := by
  rintro ⟨hc, hhead⟩
  cases line with
  | nil => exact hne (Option.some.inj hhead)
  | cons d line => exact h.1 ⟨hc, hhead⟩

theorem Unbroken.drop {line : List α} (h : Unbroken cr lf line) (n : Nat) :
    Unbroken cr lf (line.drop n) := by
  induction n generalizing line with
  | zero => exact h
  | succ n ih =>
    cases line with
    | nil => exact h
    | cons c line => exact ih h.2

def extend (c : α) : List (List α) → List (List α)
  | [] => [[c]]
  | line :: lines => (c :: line) :: lines

theorem text_extend (c : α) {lines : List (List α)} (hlines : lines ≠ []) :
    text cr lf (extend c lines) = c :: text cr lf lines := by
  cases lines with
  | nil => exact absurd rfl hlines
  | cons line lines =>
    rw [extend, text_cons, text_cons]
    rfl

theorem ends_tail {c : α} {rest : List α} (hends : [cr, lf] <:+ c :: rest)
    (hterminator : c :: rest ≠ [cr, lf]) :
    [cr, lf] <:+ rest := by
  obtain heq | hrest := List.suffix_cons_iff.mp hends
  · exact absurd heq.symm hterminator
  · exact hrest

theorem rest_ends {rest : List α} (hne : cr ≠ lf)
    (hends : cr :: lf :: rest = [] ∨ [cr, lf] <:+ cr :: lf :: rest) :
    rest = [] ∨ [cr, lf] <:+ rest := by
  by_cases hempty : rest = []
  · exact .inl hempty
  · refine .inr (ends_tail (ends_tail (hends.resolve_left (by simp)) fun heq => ?_) fun heq => ?_)
    · exact hempty (List.cons.inj (List.cons.inj heq).2).2
    · exact hne (List.cons.inj heq).1.symm

section Cutting

variable [DecidableEq α]

def lines (cr lf : α) : List α → List (List α)
  | [] => []
  | [c] => [[c]]
  | c :: d :: rest => if c = cr ∧ d = lf then [] :: lines cr lf rest
      else extend c (lines cr lf (d :: rest))

theorem lines_cons_ne_nil (c : α) (rest : List α) : lines cr lf (c :: rest) ≠ [] := by
  cases rest with
  | nil => nofun
  | cons d rest =>
    rw [lines]
    split
    · nofun
    · cases lines cr lf (d :: rest) <;> nofun

theorem text_lines (hne : cr ≠ lf) {s : List α} (hends : s = [] ∨ [cr, lf] <:+ s) :
    text cr lf (lines cr lf s) = s := by
  induction s using lines.induct cr lf with
  | case1 => rfl
  | case2 c =>
    obtain hempty | ⟨front, hfront⟩ := hends
    · cases hempty
    · have hlength := congrArg List.length hfront
      simp at hlength
  | case3 c d rest hterminator ih =>
    obtain ⟨rfl, rfl⟩ := hterminator
    rw [lines, if_pos ⟨rfl, rfl⟩, text_cons, ih (rest_ends hne hends)]
    rfl
  | case4 c d rest hterminator ih =>
    have hrest : [cr, lf] <:+ d :: rest := by
      refine ends_tail (hends.resolve_left (by simp)) fun heq => hterminator ?_
      exact ⟨(List.cons.inj heq).1, (List.cons.inj (List.cons.inj heq).2).1⟩
    rw [lines, if_neg hterminator, text_extend c (lines_cons_ne_nil d rest), ih (.inr hrest)]

theorem head?_of_lines {s : List α} {line : List α} {more : List (List α)}
    (hlines : lines cr lf s = line :: more) :
    line = [] ∨ line.head? = s.head? := by
  match s with
  | [] => cases hlines
  | [c] => exact .inr (by rw [← (List.cons.inj hlines).1])
  | c :: d :: rest =>
    rw [lines] at hlines
    split at hlines
    · exact .inl (List.cons.inj hlines).1.symm
    · refine .inr ?_
      cases hrest : lines cr lf (d :: rest) with
      | nil => exact absurd hrest (lines_cons_ne_nil d rest)
      | cons first others =>
        rw [hrest] at hlines
        rw [← (List.cons.inj hlines).1]
        rfl

theorem unbroken_of_mem_lines {s line : List α} (hline : line ∈ lines cr lf s) :
    Unbroken cr lf line := by
  induction s using lines.induct cr lf generalizing line with
  | case1 => cases hline
  | case2 c =>
    obtain rfl := List.mem_singleton.mp hline
    exact ⟨fun h => (nomatch h.2), trivial⟩
  | case3 c d rest hterminator ih =>
    rw [lines, if_pos hterminator, List.mem_cons] at hline
    obtain rfl | hline := hline
    · trivial
    · exact ih hline
  | case4 c d rest hterminator ih =>
    rw [lines, if_neg hterminator] at hline
    cases hrest : lines cr lf (d :: rest) with
    | nil => exact absurd hrest (lines_cons_ne_nil d rest)
    | cons first others =>
      rw [hrest, extend, List.mem_cons] at hline
      obtain rfl | hline := hline
      · refine ⟨?_, ih (by rw [hrest]; exact List.mem_cons_self)⟩
        rintro ⟨hc, hhead⟩
        -- the terminator would have been seen from `c`
        obtain hfirst | hfirst := head?_of_lines hrest
        · rw [hfirst] at hhead
          cases hhead
        · exact hterminator ⟨hc, Option.some.inj (hfirst.symm.trans hhead)⟩
      · exact ih (by rw [hrest]; exact List.mem_cons_of_mem _ hline)

theorem lines_append (hne : cr ≠ lf) {s : List α} (hends : s = [] ∨ [cr, lf] <:+ s) (t : List α) :
    lines cr lf (s ++ t) = lines cr lf s ++ lines cr lf t := by
  induction s using lines.induct cr lf with
  | case1 => rfl
  | case2 c =>
    obtain hempty | ⟨front, hfront⟩ := hends
    · cases hempty
    · have hlength := congrArg List.length hfront
      simp at hlength
  | case3 c d rest hterminator ih =>
    obtain ⟨rfl, rfl⟩ := hterminator
    rw [List.cons_append, List.cons_append, lines, if_pos ⟨rfl, rfl⟩,
      ih (rest_ends hne hends), lines,
      if_pos ⟨rfl, rfl⟩, List.cons_append]
  | case4 c d rest hterminator ih =>
    have hrest : [cr, lf] <:+ d :: rest := by
      refine ends_tail (hends.resolve_left (by simp)) fun heq => hterminator ?_
      exact ⟨(List.cons.inj heq).1, (List.cons.inj (List.cons.inj heq).2).1⟩
    rw [List.cons_append, List.cons_append, lines, if_neg hterminator, ← List.cons_append,
      ih (.inr hrest), lines,
      if_neg hterminator]
    cases hlines : lines cr lf (d :: rest) with
    | nil => exact absurd hlines (lines_cons_ne_nil d rest)
    | cons first others => rfl

theorem mem_lines (hne : cr ≠ lf) {s line : List α} (hends : s = [] ∨ [cr, lf] <:+ s)
    (hline : line ∈ lines cr lf s) :
    ∃ front back, s = front ++ line ++ cr :: lf :: back ∧ (front = [] ∨ [cr, lf] <:+ front) := by
  obtain ⟨before, after, hlines⟩ := List.append_of_mem hline
  refine ⟨text cr lf before, text cr lf after, ?_, ?_⟩
  · rw [← text_lines hne hends, hlines, text_append, text_cons, List.append_assoc]
  · rcases List.eq_nil_or_concat before with rfl | ⟨others, last, rfl⟩
    · exact .inl rfl
    · refine .inr ⟨text cr lf others ++ last, ?_⟩
      rw [List.concat_eq_append, text_append, text_cons, text_nil, List.append_assoc]

end Cutting

end Inn.Foundation.Terminated
