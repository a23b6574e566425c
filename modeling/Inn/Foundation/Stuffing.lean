import Inn.Foundation.Terminated

/-!
# Lines with a dot in front

A line that starts with a dot is sent with one more, and a line that is a dot ends the text.
-/

namespace Inn.Foundation.Stuffing

open Terminated

variable {α : Type*} [DecidableEq α] {cr lf dot : α}

def dotted (dot : α) (line : List α) : Bool := line.head? = some dot

def unstuff (dot : α) (line : List α) : List α := if dotted dot line then line.tail else line

def unstuffed (cr lf dot : α) (s : List α) : List α :=
  text cr lf (((lines cr lf s).takeWhile (· ≠ [dot])).map (unstuff dot))

def stuffs (cr lf dot : α) : List α → Nat
  | [] => 0
  | c :: s => (if c = cr ∧ s.take 2 = [lf, dot] then 1 else 0) + stuffs cr lf dot s

theorem length_text_unstuff (lines : List (List α)) :
    (text cr lf (lines.map (unstuff dot))).length + lines.countP (dotted dot) =
    (text cr lf lines).length := by
  induction lines with
  | nil => rfl
  | cons line lines ih =>
    rw [List.map_cons, text_cons, text_cons, List.countP_cons]
    simp only [List.length_append, List.length_cons]
    have hline : (unstuff dot line).length + (if dotted dot line then 1 else 0) = line.length := by
      rw [unstuff]
      split
      next hdot =>
        cases line with
        | nil => cases of_decide_eq_true hdot
        | cons c line => rfl
      · rfl
    omega

theorem length_unstuffed (hne : cr ≠ lf) {front : List α} (hends : front = [] ∨ [cr, lf] <:+ front)
    (hnone : [dot] ∉ lines cr lf front) :
    (unstuffed cr lf dot (front ++ [dot, cr, lf])).length + (lines cr lf front).countP
    (dotted dot) = front.length := by
  have hlast : lines cr lf [dot, cr, lf] = [[dot]] := by
    rw [lines, if_neg fun h => hne h.2, lines, if_pos ⟨rfl, rfl⟩]
    rfl
  have hlines :
      (lines cr lf (front ++ [dot, cr, lf])).takeWhile (· ≠ [dot]) = lines cr lf front := by
    rw [lines_append hne hends, hlast, List.takeWhile_append_of_pos,
      List.takeWhile_cons_of_neg (by simp),
      List.append_nil]
    intro line hline
    exact decide_eq_true fun heq => hnone (heq ▸ hline)
  rw [unstuffed, hlines, length_text_unstuff, text_lines hne hends]

theorem dotted_of_lines (hdot : dot ≠ cr) {s line : List α} {more : List (List α)}
    (hlines : lines cr lf s = line :: more) :
    dotted dot line = decide (s.head? = some dot) := by
  rw [dotted]
  rcases head?_of_lines hlines with rfl | hhead
  · match s with
    | [] => rfl
    | [c] => cases hlines
    | c :: d :: rest =>
      rw [lines] at hlines
      split at hlines
      next hterminator =>
        have hc : c ≠ dot := fun heq => hdot (heq.symm.trans hterminator.1)
        simp [hc]
      · cases hrest : lines cr lf (d :: rest) with
        | nil => exact absurd hrest (lines_cons_ne_nil d rest)
        | cons first others =>
          rw [hrest] at hlines
          cases hlines
  · rw [hhead]

theorem countP_lines (hne : cr ≠ lf) (hdot : dot ≠ cr) (s : List α) :
    (lines cr lf s).countP (dotted dot) =
    (if s.head? = some dot then 1 else 0) + stuffs cr lf dot s := by
  induction s using lines.induct cr lf with
  | case1 => rfl
  | case2 c => simp [lines, stuffs, dotted]
  | case3 c d rest hterminator ih =>
    obtain ⟨rfl, rfl⟩ := hterminator
    have hnext : (d :: rest).take 2 = [d, dot] ↔ rest.head? = some dot := by cases rest <;> simp
    have hskip : stuffs c d dot (d :: rest) = stuffs c d dot rest := by
      rw [stuffs, if_neg fun h => hne h.1.symm, Nat.zero_add]
    rw [lines, if_pos ⟨rfl, rfl⟩, List.countP_cons, ih, stuffs, hskip]
    simp only [hnext, true_and]
    simp [dotted, hdot.symm]
  | case4 c d rest hterminator ih =>
    have hskip : ¬(c = cr ∧ (d :: rest).take 2 = [lf, dot]) :=
      fun h => hterminator ⟨h.1, (List.cons.inj h.2).1⟩
    rw [lines, if_neg hterminator, stuffs, if_neg hskip, Nat.zero_add]
    cases hrest : lines cr lf (d :: rest) with
    | nil => exact absurd hrest (lines_cons_ne_nil d rest)
    | cons first others =>
      rw [hrest, List.countP_cons, dotted_of_lines hdot hrest] at ih
      simp only [decide_eq_true_eq] at ih
      have hothers : others.countP (dotted dot) = stuffs cr lf dot (d :: rest) := by omega
      rw [extend, List.countP_cons, hothers, Nat.add_comm]
      simp [dotted]

theorem stuffs_append (front back : List α) :
    stuffs cr lf dot (front ++ cr :: lf :: back) =
      stuffs cr lf dot (front ++ [cr, lf]) + stuffs cr lf dot (cr :: lf :: back) := by
  induction front with
  | nil =>
    have hends : stuffs cr lf dot [cr, lf] = 0 := by simp [stuffs]
    rw [List.nil_append, List.nil_append, hends, Nat.zero_add]
  | cons c front ih =>
    have htake : (front ++ cr :: lf :: back).take 2 = (front ++ [cr, lf]).take 2 := by
      rw [show front ++ cr :: lf :: back = front ++ [cr, lf] ++ back by simp,
        List.take_append_of_le_length (by simp)]
    rw [List.cons_append, List.cons_append, stuffs, stuffs, htake, ih, Nat.add_assoc]

end Inn.Foundation.Stuffing
