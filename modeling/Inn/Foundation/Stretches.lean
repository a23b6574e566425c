import Inn.Foundation.Lines

/-!
# Stretches of a text

A stretch of a text goes from a mark to the next end mark. Stretches are taken out one after
another, until there is no mark left that has an end mark behind it. The two marks may be the same.
-/

namespace Inn.Foundation.Stretches

open Lines

variable {α : Type*} [DecidableEq α] {first last : α}

def takeOut (first last : α) (s : List α) : List α :=
  match _hfirst : cut first s with
  | none => s
  | some (before, behind) =>
    match _hlast : cut last (first :: behind) with
    | none => s
    | some (_, rest) => takeOut first last (before ++ rest)
termination_by s.length
decreasing_by
  have hs := congrArg List.length (of_cut _hfirst).1
  have hbehind := congrArg List.length (of_cut _hlast).1
  simp only [List.length_append, List.length_cons] at hs hbehind ⊢
  omega

theorem takeOut_eq (s : List α) :
    takeOut first last s =
      match cut first s with
      | none => s
      | some (before, behind) =>
        match cut last (first :: behind) with
        | none => s
        | some (_, rest) => takeOut first last (before ++ rest) := by
  rw [takeOut]
  split
  next heq => rw [heq]
  next heq =>
    rw [heq]
    dsimp only
    split
    next heq => rw [heq]
    next heq => rw [heq]

theorem takeOut_of_notMem {s : List α} (hfirst : first ∉ s) : takeOut first last s = s := by
  rw [takeOut_eq, cut_of_notMem hfirst]

theorem takeOut_open {before behind : List α} (hbefore : first ∉ before)
    (hlast : last ∉ first :: behind) :
    takeOut first last (before ++ first :: behind) = before ++ first :: behind := by
  rw [takeOut_eq, cut_first hbefore]
  dsimp only
  rw [cut_of_notMem hlast]

theorem takeOut_stretch {before inside rest : List α} (hbefore : first ∉ before)
    (hne : last ≠ first) (hinside : last ∉ inside) :
    takeOut first last (before ++ first :: (inside ++ last :: rest)) =
      takeOut first last (before ++ rest) := by
  rw [takeOut_eq, cut_first hbefore]
  dsimp only
  rw [← List.cons_append, cut_first (by rw [List.mem_cons, not_or]; exact ⟨hne, hinside⟩)]

theorem takeOut_self (s : List α) : takeOut first first s = s.filter (· ≠ first) := by
  induction hlength : s.length using Nat.strongRecOn generalizing s with
  | ind n ih =>
    by_cases hmem : first ∈ s
    · obtain ⟨before, rest, rfl, hbefore⟩ := List.eq_append_cons_of_mem hmem
      have hshorter : (before ++ rest).length < n := by
        rw [← hlength, List.length_append, List.length_append, List.length_cons]
        omega
      have hself : cut first (first :: rest) = some ([], rest) := if_pos rfl
      rw [takeOut_eq, cut_first hbefore]
      dsimp only
      rw [hself]
      dsimp only
      rw [ih _ hshorter _ rfl, List.filter_append, List.filter_append,
        List.filter_cons_of_neg (by simp)]
    · rw [takeOut_of_notMem hmem, List.filter_eq_self.mpr]
      exact fun c hc => decide_eq_true (ne_of_mem_of_not_mem hc hmem)

theorem stretch_induction (first last : α) {P : List α → Prop} (plain : ∀ s, first ∉ s → P s)
    (opened : ∀ before behind, first ∉ before → last ∉ behind → P (before ++ first :: behind))
    (stretch : ∀ before inside rest, first ∉ before → last ∉ inside → P (before ++ rest) →
      P (before ++ first :: (inside ++ last :: rest))) (s : List α) : P s := by
  induction hlength : s.length using Nat.strongRecOn generalizing s with
  | ind n ih =>
    by_cases hmem : first ∈ s
    · obtain ⟨before, behind, rfl, hbefore⟩ := List.eq_append_cons_of_mem hmem
      by_cases hlast : last ∈ behind
      · obtain ⟨inside, rest, rfl, hinside⟩ := List.eq_append_cons_of_mem hlast
        refine stretch before inside rest hbefore hinside (ih (before ++ rest).length ?_ _ rfl)
        rw [← hlength]
        simp only [List.length_append, List.length_cons]
        omega
      · exact opened before behind hbefore hlast
    · exact plain s hmem

def outside (first last : α) : Bool → List α → List α
  | _, [] => []
  | false, c :: rest => if c = first then outside first last true rest else c ::
      outside first last false rest
  | true, c :: rest => if c = last then outside first last false rest
      else outside first last true rest

theorem outside_plain {before : List α} (hbefore : first ∉ before) (s : List α) :
    outside first last false (before ++ s) = before ++ outside first last false s := by
  induction before with
  | nil => rfl
  | cons c before ih =>
    rw [List.mem_cons, not_or] at hbefore
    rw [List.cons_append, outside, if_neg (Ne.symm hbefore.1), ih hbefore.2, List.cons_append]

theorem outside_inside {inside : List α} (hinside : last ∉ inside) (s : List α) :
    outside first last true (inside ++ s) = outside first last true s := by
  induction inside with
  | nil => rfl
  | cons c inside ih =>
    rw [List.mem_cons, not_or] at hinside
    rw [List.cons_append, outside, if_neg (Ne.symm hinside.1), ih hinside.2]

theorem outside_of_notMem {s : List α} (hfirst : first ∉ s) : outside first last false s = s := by
  have hplain : outside first last false (s ++ []) = s ++ outside first last false [] :=
    outside_plain hfirst []
  rwa [List.append_nil, outside, List.append_nil] at hplain

theorem outside_stretch {before inside : List α} (hbefore : first ∉ before)
    (hinside : last ∉ inside) (rest : List α) :
    outside first last false (before ++ first :: (inside ++ last :: rest)) =
      before ++ outside first last false rest := by
  rw [outside_plain hbefore, outside, if_pos rfl, outside_inside hinside, outside, if_pos rfl]

theorem takeOut_closed (hne : last ≠ first) {s : List α} (hlast : s.getLast? = some last) :
    takeOut first last s = outside first last false s := by
  induction s using stretch_induction first last with
  | plain s hplain => rw [takeOut_of_notMem hplain, outside_of_notMem hplain]
  | opened before behind hbefore hbehind =>
    rw [List.getLast?_append_cons, List.getLast?_cons] at hlast
    have hend := Option.some.inj hlast
    cases hbehind' : behind.getLast? with
    | none =>
      rw [hbehind', Option.getD_none] at hend
      exact absurd hend.symm hne
    | some c =>
      rw [hbehind', Option.getD_some] at hend
      exact absurd (hend ▸ List.mem_of_getLast? hbehind') hbehind
  | stretch before inside rest hbefore hinside ih =>
    rw [takeOut_stretch hbefore hne hinside, outside_stretch hbefore hinside]
    cases rest with
    | nil =>
      rw [List.append_nil, takeOut_of_notMem hbefore, outside, List.append_nil]
    | cons c rest =>
      have hsame : (before ++ c :: rest).getLast? = some last := by
        have hsplit : before ++ first :: (inside ++ last :: c :: rest) =
            (before ++ first :: (inside ++ [last])) ++ c :: rest := by simp
        rw [hsplit, List.getLast?_append_cons] at hlast
        rw [List.getLast?_append_cons, hlast]
      rw [ih hsame, outside_plain hbefore]

theorem takeOut_append (hne : last ≠ first) (s : List α) {tail : List α} (hfirst : first ∉ tail)
    (hlast : last ∉ tail) :
    ∃ kept, takeOut first last (s ++ tail) = kept ++ tail := by
  induction s using stretch_induction first last with
  | plain t hplain => exact ⟨t, takeOut_of_notMem (by simp [hplain, hfirst])⟩
  | opened before behind hbefore hbehind =>
    refine ⟨before ++ first :: behind, ?_⟩
    rw [List.append_assoc, List.cons_append]
    exact takeOut_open hbefore (by simp [hne, hbehind, hlast])
  | stretch before inside rest hbefore hinside ih =>
    obtain ⟨kept, hkept⟩ := ih
    refine ⟨kept, ?_⟩
    rw [← hkept, List.append_assoc, List.append_assoc, List.cons_append, List.append_assoc,
      List.cons_append,
      takeOut_stretch hbefore hne hinside]

end Inn.Foundation.Stretches
