import Inn.Wildmat.Model

/-!
# The language of a wildmat pattern

A pattern is a list of characters and stands for a set of lists of characters.
Nothing here looks at octets: a pattern is parsed into elements, and an element
says which characters it takes.
-/

namespace Inn.Wildmat

open Ascii

inductive Elem
  | lit (c : Character)
  | any
  | star
  | cls (negated : Bool) (members : List (Nat × Nat))
  /-- An unclosed class or a trailing backslash. -/
  | never

def InClass (members : List (Nat × Nat)) (c : Nat) : Prop :=
  ∃ range ∈ members, range.1 ≤ c ∧ c ≤ range.2

inductive Lang : List Elem → List Character → Prop
  | nil : Lang [] []
  | lit {c ps cs} : Lang ps cs → Lang (.lit c :: ps) (c :: cs)
  | any {c ps cs} : Lang ps cs → Lang (.any :: ps) (c :: cs)
  | star {skipped ps cs} : Lang ps cs → Lang (.star :: ps) (skipped ++ cs)
  | listed {c members ps cs} : InClass members (codePoint c) → Lang ps cs →
      Lang (.cls false members :: ps) (c :: cs)
  | unlisted {c members ps cs} : ¬InClass members (codePoint c) → Lang ps cs →
      Lang (.cls true members :: ps) (c :: cs)

def classMembers : List Character → List (Nat × Nat)
  | [] => []
  | first :: cs =>
    (codePoint first, codePoint first) ::
      match cs with
      | dash :: last :: cs' =>
        if dash = [hyphen] then (codePoint first, codePoint last) :: classMembers cs'
        else classMembers (dash :: last :: cs')
      | cs => classMembers cs

local instance : LawfulBEq Character := inferInstance

def splitClass : List Character → Option (List Character × List Character)
  | [] => none
  | first :: cs =>
    if [closeBracket] ∈ cs then
      some (first :: cs.takeWhile (· ≠ [closeBracket]),
        (cs.dropWhile (· ≠ [closeBracket])).tail)
    else none

theorem splitClass_eq_some {body listed cs : List Character}
    (hsplit : splitClass body = some (listed, cs)) :
    body = listed ++ [closeBracket] :: cs ∧ listed ≠ [] ∧ [closeBracket] ∉ listed.tail := by
  cases body with
  | nil => simp [splitClass] at hsplit
  | cons first rest =>
    rw [splitClass] at hsplit
    split at hsplit
    next hmem =>
      simp only [Option.some.injEq, Prod.mk.injEq] at hsplit
      obtain ⟨rfl, rfl⟩ := hsplit
      have hne : rest.dropWhile (· ≠ [closeBracket]) ≠ [] := by
        intro hnil
        have := List.dropWhile_eq_nil_iff.mp hnil _ hmem
        simp at this
      have hhead : (rest.dropWhile (· ≠ [closeBracket])).head hne = [closeBracket] := by
        simpa using List.head_dropWhile_not (· ≠ [closeBracket]) hne
      refine ⟨?_, by simp, ?_⟩
      · calc first :: rest
            = first :: (rest.takeWhile (· ≠ [closeBracket]) ++
                rest.dropWhile (· ≠ [closeBracket])) := by rw [List.takeWhile_append_dropWhile]
          _ = _ := by
              conv_lhs => rw [← List.cons_head_tail hne, hhead]
              rfl
      · intro hlisted
        have := List.mem_takeWhile_imp hlisted
        simp at this
    next => simp at hsplit

theorem splitClass_eq_none {body : List Character} (hsplit : splitClass body = none) :
    [closeBracket] ∉ body.tail := by
  cases body with
  | nil => simp
  | cons first rest =>
    rw [splitClass] at hsplit
    split at hsplit
    next => simp at hsplit
    next hmem => simpa using hmem

def parse : List Character → List Elem
  | [] => []
  | c :: cs =>
    if c = [asterisk] then .star :: parse cs
    else if c = [question] then .any :: parse cs
    else if c = [backslash] then
      match cs with
      | [] => [.never]
      | quoted :: cs => .lit quoted :: parse cs
    else if c = [openBracket] then
      let negated : Bool := cs.head? = some [caret]
      match _hsplit : splitClass (if negated then cs.tail else cs) with
      | none => [.never]
      | some (listed, cs') => .cls negated (classMembers listed) :: parse cs'
    else .lit c :: parse cs
termination_by cs => cs.length
decreasing_by
  all_goals simp only [List.length_cons]
  · omega
  · omega
  · omega
  · have hbody := congrArg List.length (splitClass_eq_some _hsplit).1
    split at hbody <;> simp at hbody <;> omega
  · omega

/-- The text is in the language of the pattern. -/
def Matches (pattern text : List UInt8) : Prop :=
  Lang (parse (characters pattern)) (characters text)

variable {ps : List Elem} {cs : List Character}

theorem lang_nil_iff : Lang [] cs ↔ cs = [] :=
  ⟨fun h => by cases h; rfl, fun h => h ▸ .nil⟩

theorem lang_lit_iff {c : Character} :
    Lang (.lit c :: ps) cs ↔ ∃ cs', cs = c :: cs' ∧ Lang ps cs' := by
  constructor
  · intro h
    cases h with
    | lit h => exact ⟨_, rfl, h⟩
  · rintro ⟨cs', rfl, h⟩
    exact .lit h

theorem lang_any_iff : Lang (.any :: ps) cs ↔ ∃ c cs', cs = c :: cs' ∧ Lang ps cs' := by
  constructor
  · intro h
    cases h with
    | any h => exact ⟨_, _, rfl, h⟩
  · rintro ⟨c, cs', rfl, h⟩
    exact .any h

theorem lang_star_iff : Lang (.star :: ps) cs ↔ ∃ k, Lang ps (cs.drop k) := by
  constructor
  · intro h
    cases h with
    | @star skipped _ cs' h => exact ⟨skipped.length, by simpa using h⟩
  · rintro ⟨k, h⟩
    rw [← List.take_append_drop k cs]
    exact .star h

theorem lang_cls_iff {negated : Bool} {members : List (Nat × Nat)} :
    Lang (.cls negated members :: ps) cs ↔
      ∃ c cs', cs = c :: cs' ∧ (InClass members (codePoint c) ↔ negated = false) ∧ Lang ps cs' := by
  constructor
  · intro h
    cases h with
    | listed hin h => exact ⟨_, _, rfl, by simpa using hin, h⟩
    | unlisted hin h => exact ⟨_, _, rfl, by simpa using hin, h⟩
  · rintro ⟨c, cs', rfl, hin, h⟩
    cases negated with
    | false => exact .listed (by simpa using hin) h
    | true => exact .unlisted (by simpa using hin) h

theorem not_lang_never : ¬Lang (.never :: ps) cs := nofun

theorem lang_star_star_iff : Lang (.star :: .star :: ps) cs ↔ Lang (.star :: ps) cs := by
  simp only [lang_star_iff, List.drop_drop]
  exact ⟨fun ⟨j, k, h⟩ => ⟨_, h⟩, fun ⟨k, h⟩ => ⟨0, k, by simpa using h⟩⟩

theorem parse_nil : parse [] = [] := by rw [parse.eq_def]

theorem parse_star : parse ([asterisk] :: cs) = .star :: parse cs := by
  rw [parse.eq_def]; simp

theorem parse_question : parse ([question] :: cs) = .any :: parse cs := by
  rw [parse.eq_def]; simp +decide

theorem parse_trailing : parse [[backslash]] = [.never] := by
  rw [parse.eq_def]; simp +decide

theorem parse_quoted {quoted : Character} :
    parse ([backslash] :: quoted :: cs) = .lit quoted :: parse cs := by
  rw [parse.eq_def]; simp +decide

def classBody (cs : List Character) : List Character :=
  if cs.head? = some [caret] then cs.tail else cs

theorem parse_unclosed (hsplit : splitClass (classBody cs) = none) :
    parse ([openBracket] :: cs) = [.never] := by
  rw [classBody] at hsplit
  rw [parse.eq_def]
  simp only
  rw [if_neg (by decide), if_neg (by decide), if_neg (by decide), if_pos trivial]
  split <;> simp_all

theorem parse_class {listed cs' : List Character}
    (hsplit : splitClass (classBody cs) = some (listed, cs')) :
    parse ([openBracket] :: cs) =
      .cls (cs.head? = some [caret]) (classMembers listed) :: parse cs' := by
  rw [classBody] at hsplit
  rw [parse.eq_def]
  simp only
  rw [if_neg (by decide), if_neg (by decide), if_neg (by decide), if_pos trivial]
  split <;> simp_all

theorem parse_lit {c : Character} (hstar : c ≠ [asterisk]) (hquestion : c ≠ [question])
    (hbackslash : c ≠ [backslash]) (hbracket : c ≠ [openBracket]) :
    parse (c :: cs) = .lit c :: parse cs := by
  rw [parse.eq_def]; simp [hstar, hquestion, hbackslash, hbracket]

theorem not_lang_nil {c : Character} (hstar : c ≠ [asterisk]) : ¬Lang (parse (c :: cs)) [] := by
  rw [parse.eq_def]
  simp only [if_neg hstar]
  split
  next => simp [lang_any_iff]
  next =>
    split
    next =>
      split
      · exact not_lang_never
      · simp [lang_lit_iff]
    next =>
      split
      next =>
        split
        · exact not_lang_never
        · simp [lang_cls_iff]
      next => simp [lang_lit_iff]

end Inn.Wildmat
