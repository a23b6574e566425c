import Inn.Wildmat.Matching

/-!
# Simple expressions

The matcher is sound on every pattern of well-formed characters, by induction on
the pattern. `uwildmat_simple` therefore decides the language of its pattern.
-/

namespace Inn.Wildmat

open Ascii
open List (length_nil flatten_cons length_cons mem_cons_self)

section Steps

variable {fuel n : Nat} {t o : UInt8} {ts p : List UInt8}

theorem matchPattern_zero {text : List UInt8} :
    matchPattern fuel text p 0 = if text = [] then .yes else .no := by
  cases fuel <;> simp [matchPattern]

theorem matchPattern_question :
    matchPattern (fuel + 1) (t :: ts) (question :: p) (n + 1) =
      matchPattern fuel (ts.drop (trail t ts).length) p n := by
  rw [matchPattern, if_neg (by omega), if_neg (by simp), if_neg (by simp +decide),
    if_pos (by simp), width_eq, List.drop_succ_cons, List.tail_cons, Nat.add_sub_cancel]

theorem matchPattern_quoted :
    matchPattern (fuel + 1) (t :: ts) (backslash :: o :: p) (n + 2) =
      if o = 0 then .abort else if t = o then matchPattern fuel ts p n else .no := by
  rw [matchPattern, if_neg (by omega), if_neg (by simp), if_pos (by simp)]
  by_cases ht : t = o <;> simp [ht]

theorem matchPattern_trailing : matchPattern (fuel + 1) (t :: ts) [backslash] 1 = .abort := by
  rw [matchPattern, if_neg (by omega), if_neg (by simp), if_pos (by simp), if_pos (by rfl)]

theorem matchPattern_star_star {text : List UInt8} :
    matchPattern (fuel + 1) text (asterisk :: asterisk :: p) (n + 2) =
      matchPattern (fuel + 1) text (asterisk :: p) (n + 1) := by
  have hstars : n + 1 + 1 - ((p.takeWhile (· = asterisk)).length + 1 + 1) =
      n + 1 - ((p.takeWhile (· = asterisk)).length + 1) := by omega
  simp +decide [matchPattern, hstars]

theorem matchPattern_star_end {text : List UInt8} :
    matchPattern (fuel + 1) text (asterisk :: p) 1 = .yes := by
  have hstars : 1 - ((p.takeWhile (· = asterisk)).length + 1) = 0 := by omega
  simp +decide [matchPattern, hstars]

theorem matchPattern_star {text : List UInt8} (hp : deref p ≠ asterisk) :
    matchPattern (fuel + 1) text (asterisk :: p) (n + 1) =
      if n = 0 then .yes
      else if isMeta (deref p) then
        starLoop true (deref p) (fun text => matchPattern fuel text p n) 0 text
      else starLoop false (deref p) (fun text => matchPattern fuel text p.tail (n - 1)) 0 text := by
  have hstars : p.takeWhile (· = asterisk) = [] := by
    cases p with
    | nil => rfl
    | cons o p => simpa using hp
  simp +decide [matchPattern, hstars]

theorem literal_step {conts : List UInt8} (hplain : ∀ o ∈ conts, Plain o) :
    (if t = o then matchPattern (conts.length + fuel) ts (conts ++ p) (conts.length + n)
      else .no) =
      if o :: conts <+: t :: ts then
        matchPattern fuel ((t :: ts).drop (o :: conts).length) p n
      else if t :: ts <+: o :: conts then .abort
      else .no := by
  rw [matchPattern_literal hplain]
  by_cases ht : t = o
  · simp [ht, List.cons_prefix_cons]
  · simp [ht, Ne.symm ht, List.cons_prefix_cons]

end Steps

theorem plain_of_ne {o : UInt8} {conts : List UInt8} (hwf : WellFormed (o :: conts))
    (hstar : o :: conts ≠ [asterisk]) (hquestion : o :: conts ≠ [question])
    (hbackslash : o :: conts ≠ [backslash]) (hbracket : o :: conts ≠ [openBracket]) :
    Plain o := by
  refine ⟨?_, ?_, ?_, ?_⟩
  · rintro rfl
    exact hbackslash (by rw [hwf.tail_eq_nil (by decide)])
  · rintro rfl
    exact hquestion (by rw [hwf.tail_eq_nil (by decide)])
  · rintro rfl
    exact hstar (by rw [hwf.tail_eq_nil (by decide)])
  · rintro rfl
    exact hbracket (by rw [hwf.tail_eq_nil (by decide)])

def Decided (pcs : List Character) : Prop :=
  ∀ fuel text, pcs.flatten.length ≤ fuel →
    (matchPattern fuel text pcs.flatten pcs.flatten.length).Sound (parse pcs) (characters text)

section Cases

variable {o : UInt8} {conts : List UInt8} {pcs : List Character}

theorem decided_nil : Decided [] := by
  intro fuel text _
  rw [List.flatten_nil, length_nil, matchPattern_zero, parse_nil]
  cases text with
  | nil => exact characters_nil ▸ .nil
  | cons t ts => simp [Verdict.Sound, lang_nil_iff, characters_cons]

theorem decided_cons (hwf : WellFormed (o :: conts)) (hstar : o :: conts ≠ [asterisk])
    (hdecided : ∀ fuel t ts, conts.length + pcs.flatten.length ≤ fuel →
      (matchPattern (fuel + 1) (t :: ts) (o :: (conts ++ pcs.flatten))
        (conts.length + pcs.flatten.length + 1)).Sound (parse ((o :: conts) :: pcs))
        (characters (t :: ts))) : Decided ((o :: conts) :: pcs) := by
  intro fuel text hfuel
  rw [flatten_cons, List.cons_append, length_cons, List.length_append] at hfuel ⊢
  obtain ⟨fuel, rfl⟩ : ∃ fuel', fuel = fuel' + 1 := ⟨fuel - 1, by omega⟩
  cases text with
  | nil =>
    have hhead : o ≠ asterisk := by
      rintro rfl
      exact hstar (by rw [hwf.tail_eq_nil (by decide)])
    rw [matchPattern_at_end (by simpa using hhead)]
    intro k
    simpa [characters_nil] using not_lang_nil hstar
  | cons t ts => exact hdecided fuel t ts (by omega)

theorem decided_question (hdecided : Decided pcs) : Decided ([question] :: pcs) := by
  refine decided_cons (.ascii _ (by decide)) (by decide) fun fuel t ts hfuel => ?_
  rw [length_nil, Nat.zero_add] at hfuel ⊢
  rw [List.nil_append, matchPattern_question, parse_question, characters_cons]
  exact sound_cons takesOne_any .any (hdecided fuel _ hfuel)

theorem decided_trailing : Decided [[backslash]] := by
  refine decided_cons (.ascii _ (by decide)) (by decide) fun fuel t ts _ => ?_
  rw [parse_trailing]
  simp only [List.flatten_nil, List.append_nil, length_nil, Nat.zero_add]
  rw [matchPattern_trailing]
  exact fun k => not_lang_never

theorem decided_quoted (hwf : WellFormed (o :: conts)) (hnul : o ≠ 0) (hdecided : Decided pcs) :
    Decided ([backslash] :: (o :: conts) :: pcs) := by
  refine decided_cons (.ascii _ (by decide)) (by decide) fun fuel t ts hfuel => ?_
  simp only [flatten_cons, List.nil_append, List.cons_append, length_cons,
    List.length_append, length_nil, Nat.zero_add] at hfuel ⊢
  obtain ⟨fuel, rfl⟩ : ∃ fuel', fuel = conts.length + fuel' := ⟨fuel - conts.length, by omega⟩
  rw [matchPattern_quoted, if_neg hnul,
    literal_step fun o ho => plain_of_isContinuation (hwf.tail_isContinuation o ho), parse_quoted]
  exact sound_lit hwf (hdecided fuel _ (by omega))

theorem decided_lit (hwf : WellFormed (o :: conts)) (hstar : o :: conts ≠ [asterisk])
    (hquestion : o :: conts ≠ [question]) (hbackslash : o :: conts ≠ [backslash])
    (hbracket : o :: conts ≠ [openBracket]) (hdecided : Decided pcs) :
    Decided ((o :: conts) :: pcs) := by
  refine decided_cons hwf hstar fun fuel t ts hfuel => ?_
  obtain ⟨fuel, rfl⟩ : ∃ fuel', fuel = conts.length + fuel' := ⟨fuel - conts.length, by omega⟩
  rw [matchPattern_plain (plain_of_ne hwf hstar hquestion hbackslash hbracket),
    literal_step fun o ho => plain_of_isContinuation (hwf.tail_isContinuation o ho),
    parse_lit hstar hquestion hbackslash hbracket]
  exact sound_lit hwf (hdecided fuel _ (by omega))

theorem decided_unclosed (hwf : ∀ c ∈ pcs, WellFormed c)
    (hsplit : splitClass (classBody pcs) = none) : Decided ([openBracket] :: pcs) := by
  refine decided_cons (.ascii _ (by decide)) (by decide) fun fuel t ts _ => ?_
  rw [length_nil, Nat.zero_add, List.nil_append, matchPattern_unclosed hwf hsplit,
    parse_unclosed hsplit]
  exact fun k => not_lang_never

theorem decided_class {listed pcs' : List Character} (hwf : ∀ c ∈ pcs, WellFormed c)
    (hsplit : splitClass (classBody pcs) = some (listed, pcs')) (hdecided : Decided pcs') :
    Decided ([openBracket] :: pcs) := by
  refine decided_cons (.ascii _ (by decide)) (by decide) fun fuel t ts hfuel => ?_
  obtain ⟨contents, hcs, hhead, hcaret, hlisted⟩ := exists_class_contents hsplit
  have hmembers := matchClass_iff (codePoint (t :: trail t ts))
    (by
      intro c hc
      apply hwf
      rw [hcs]
      by_cases h : pcs.head? = some [caret]
      · exact List.mem_append_left _ (hcaret h ▸ List.mem_cons_of_mem _ hc)
      · exact List.mem_append_left _ (hlisted h ▸ hc))
    (hhead ▸ hcaret) (hhead ▸ hlisted)
  rw [hhead] at hmembers
  rw [length_nil, Nat.zero_add] at hfuel ⊢
  rw [List.nil_append, matchPattern_class hwf hsplit hcs hcaret hlisted, parse_class hsplit,
    characters_cons]
  split
  next hin =>
    have hflat := congrArg (List.length ∘ List.flatten) hcs
    simp only [Function.comp_apply, List.length_append, length_cons, List.flatten_append,
      flatten_cons] at hflat
    exact sound_cons (takesOne_cls _ _)
      (fun h => lang_cls_iff.mpr ⟨_, _, rfl, hmembers.mp hin, h⟩) (hdecided fuel _ (by omega))
  next hin =>
    intro h
    obtain ⟨c, cs', heq, hin', -⟩ := lang_cls_iff.mp h
    obtain ⟨rfl, rfl⟩ := List.cons_eq_cons.mp heq
    exact hin (hmembers.mpr hin')

theorem decided_star_end : Decided [[asterisk]] := by
  intro fuel text hfuel
  obtain ⟨fuel, rfl⟩ : ∃ fuel', fuel = fuel' + 1 := ⟨fuel - 1, by simp at hfuel; omega⟩
  rw [flatten_cons, List.flatten_nil, List.append_nil, List.length_singleton,
    matchPattern_star_end, parse_star, parse_nil]
  exact lang_star_iff.mpr ⟨(characters text).length, by simpa using .nil⟩

theorem decided_star_star (hdecided : Decided ([asterisk] :: pcs)) :
    Decided ([asterisk] :: [asterisk] :: pcs) := by
  intro fuel text hfuel
  obtain ⟨fuel, rfl⟩ : ∃ fuel', fuel = fuel' + 1 := ⟨fuel - 1, by simp at hfuel; omega⟩
  have hsound := hdecided (fuel + 1) text (by simp at hfuel ⊢; omega)
  simp only [flatten_cons, List.singleton_append, length_cons] at hsound ⊢
  rw [matchPattern_star_star]
  rw [parse_star] at hsound
  rw [parse_star, parse_star]
  revert hsound
  cases matchPattern (fuel + 1) text (asterisk :: pcs.flatten) (pcs.flatten.length + 1) <;>
    simp [Verdict.Sound, lang_star_star_iff]

theorem decided_star (hwf : WellFormed (o :: conts)) (hstar : o :: conts ≠ [asterisk])
    (hdecided : Decided ((o :: conts) :: pcs)) :
    Decided ([asterisk] :: (o :: conts) :: pcs) := by
  intro fuel text hfuel
  obtain ⟨fuel, rfl⟩ : ∃ fuel', fuel = fuel' + 1 := ⟨fuel - 1, by simp at hfuel; omega⟩
  have hhead : o ≠ asterisk := by
    rintro rfl
    exact hstar (by rw [hwf.tail_eq_nil (by decide)])
  rw [flatten_cons, List.singleton_append, length_cons] at hfuel ⊢
  rw [matchPattern_star (by simpa using hhead), if_neg (by simp), parse_star]
  split
  next hmeta =>
    refine starLoop_sound (Or.inl rfl) (not_lang_nil hstar) (fun t ts => ?_) text
    simpa [starAttempt] using hdecided fuel (t :: ts) (by omega)
  next hmeta =>
    -- The look-ahead saves a call that would fail on its first octet.
    refine starLoop_sound (Or.inr hwf.head_not_isContinuation) (not_lang_nil hstar)
      (fun t ts => ?_) text
    have ho : Plain o := by
      have hmeta : ¬(o = openBracket ∨ o = question ∨ o = backslash) :=
        fun h => hmeta (decide_eq_true h)
      rw [not_or, not_or] at hmeta
      exact ⟨hmeta.2.2, hmeta.2.1, hhead, hmeta.1⟩
    have hsound := hdecided (fuel + 1) (t :: ts) (by omega)
    rw [flatten_cons, List.cons_append, length_cons, matchPattern_plain ho] at hsound
    simpa [starAttempt] using hsound

end Cases

theorem decided_of_wellFormed {pcs : List Character} (hwf : ∀ c ∈ pcs, WellFormed c)
    (hnul : 0 ∉ pcs.flatten) : Decided pcs := by
  induction hlength : pcs.length using Nat.strong_induction_on generalizing pcs with
  | _ length ih =>
    cases pcs with
    | nil => exact decided_nil
    | cons c pcs =>
      have hc := hwf c (mem_cons_self ..)
      have hrest := fun d hd => hwf d (List.mem_cons_of_mem c hd)
      rw [length_cons] at hlength
      rw [flatten_cons, List.mem_append, not_or] at hnul
      have ihrest := ih pcs.length (by omega) hrest hnul.2 rfl
      obtain ⟨o, conts, rfl⟩ := hc.exists_eq_cons
      by_cases hstar : o :: conts = [asterisk]
      · rw [hstar]
        cases pcs with
        | nil => exact decided_star_end
        | cons d pcs =>
          have hd := hrest d (mem_cons_self ..)
          obtain ⟨o', conts', rfl⟩ := hd.exists_eq_cons
          by_cases hagain : o' :: conts' = [asterisk]
          · rw [hagain] at ihrest ⊢
            exact decided_star_star ihrest
          · exact decided_star hd hagain ihrest
      by_cases hquestion : o :: conts = [question]
      · rw [hquestion]
        exact decided_question ihrest
      by_cases hbackslash : o :: conts = [backslash]
      · rw [hbackslash]
        cases pcs with
        | nil => exact decided_trailing
        | cons d pcs =>
          have hd := hrest d (mem_cons_self ..)
          obtain ⟨o', conts', rfl⟩ := hd.exists_eq_cons
          have hnul' := hnul.2
          rw [flatten_cons, List.mem_append, not_or] at hnul'
          refine decided_quoted hd (fun h => hnul'.1 (h ▸ mem_cons_self ..)) ?_
          exact ih pcs.length (by rw [← hlength, length_cons]; omega)
            (fun d hd => hrest d (List.mem_cons_of_mem _ hd)) hnul'.2 rfl
      by_cases hbracket : o :: conts = [openBracket]
      · rw [hbracket]
        cases hsplit : splitClass (classBody pcs) with
        | none => exact decided_unclosed hrest hsplit
        | some found =>
          obtain ⟨listed, pcs'⟩ := found
          obtain ⟨contents, hcs, -⟩ := exists_class_contents hsplit
          have hlen := congrArg List.length hcs
          rw [List.length_append, length_cons] at hlen
          have hnul' := hnul.2
          rw [hcs, List.flatten_append, flatten_cons, List.mem_append, List.mem_append,
            not_or, not_or] at hnul'
          refine decided_class hrest hsplit (ih pcs'.length (by omega) (fun d hd => ?_)
            hnul'.2.2 rfl)
          exact hrest d (hcs ▸ List.mem_append_right _ (List.mem_cons_of_mem _ hd))
      exact decided_lit hc hstar hquestion hbackslash hbracket ihrest

theorem characters_of_wellFormed {cs : List Character} (hwf : ∀ c ∈ cs, WellFormed c) :
    characters cs.flatten = cs := by
  induction cs with
  | nil => exact characters_nil
  | cons c cs ih =>
    rw [flatten_cons, characters_append (hwf c (mem_cons_self ..)),
      ih fun d hd => hwf d (List.mem_cons_of_mem _ hd)]

/-- `uwildmat_simple` decides the language of a valid pattern, and a matcher
that aborts could not have matched from any later character on either. -/
theorem uwildmatSimple_iff (text pat : CString) (hvalid : ValidUtf8 pat.octets) :
    (uwildmatSimple text pat = true ↔ Matches pat.octets text.octets) ∧
    (matchPattern pat.octets.length text.octets pat.octets pat.octets.length = .abort →
      ∀ k, ¬Lang (parse (characters pat.octets)) ((characters text.octets).drop k)) := by
  obtain ⟨pcs, hwf, hpat⟩ := hvalid
  have hsound := decided_of_wellFormed hwf (hpat ▸ pat.noNul) pat.octets.length text.octets
    (by rw [hpat])
  rw [← hpat] at hsound
  rw [Matches, hpat, characters_of_wellFormed hwf, ← hpat]
  refine ⟨?_, fun habort => by rwa [habort] at hsound⟩
  unfold uwildmatSimple
  split
  next hstar =>
    have hpcs : pcs = [[asterisk]] := by
      rw [← characters_of_wellFormed hwf, ← hpat, hstar, characters_cons]
      simp [trail, characters_nil]
    simp only [hpcs, parse_star, parse_nil, lang_star_iff, lang_nil_iff, true_iff]
    exact ⟨(characters text.octets).length, by simp⟩
  next =>
    cases hverdict : matchPattern pat.octets.length text.octets pat.octets pat.octets.length with
    | yes => simpa [hverdict, Verdict.Sound] using hsound
    | no => simpa [hverdict, Verdict.Sound] using hsound
    | abort =>
      rw [hverdict] at hsound
      have hnot : ¬Lang (parse pcs) (characters text.octets) := by simpa using hsound 0
      simp [hverdict, hnot]

/-- `[^a-y]*é` on the text `zz`, malformed octet and all, followed by `é`. -/
theorem uwildmatSimple_accented :
    ValidUtf8 [openBracket, caret, 0x61, hyphen, 0x79, closeBracket, asterisk, 0xc3, 0xa9] ∧
    (uwildmatSimple ⟨[0x7a, 0x7a, 0xc3, 0xc3, 0xa9], by decide⟩
      ⟨[openBracket, caret, 0x61, hyphen, 0x79, closeBracket, asterisk, 0xc3, 0xa9], by decide⟩ ∧
    Matches [openBracket, caret, 0x61, hyphen, 0x79, closeBracket, asterisk, 0xc3, 0xa9]
      [0x7a, 0x7a, 0xc3, 0xc3, 0xa9]) := by
  have hvalid : ValidUtf8
      [openBracket, caret, 0x61, hyphen, 0x79, closeBracket, asterisk, 0xc3, 0xa9] := by
    refine ⟨[[openBracket], [caret], [0x61], [hyphen], [0x79], [closeBracket], [asterisk],
      [0xc3, 0xa9]], ?_, by decide⟩
    simp only [List.forall_mem_cons, List.not_mem_nil, false_imp_iff, implies_true, and_true]
    exact ⟨.ascii _ (by decide), .ascii _ (by decide), .ascii _ (by decide), .ascii _ (by decide),
      .ascii _ (by decide), .ascii _ (by decide), .ascii _ (by decide),
      .multi _ _ (by decide +kernel) (by decide +kernel) (by decide +kernel) (by decide +kernel)⟩
  have hmatched : uwildmatSimple ⟨[0x7a, 0x7a, 0xc3, 0xc3, 0xa9], by decide⟩
      ⟨[openBracket, caret, 0x61, hyphen, 0x79, closeBracket, asterisk, 0xc3, 0xa9],
        by decide⟩ = true := by
    decide
  exact ⟨hvalid, hmatched, (uwildmatSimple_iff _ _ hvalid).1.mp hmatched⟩

end Inn.Wildmat
