import Inn.Foundation.Bounded
import Inn.Lib.WireText
import Inn.Wildmat.Model

/-!
# Looking through an article in wire format

A position in an article is what is left of it there, so that `end`, the last octet, is as far away
as the length less one. The functions look ahead for the end of a line, and for what comes behind a
fold.
-/

namespace Inn.Lib.Wire

open Wildmat (CString)
open Foundation.Bounded
open WireText (sameName)

def CRLF : Octets := [CR, LF]

def atCrlf (p : Octets) : Except Unit Bool := do
  if (← peek p 0) = CR then return (← peek p 1) = LF else return false

def findEmptyLine : Nat → Octets → Except Unit (Option Octets)
  | 0, _ => .ok none
  | bound + 1, p =>
    if 4 ≤ p.length then do
      match ← memchr CR p (p.length - 3) with
      | none => return none
      | some p =>
        if ← memcmp p (CRLF ++ CRLF) then return some (p.drop 4)
        else findEmptyLine bound (p.drop 1)
    else return none

def wireFindbody (article : Octets) : Except Unit (Option Octets) :=
  if 5 < article.length then do
    if ← atCrlf article then return some (article.drop 2)
    findEmptyLine article.length article
  else findEmptyLine article.length article

def nextLine : Nat → Octets → Except Unit (Option Octets)
  | 0, _ => .ok none
  | bound + 1, p =>
    if 3 ≤ p.length then do
      match ← memchr CR p (p.length - 3) with
      | none => return none
      | some p => if (← peek p 1) = LF then return some (p.drop 2) else nextLine bound (p.drop 1)
    else return none

def wireNextline (p : Octets) : Except Unit (Option Octets) := nextLine p.length p

def strncasecmp (line header : Octets) (length : Nat) : Except Unit Bool :=
  if length ≤ line.length then .ok (sameName (line.take length) header) else .error ()

def isheader (line : Octets) (header : CString) : Except Unit Bool := do
  if (← peek line header.octets.length) ≠ 58 then return false
  if !ISWHITE (← peek line (header.octets.length + 1)) then return false
  strncasecmp line header.octets header.octets.length

def atFold (p : Octets) : Except Unit Bool := do
  if ← atCrlf p then return ISWHITE (← peek p 2) else return false

def skipFws : Nat → Octets → Except Unit (Option Octets)
  | 0, _ => .ok none
  | bound + 1, p =>
    if p = [] then return none
    else do
      let p := if ← atFold p then p.drop 2 else p
      if !ISWHITE (← peek p 0) then return some p else skipFws bound (p.drop 1)

def skipFwsBounded (text : Octets) : Except Unit (Option Octets) := skipFws (text.length + 1) text

def findHeader (header : CString) (stripspaces : Bool) : Nat → Octets → Except Unit (Option Octets)
  | 0, _ => .ok none
  | bound + 1, p =>
    let next (p : Octets) := do
      match ← wireNextline p with
      | none => return none
      | some p => findHeader header stripspaces bound p
    -- the octet that `end` points to is left out of this
    if header.octets.length + 2 < p.length - 1 then do
      if ← atCrlf p then return none
      if ← isheader p header then
        let p := p.drop (header.octets.length + 2)
        match ← if stripspaces then skipFwsBounded p else pure (some p) with
        | none => return none
        | some p =>
          if p.length ≤ 1 then return some p
          if ← atCrlf p then next p else return some p
      else next p
    else return none

def wireFindheader (article : Octets) (header : CString) (stripspaces : Bool) :
    Except Unit (Option Octets) :=
  findHeader header stripspaces (article.length + 1) article

def endHeader (header : Octets) : Nat → Option Octets → Except Unit (Option Nat)
  | 0, _ => .ok none
  | _ + 1, none =>
    if 1 < header.length then do
      if (← peek header (header.length - 1)) = LF then
        if (← peek header (header.length - 2)) = CR then return some (header.length - 1)
      return none
    else return none
  | bound + 1, some p => do
      if !ISWHITE (← peek p 0) then return some (header.length - p.length - 1)
      else endHeader header bound (← wireNextline p)

def wireEndheader (header : Octets) : Except Unit (Option Nat) := do
  endHeader header (header.length + 1) (← wireNextline header)

def lineAfter : Octets → Option Octets
  | c :: d :: e :: rest => if c = CR ∧ d = LF then some (e :: rest) else lineAfter (d :: e :: rest)
  | _ => none

theorem lineAfter_some {p q : Octets} (h : lineAfter p = some q) :
    q ≠ [] ∧ ∃ before, p = before ++ CR :: LF :: q := by
  fun_induction lineAfter p with
  | case1 c d e rest hcrlf =>
    obtain ⟨rfl, rfl⟩ := hcrlf
    cases h
    exact ⟨List.cons_ne_nil _ _, [], rfl⟩
  | case2 c d e rest hno ih =>
    obtain ⟨hne, before, hbefore⟩ := ih h
    exact ⟨hne, c :: before, by rw [hbefore, List.cons_append]⟩
  | case3 => cases h

theorem lineAfter_length {p q : Octets} (h : lineAfter p = some q) : q.length + 2 ≤ p.length := by
  obtain ⟨-, before, rfl⟩ := lineAfter_some h
  simp only [List.length_append, List.length_cons]
  omega

theorem lineAfter_cons {c : UInt8} {p : Octets} (hno : ¬(c = CR ∧ p.head? = some LF)) :
    lineAfter (c :: p) = lineAfter p := by
  match p with
  | [] => rfl
  | [d] => rfl
  | d :: e :: rest =>
    rw [lineAfter, if_neg]
    rintro ⟨hc, hd⟩
    exact hno ⟨hc, congrArg some hd⟩

theorem lineAfter_skip {before : Octets} (hbefore : CR ∉ before) (p : Octets) :
    lineAfter (before ++ p) = lineAfter p := by
  induction before with
  | nil => rfl
  | cons c before ih =>
    rw [List.cons_append, lineAfter_cons, ih fun h => hbefore (List.mem_cons_of_mem _ h)]
    rintro ⟨rfl, -⟩
    exact hbefore List.mem_cons_self

theorem lineAfter_missing {p : Octets} (hmissing : CR ∉ p.take (p.length - 3)) :
    (lineAfter p).filter (fun q => 2 ≤ q.length) = none := by
  cases hline : lineAfter p with
  | none => rfl
  | some q =>
    obtain ⟨-, before, rfl⟩ := lineAfter_some hline
    have hshort : ¬2 ≤ q.length := by
      intro hlong
      obtain ⟨n, hn⟩ : ∃ n, (before ++ CR :: LF :: q).length - 3 = before.length + (n + 1) := by
        refine ⟨q.length - 2, ?_⟩
        simp only [List.length_append, List.length_cons]
        omega
      rw [hn, List.take_length_add_append, List.take_succ_cons] at hmissing
      exact hmissing (List.mem_append_right _ List.mem_cons_self)
    rw [Option.filter_some, if_neg (by simpa using hshort)]

theorem nextLine_eq {bound : Nat} {p : Octets} (hbound : p.length ≤ bound) :
    nextLine bound p = .ok ((lineAfter p).filter fun q => 2 ≤ q.length) := by
  induction bound generalizing p with
  | zero =>
    obtain rfl := List.length_eq_zero_iff.mp (Nat.le_zero.mp hbound)
    rfl
  | succ bound ih =>
    rw [nextLine]
    split
    next hlong =>
      obtain ⟨found, hfound, hspec⟩ := memchr_found CR (Nat.sub_le p.length 3)
      rw [hfound]
      cases hspec with
      | missing hmissing =>
        rw [lineAfter_missing hmissing]
        rfl
      | present before rest hp hbefore hlt =>
        subst hp
        rw [List.length_append, List.length_cons] at hbound hlt
        rw [lineAfter_skip hbefore]
        match rest with
        | [] => exact absurd hlt (by simp only [List.length_nil]; omega)
        | [d] => exact absurd hlt (by simp only [List.length_cons, List.length_nil]; omega)
        | d :: e :: rest =>
          simp only [bind, Except.bind, peek, List.getElem?_cons_succ, List.getElem?_cons_zero]
          split
          next hd =>
            rw [lineAfter, if_pos ⟨rfl, hd⟩, Option.filter_some, if_pos]
            · rfl
            · simp only [List.length_cons] at hlt ⊢
              exact decide_eq_true (by omega)
          next hd =>
            rw [lineAfter_cons fun h : CR = CR ∧ some d = some LF => hd (Option.some.inj h.2)]
            exact ih (by simp only [List.drop_succ_cons, List.drop_zero,
              List.length_cons] at hbound ⊢; omega)
    next hshort =>
      cases hline : lineAfter p with
      | none => rfl
      | some q =>
        obtain ⟨hne, -⟩ := lineAfter_some hline
        have hlength := lineAfter_length hline
        have := List.length_pos_iff.mpr hne
        omega

theorem wireNextline_eq (p : Octets) :
    wireNextline p = .ok ((lineAfter p).filter fun q => 2 ≤ q.length) :=
  nextLine_eq (Nat.le_refl _)

theorem lineAfter_text (p : Octets) :
    ((lineAfter p).filter fun q => 2 ≤ q.length) = WireText.wireNextline p := by
  induction p with
  | nil => rfl
  | cons c p ih =>
    rw [WireText.wireNextline]
    split
    next hshort =>
      refine Option.filter_eq_none_iff.mpr fun q hq => ?_
      have hlength := lineAfter_length hq
      rw [List.length_cons] at hlength
      rw [decide_eq_true_eq]
      omega
    next hlong =>
      obtain _ | ⟨d, _ | ⟨e, rest⟩⟩ := p
      · exact absurd (Nat.zero_lt_succ 2) hlong
      · exact absurd (by decide : 1 < 3) hlong
      · rw [List.headD_cons, List.tail_cons]
        split
        next hcrlf =>
          rw [lineAfter, if_pos (show c = CR ∧ d = LF from hcrlf), Option.filter_some, if_pos]
          simp only [List.length_cons] at hlong ⊢
          exact decide_eq_true (by omega)
        next hno => rw [lineAfter, if_neg (show ¬(c = CR ∧ d = LF) from hno), ih]

/-- The next line is found within the bounds, and is the one that `WireText` finds without them. -/
theorem wireNextline_text (p : Octets) : wireNextline p = .ok (WireText.wireNextline p) := by
  rw [wireNextline_eq, lineAfter_text]

theorem wireNextline_eq_iff (p : Octets) :
    wireNextline p = .ok (lineAfter p) ↔ ∀ q, lineAfter p = some q → 2 ≤ q.length := by
  rw [wireNextline_eq, Except.ok.injEq]
  cases hline : lineAfter p with
  | none => exact ⟨fun _ => nofun, fun _ => rfl⟩
  | some q =>
    rw [Option.filter_some_eq_some, decide_eq_true_eq]
    exact ⟨fun h q' hq' => Option.some.inj hq' ▸ h, fun h => h q rfl⟩

theorem findEmptyLine_missing {p : Octets} (hmissing : CR ∉ p.take (p.length - 3)) :
    WireText.findEmptyLine p = none := by
  induction p with
  | nil => rfl
  | cons c p ih =>
    rw [WireText.findEmptyLine]
    split
    next hshort => rfl
    next hlong =>
      obtain ⟨n, hn⟩ : ∃ n, p.length = n + 3 := ⟨p.length - 3, by omega⟩
      rw [List.length_cons, hn,
        show n + 3 + 1 - 3 = n + 1 by omega, List.take_succ_cons, List.mem_cons, not_or] at hmissing
      rw [if_neg fun h => hmissing.1 h.1.symm,
        ih (by rw [hn, Nat.add_sub_cancel]; exact hmissing.2), Option.map_none]

theorem findEmptyLine_skip {before p : Octets} (hbefore : CR ∉ before) (hlong : 4 ≤ p.length) :
    WireText.findEmptyLine (before ++ p) = (WireText.findEmptyLine p).map (· + before.length) := by
  induction before with
  | nil => exact Option.map_id'.symm ▸ rfl
  | cons c before ih =>
    rw [List.mem_cons, not_or] at hbefore
    have hroom : ¬(before ++ p).length < 3 := by
      rw [List.length_append]
      omega
    rw [List.cons_append, WireText.findEmptyLine, if_neg hroom,
      if_neg fun h => hbefore.1 h.1.symm, ih hbefore.2,
      Option.map_map]
    rfl

theorem findEmptyLine_eq {bound : Nat} {p : Octets} (hbound : p.length ≤ bound) :
    findEmptyLine bound p = .ok ((WireText.findEmptyLine p).map p.drop) := by
  induction bound generalizing p with
  | zero =>
    obtain rfl := List.length_eq_zero_iff.mp (Nat.le_zero.mp hbound)
    rfl
  | succ bound ih =>
    rw [findEmptyLine]
    split
    next hlong =>
      obtain ⟨found, hfound, hspec⟩ := memchr_found CR (Nat.sub_le p.length 3)
      rw [hfound]
      cases hspec with
      | missing hmissing =>
        rw [findEmptyLine_missing hmissing]
        rfl
      | present before rest hp hbefore hlt =>
        rw [hp, List.length_append, List.length_cons] at hbound hlt
        have hrest : 3 ≤ rest.length := by omega
        have hdrop :
            (fun k => (before ++ CR :: rest).drop (k + before.length)) = (CR :: rest).drop :=
          funext fun k => by rw [Nat.add_comm, List.drop_length_add_append]
        have hfour : 4 ≤ (CR :: rest).length := Nat.succ_le_succ hrest
        have hsame : memcmp (CR :: rest) (CRLF ++ CRLF) =
            .ok (decide (CR = 13 ∧ rest.take 3 = [10, 13, 10])) := by
          rw [memcmp, if_pos (show (CRLF ++ CRLF).length ≤ _ from hfour)]
          exact congrArg Except.ok (decide_eq_decide.mpr List.cons_eq_cons)
        rw [hp, findEmptyLine_skip hbefore hfour, Option.map_map, Function.comp_def, hdrop,
          WireText.findEmptyLine, if_neg (Nat.not_lt.mpr hrest)]
        simp only [bind, Except.bind, hsame, decide_eq_true_eq]
        split
        · rfl
        · rw [List.drop_one, List.tail_cons, ih (by omega), Option.map_map]
          rfl
    next hshort =>
      have hnone : WireText.findEmptyLine p = none :=
        findEmptyLine_missing
          (by rw [Nat.sub_eq_zero_of_le (by omega), List.take_zero]; exact List.not_mem_nil)
      rw [hnone]
      rfl

theorem atCrlf_eq {p : Octets} (hlong : 2 ≤ p.length) : atCrlf p = .ok (decide (CRLF <+: p)) := by
  match p with
  | c :: d :: rest =>
    simp only [atCrlf, bind, Except.bind, peek, List.getElem?_cons_zero,
      List.getElem?_cons_succ, CRLF,
      List.cons_prefix_cons, List.nil_prefix, and_true]
    split
    next hc =>
      rw [decide_eq_decide.mpr ((and_iff_right hc.symm).trans eq_comm)]
      rfl
    next hc =>
      rw [decide_eq_false fun h => hc h.1.symm]
      rfl

/-- The body is found within the bounds, and is where `WireText` finds it without them. -/
theorem wireFindbody_text (article : Octets) :
    wireFindbody article = .ok ((WireText.wireFindbody article).map article.drop) := by
  rw [wireFindbody, WireText.wireFindbody]
  split
  next hlong =>
    rw [atCrlf_eq (by omega)]
    have hcrlf : CRLF <+: article ↔ article.take 2 = [13, 10] :=
      List.prefix_iff_eq_take.trans eq_comm
    simp only [bind, Except.bind, decide_eq_true_eq, hcrlf, and_iff_right hlong]
    split
    · rfl
    · exact findEmptyLine_eq (Nat.le_refl _)
  next hshort => rw [if_neg fun h => hshort h.1, findEmptyLine_eq (Nat.le_refl _)]

def skipBlanks : Octets → Octets
  | c :: d :: e :: rest =>
    if ISWHITE c then skipBlanks (d :: e :: rest)
    else if c = CR ∧ d = LF ∧ ISWHITE e then skipBlanks rest
    else c :: d :: e :: rest
  | text => text.dropWhile ISWHITE

theorem skipBlanks_white {c : UInt8} (hwhite : ISWHITE c) (rest : Octets) :
    skipBlanks (c :: rest) = skipBlanks rest := by
  match rest with
  | [] => exact List.dropWhile_cons_of_pos hwhite
  | [_] => exact List.dropWhile_cons_of_pos hwhite
  | _ :: _ :: _ => exact if_pos hwhite

theorem skipBlanks_fold {e : UInt8} (hwhite : ISWHITE e) (rest : Octets) :
    skipBlanks (CR :: LF :: e :: rest) = skipBlanks rest := by
  rw [skipBlanks, if_neg (by decide), if_pos ⟨rfl, rfl, hwhite⟩]

theorem skipBlanks_text {c : UInt8} {rest : Octets} (hwhite : ¬ISWHITE c)
    (hfold : ∀ e rest', c :: rest = CR :: LF :: e :: rest' → ¬ISWHITE e) :
    skipBlanks (c :: rest) = c :: rest := by
  match rest with
  | [] => exact List.dropWhile_cons_of_neg hwhite
  | [_] => exact List.dropWhile_cons_of_neg hwhite
  | d :: e :: rest' =>
    rw [skipBlanks, if_neg hwhite, if_neg]
    rintro ⟨rfl, rfl, he⟩
    exact hfold e rest' rfl he

theorem skipBlanks_length (p : Octets) : (skipBlanks p).length ≤ p.length := by
  fun_induction skipBlanks p with
  | case1 c d e rest hwhite ih => exact Nat.le_succ_of_le ih
  | case2 c d e rest hwhite hfold ih => exact ih.trans (Nat.le_add_right _ 3)
  | case3 c d e rest hwhite hfold => exact Nat.le_refl _
  | case4 text => exact (List.dropWhile_suffix _).length_le

theorem atFold_other {c : UInt8} (hc : c ≠ CR) (rest : Octets) :
    atFold (c :: rest) = .ok false := by
  simp only [atFold, atCrlf, peek, List.getElem?_cons_zero, bind, Except.bind, if_neg hc]
  rfl

theorem atFold_cr {d : UInt8} (hd : d ≠ LF) (rest : Octets) :
    atFold (CR :: d :: rest) = .ok false := by
  simp only [atFold, atCrlf, peek, List.getElem?_cons_zero, List.getElem?_cons_succ,
    bind, Except.bind]
  rw [if_pos trivial, decide_eq_false hd]
  rfl

theorem atFold_crlf (e : UInt8) (rest : Octets) :
    atFold (CR :: LF :: e :: rest) = .ok (ISWHITE e) := rfl

def skipped (text : Octets) : Except Unit (Option Octets) :=
  if text = [CR] ∨ text = CRLF then .error () else .ok (if text = [] then none else some text)

theorem skipped_cons {c : UInt8} {rest : Octets} (hread : ¬(c :: rest = [CR] ∨ c :: rest = CRLF)) :
    skipped (c :: rest) = .ok (some (c :: rest)) := by
  rw [skipped, if_neg hread, if_neg (List.cons_ne_nil _ _)]

theorem skipFws_eq {bound : Nat} {p : Octets} (hbound : p.length < bound) :
    skipFws bound p = skipped (skipBlanks p) := by
  induction bound generalizing p with
  | zero => exact absurd hbound (Nat.not_lt_zero _)
  | succ bound ih =>
    rw [skipFws]
    -- where the turn ends
    have hturn : ∀ {c rest}, ¬ISWHITE c → atFold (c :: rest) = .ok false →
        (do
          let p := if ← atFold (c :: rest) then (c :: rest).drop 2 else c :: rest
          if !ISWHITE (← peek p 0) then return some p else skipFws bound (p.drop 1)) =
            .ok (some (c :: rest)) := by
      intro c rest hwhite hfold
      rw [hfold]
      simp only [bind, Except.bind, peek, List.getElem?_cons_zero, Bool.false_eq_true, if_false]
      rw [if_pos (by rw [Bool.eq_false_iff.mpr hwhite]; rfl)]
      rfl
    cases p with
    | nil => rfl
    | cons c rest =>
      rw [if_neg (List.cons_ne_nil _ _)]
      have hrest : rest.length < bound := Nat.lt_of_succ_lt_succ hbound
      by_cases hwhite : ISWHITE c
      · have hc : c ≠ CR := by
          rintro rfl
          exact absurd hwhite (by decide)
        rw [atFold_other hc, skipBlanks_white hwhite, ← ih hrest]
        simp only [bind, Except.bind, peek, List.getElem?_cons_zero, Bool.false_eq_true,
          if_false, hwhite,
          Bool.not_true]
        rfl
      by_cases hc : c = CR
      · subst hc
        obtain _ | ⟨d, _ | ⟨e, rest'⟩⟩ := rest
        · rfl
        · by_cases hd : d = LF
          · subst hd
            rfl
          · rw [hturn hwhite (atFold_cr hd []),
              skipBlanks_text hwhite (by rintro _ _ ⟨⟩), skipped_cons]
            rintro (h | h)
            · cases h
            · exact hd (List.cons.inj (List.cons.inj h).2).1
        · have hread : ¬(CR :: d :: e :: rest' = [CR] ∨ CR :: d :: e :: rest' = CRLF) := by
            rintro (h | h) <;> cases h
          by_cases hd : d = LF
          · subst hd
            by_cases he : ISWHITE e
            · rw [atFold_crlf, he, skipBlanks_fold he,
                ← ih (Nat.lt_of_succ_lt (Nat.lt_of_succ_lt hrest))]
              simp only [bind, Except.bind, if_true, peek, List.drop_succ_cons, List.drop_zero,
                List.getElem?_cons_zero,
                he, Bool.not_true, Bool.false_eq_true, if_false]
            · rw [hturn hwhite (by rw [atFold_crlf, Bool.eq_false_iff.mpr he]),
                skipBlanks_text hwhite,
                skipped_cons hread]
              rintro e' rest'' heq
              obtain ⟨rfl, rfl⟩ := List.cons.inj (List.cons.inj (List.cons.inj heq).2).2
              exact he
          · rw [hturn hwhite (atFold_cr hd _), skipBlanks_text hwhite, skipped_cons hread]
            rintro e' rest'' heq
            exact absurd (List.cons.inj (List.cons.inj heq).2).1 hd
      · have hread : ¬(c :: rest = [CR] ∨ c :: rest = CRLF) := by
          rintro (h | h)
          · exact hc (List.cons.inj h).1
          · exact hc (List.cons.inj h).1
        rw [hturn hwhite (atFold_other hc rest), skipBlanks_text hwhite, skipped_cons hread]
        rintro e' rest'' heq
        exact absurd (List.cons.inj heq).1 hc

theorem skipFwsBounded_eq (text : Octets) : skipFwsBounded text = skipped (skipBlanks text) :=
  skipFws_eq (Nat.lt_succ_self _)

theorem atFold_ok {c : UInt8} {rest : Octets} {fold : Bool} (h : atFold (c :: rest) = .ok fold) :
    fold = true ↔ (c :: rest).headD 0 = 13 ∧ (c :: rest).getD 1 0 = 10 ∧
      ISWHITE ((c :: rest).getD 2 0) := by
  by_cases hc : c = CR
  · subst hc
    obtain _ | ⟨d, rest⟩ := rest
    · cases h
    by_cases hd : d = LF
    · subst hd
      obtain _ | ⟨e, rest⟩ := rest
      · cases h
      · rw [atFold_crlf, Except.ok.injEq] at h
        exact h ▸ ⟨fun he => ⟨rfl, rfl, he⟩, fun he => he.2.2⟩
    · rw [atFold_cr hd, Except.ok.injEq] at h
      exact h ▸ ⟨fun hfalse => absurd hfalse Bool.false_ne_true, fun hfold => absurd hfold.2.1 hd⟩
  · rw [atFold_other hc, Except.ok.injEq] at h
    exact h ▸ ⟨fun hfalse => absurd hfalse Bool.false_ne_true, fun hfold => absurd hfold.1 hc⟩

theorem skipFws_text {bound : Nat} {p : Octets} {found : Option Octets} (hbound : p.length ≤ bound)
    (h : skipFws (bound + 1) p = .ok found) : WireText.skipFwsBounded bound p = found := by
  induction bound generalizing p with
  | zero =>
    obtain rfl := List.length_eq_zero_iff.mp (Nat.le_zero.mp hbound)
    exact Except.ok.inj h
  | succ bound ih =>
    rw [skipFws] at h
    cases p with
    | nil => exact Except.ok.inj h
    | cons c rest =>
      rw [if_neg (List.cons_ne_nil _ _)] at h
      cases hfold : atFold (c :: rest) with
      | error => rw [hfold] at h; cases h
      | ok fold =>
        obtain ⟨text, htext⟩ : ∃ text, text = if fold then (c :: rest).drop 2 else c :: rest :=
          ⟨_, rfl⟩
        have hlength : text.length ≤ bound + 1 := by
          rw [htext]
          split
          · exact (List.drop_suffix ..).length_le.trans hbound
          · exact hbound
        have hsame : WireText.skipFwsBounded (bound + 1) (c :: rest) =
            if ISWHITE (text.headD 0) then WireText.skipFwsBounded bound text.tail
              else some text := by
          rw [htext, WireText.skipFwsBounded, if_congr (atFold_ok hfold) rfl rfl]
          exact List.cons_ne_nil _ _
        rw [hfold] at h
        simp only [bind, Except.bind, ← htext] at h
        rw [hsame]
        cases text with
        | nil => cases h
        | cons d text =>
          simp only [peek, List.getElem?_cons_zero, Bool.not_eq_true', List.drop_succ_cons,
            List.drop_zero] at h
          rw [List.headD_cons, List.tail_cons]
          split at h
          next hwhite =>
            rw [if_neg (Bool.eq_false_iff.mp hwhite)]
            exact Except.ok.inj h
          next hwhite =>
            rw [if_pos (Bool.not_eq_false _ ▸ hwhite)]
            exact ih (Nat.le_of_succ_le_succ hlength) h

section Turns

variable {header : CString} {p : Octets}

def IsField (header : CString) (p : Octets) : Prop :=
  p[header.octets.length]? = some 58 ∧ (∃ c ∈ p[header.octets.length + 1]?, ISWHITE c) ∧
    sameName (p.take header.octets.length) header.octets

def content (header : CString) (p : Octets) : Octets :=
    skipBlanks (p.drop (header.octets.length + 2))

instance (header : CString) (p : Octets) : Decidable (IsField header p) :=
    inferInstanceAs (Decidable (_ ∧ _ ∧ _))

theorem isheader_eq (hlong : header.octets.length + 2 ≤ p.length) :
    isheader p header = .ok (decide (IsField header p)) := by
  have hcolon := List.getElem?_eq_getElem (l := p) (i := header.octets.length) (by omega)
  have hblank := List.getElem?_eq_getElem (l := p) (i := header.octets.length + 1) (by omega)
  have hfield :
      IsField header p ↔ p[header.octets.length] = 58 ∧ ISWHITE p[header.octets.length + 1] ∧
      sameName (p.take header.octets.length) header.octets := by
    rw [IsField, hcolon, hblank, Option.some.injEq]
    simp only [Option.mem_def, Option.some.injEq, exists_eq_left']
  simp only [isheader, peek_ok hcolon, peek_ok hblank, strncasecmp,
    if_pos (show header.octets.length ≤ p.length by omega), bind, Except.bind,
      decide_eq_decide.mpr hfield]
  by_cases hc : p[header.octets.length] = 58
  · rw [if_neg (not_not.mpr hc)]
    simp only [hc, true_and]
    by_cases hwhite : ISWHITE p[header.octets.length + 1]
    · simp only [hwhite, Bool.not_true, Bool.false_eq_true, if_false, true_and, Bool.decide_eq_true]
    · rw [if_pos (by simp [hwhite]), decide_eq_false fun h => hwhite h.1]
      rfl
  · rw [if_pos hc, decide_eq_false fun h => hc h.1]
    rfl

def onward (turn : Octets → Except Unit (Option Octets)) (p : Octets) :
    Except Unit (Option Octets) :=
  match (lineAfter p).filter fun q => 2 ≤ q.length with
  | none => .ok none
  | some q => turn q

theorem findHeader_long (stripspaces : Bool) (bound : Nat)
    (hlong : header.octets.length + 3 < p.length) :
    findHeader header stripspaces (bound + 1) p =
      if CRLF <+: p then .ok none
      else if IsField header p then
        (if stripspaces then skipped (content header p) else .ok (some (p.drop (header.octets.length + 2)))).bind fun
          | none => .ok none
          | some text =>
            if text.length ≤ 1 ∨ ¬CRLF <+: text then .ok (some text)
            else onward (findHeader header stripspaces bound) text
      else onward (findHeader header stripspaces bound) p := by
  rw [findHeader, if_pos (by omega), atCrlf_eq (by omega), isheader_eq (by omega)]
  have honward : ∀ p, (do
      match ← wireNextline p with
      | none => return none
      | some p => findHeader header stripspaces bound p : Except Unit (Option Octets)) =
        onward (findHeader header stripspaces bound) p := by
    intro p
    rw [wireNextline_eq, onward]
    simp only [bind, Except.bind]
    rfl
  have htext : ∀ text : Octets, (if text.length ≤ 1 then .ok (some text)
      else do if ← atCrlf text then onward (findHeader header stripspaces bound) text else return some text) =
        if text.length ≤ 1 ∨ ¬CRLF <+: text then .ok (some text)
        else onward (findHeader header stripspaces bound) text := by
    intro text
    by_cases hone : text.length ≤ 1
    · rw [if_pos hone, if_pos (.inl hone)]
    · rw [if_neg hone, atCrlf_eq (by omega)]
      by_cases hcrlf : CRLF <+: text
      · rw [if_neg (by tauto)]
        exact if_pos (decide_eq_true hcrlf)
      · rw [if_pos (.inr hcrlf)]
        exact if_neg (by rwa [decide_eq_true_eq])
  simp only [honward]
  simp only [bind, Except.bind, pure, Except.pure, skipFwsBounded_eq, decide_eq_true_eq] at htext ⊢
  simp only [htext]
  cases stripspaces <;> rfl

theorem isheader_text (hlong : header.octets.length + 2 ≤ p.length) :
    WireText.isheader p header.octets ↔ IsField header p := by
  have hcolon := List.getElem?_eq_getElem (l := p) (i := header.octets.length) (by omega)
  have hblank := List.getElem?_eq_getElem (l := p) (i := header.octets.length + 1) (by omega)
  rw [WireText.isheader, WireText.startsWith, Bool.and_eq_true, Bool.and_eq_true, decide_eq_true_eq,
    and_assoc, IsField,
    List.getD_eq_getElem?_getD, List.getD_eq_getElem?_getD, hcolon, hblank]
  simp only [Option.getD_some, Option.some.injEq, Option.mem_def, exists_eq_left']

theorem onward_text {turn : Octets → Except Unit (Option Octets)} {pure : Octets → Option Octets}
    {found : Option Octets}
    (hturn : ∀ q, turn q = .ok found → pure q = found) (h : onward turn p = .ok found) :
    (WireText.wireNextline p).bind pure = found := by
  rw [onward, lineAfter_text] at h
  cases hnext : WireText.wireNextline p with
  | none =>
    rw [hnext] at h
    exact Except.ok.inj h
  | some q =>
    rw [hnext] at h
    exact hturn q h

theorem atEnd_text {text : Octets} (hlong : ¬text.length ≤ 1) :
    CRLF <+: text ↔ text.headD 0 = CR ∧ text.getD 1 0 = LF := by
  match text with
  | [] => exact absurd (Nat.zero_le _) hlong
  | [_] => exact absurd (Nat.le_refl _) hlong
  | c :: d :: rest =>
    rw [CRLF, List.cons_prefix_cons, List.cons_prefix_cons, and_iff_left (List.nil_prefix)]
    exact and_congr eq_comm eq_comm

theorem content_text {stripspaces : Bool} {value : Option Octets}
    (h : (if stripspaces then skipped (content header p)
      else .ok (some (p.drop (header.octets.length + 2)))) = .ok value) :
    (if stripspaces then
        WireText.skipFwsBounded (p.drop (header.octets.length + 2)).length
          (p.drop (header.octets.length + 2))
      else some (p.drop (header.octets.length + 2))) = value := by
  cases stripspaces with
  | false => exact Except.ok.inj h
  | true => exact skipFws_text (Nat.le_refl _) ((skipFwsBounded_eq _).trans h)

/-- Where no read is out of bounds, the header is the one that `WireText` finds. -/
theorem findHeader_text {stripspaces : Bool} {bound : Nat} {found : Option Octets}
    (h : findHeader header stripspaces bound p = .ok found) :
    WireText.wireFindheader header.octets stripspaces bound p = found := by
  induction bound generalizing p with
  | zero => exact Except.ok.inj h
  | succ bound ih =>
    rw [WireText.wireFindheader]
    by_cases hlong : header.octets.length + 3 < p.length
    · rw [findHeader_long stripspaces bound hlong] at h
      rw [if_neg (Nat.not_le.mpr hlong)]
      by_cases hend : CRLF <+: p
      · rw [if_pos hend] at h
        rw [if_pos ((atEnd_text (by omega)).mp hend)]
        exact Except.ok.inj h
      rw [if_neg hend] at h
      rw [if_neg fun hcrlf => hend ((atEnd_text (by omega)).mpr hcrlf)]
      by_cases hfield : IsField header p
      · rw [if_pos hfield] at h
        rw [if_pos ((isheader_text (by omega)).mpr hfield)]
        cases hrun : (if stripspaces then skipped (content header p)
            else .ok (some (p.drop (header.octets.length + 2))) : Except Unit (Option Octets)) with
        | error => rw [hrun] at h; cases h
        | ok value =>
          rw [hrun] at h
          simp only [content_text hrun]
          cases value with
          | none => exact Except.ok.inj h
          | some text =>
            simp only [Except.bind] at h ⊢
            by_cases hshort : text.length ≤ 1
            · rw [if_pos (.inl hshort)] at h ⊢
              exact Except.ok.inj h
            by_cases hcrlf : CRLF <+: text
            · rw [if_neg (by tauto)] at h
              have hboth := (atEnd_text hshort).mp hcrlf
              rw [if_neg (by tauto)]
              exact onward_text (fun _ => ih) h
            · rw [if_pos (.inr hcrlf)] at h
              have hboth := mt (atEnd_text hshort).mpr hcrlf
              rw [if_pos (by tauto)]
              exact Except.ok.inj h
      · rw [if_neg hfield] at h
        rw [if_neg (mt (isheader_text (by omega)).mp hfield)]
        exact onward_text (fun _ => ih) h
    · rw [findHeader, if_neg (by omega)] at h
      rw [if_pos (Nat.not_lt.mp hlong)]
      exact Except.ok.inj h

end Turns

theorem lastLine_text (text : Octets) :
    endHeader text 1 none =
      .ok (if text.drop (text.length - 2) = [13, 10] then some (text.length - 1) else none) := by
  rw [endHeader]
  by_cases hlong : 1 < text.length
  · obtain ⟨c, d, hlast⟩ := List.length_eq_two.mp
      (show (text.drop (text.length - 2)).length = 2 by rw [List.length_drop]; omega)
    have hc : text[text.length - 2]? = some c := by
      rw [← Nat.add_zero (text.length - 2), ← List.getElem?_drop, hlast]; rfl
    have hd : text[text.length - 1]? = some d := by
      rw [show text.length - 1 = text.length - 2 + 1 by omega, ← List.getElem?_drop, hlast]
      rfl
    rw [if_pos hlong, peek_ok hd, peek_ok hc, hlast]
    simp only [bind, Except.bind, List.cons.injEq, and_true]
    by_cases hfeed : d = LF
    · by_cases hreturn : c = CR
      · rw [if_pos hfeed, if_pos hreturn, if_pos ⟨hreturn, hfeed⟩]
        rfl
      · rw [if_pos hfeed, if_neg hreturn, if_neg fun h => hreturn h.1]
        rfl
    · rw [if_neg hfeed, if_neg fun h => hfeed h.2]
      rfl
  · rw [if_neg hlong, if_neg]
    · rfl
    · intro hend
      have hlength := congrArg List.length hend
      simp only [List.length_drop, List.length_cons, List.length_nil] at hlength
      omega

theorem endHeader_text {text p : Octets} {bound : Nat} {found : Option Nat}
    (hwithin : p.length ≤ text.length)
    (h : endHeader text bound (WireText.wireNextline p) = .ok found) :
    WireText.wireEndheader text bound p = found.map fun last => text.take (last + 1) := by
  induction bound generalizing p with
  | zero => rw [← Except.ok.inj h]; rfl
  | succ bound ih =>
    rw [WireText.wireEndheader]
    cases hnext : WireText.wireNextline p with
    | none =>
      rw [hnext, show endHeader text (bound + 1) none = endHeader text 1 none from rfl,
        lastLine_text, Except.ok.injEq] at h
      rw [← h]
      by_cases hend : text.drop (text.length - 2) = [13, 10]
      · have hlength := congrArg List.length hend
        simp only [List.length_drop, List.length_cons, List.length_nil] at hlength
        simp only [if_pos hend, Option.map_some,
          show text.length - 1 + 1 = text.length by omega, List.take_length]
      · simp only [if_neg hend, Option.map_none]
    | some q =>
      have hlength : q.length + 2 ≤ p.length :=
        lineAfter_length (Option.filter_eq_some_iff.mp ((lineAfter_text p).trans hnext)).1
      rw [hnext, endHeader] at h
      cases q with
      | nil => cases h
      | cons c q =>
        simp only [bind, Except.bind, peek, List.getElem?_cons_zero, Bool.not_eq_true',
          wireNextline_text] at h
        change (if ISWHITE ((c :: q).headD 0) then WireText.wireEndheader text bound (c :: q)
          else some (text.take (text.length - (c :: q).length))) = _
        split at h
        next hwhite =>
          rw [if_neg (show ¬ISWHITE ((c :: q).headD 0) from Bool.eq_false_iff.mp hwhite),
            ← Except.ok.inj h, Option.map_some,
            show text.length - (c :: q).length - 1 + 1 = text.length - (c :: q).length by omega]
        next hwhite =>
          rw [if_pos (show ISWHITE ((c :: q).headD 0) from Bool.not_eq_false _ ▸ hwhite)]
          exact ih (by omega) h

/-- Where no read is out of bounds, the header ends where it does for `WireText`. -/
theorem wireEndheader_text {header : Octets} {found : Option Nat}
    (h : wireEndheader header = .ok found) :
    WireText.wireEndheader header (header.length + 1) header = found.map fun last =>
      header.take (last + 1) := by
  rw [wireEndheader, wireNextline_text] at h
  exact endHeader_text (Nat.le_refl _) h

end Inn.Lib.Wire
