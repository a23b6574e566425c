import Inn.Wildmat.Simple

/-!
# Wildmat expressions

The declarative reading of an expression splits it where `match_pattern` sees a
comma that stands for itself. `match_expression` has a scanner of its own that
looks for classes even behind a backslash. Where both scanners pass over every
sub-pattern, the expression means what the declarative reading says.
-/

namespace Inn.Wildmat

open Ascii
open List (length_cons cons_append append_assoc drop_zero drop_left tail_cons length_append
    length_drop drop_drop length_nil)

def pieceLength : List UInt8 → Nat
  | [] => 0
  | c :: rest =>
    if c = backslash then min 2 (rest.length + 1)
    else if c = openBracket then
      let q := if deref rest = caret then 2 else 1
      match (rest.drop q).findIdx? (· = closeBracket) with
      | none => rest.length + 1
      | some i => q + i + 2
    else 1

def prepend (c : UInt8) : List (List UInt8) → List (List UInt8)
  | [] => [[c]]
  | sub :: subs => (c :: sub) :: subs

def subpatterns : Nat → List UInt8 → List (List UInt8)
  | _, [] => [[]]
  | skip + 1, c :: rest => prepend c (subpatterns skip rest)
  | 0, c :: rest =>
    if c = comma then [] :: subpatterns 0 rest
    else prepend c (subpatterns (pieceLength (c :: rest) - 1) rest)

def sense (allowpoison : Bool) (sub : List UInt8) : Uwildmat × List UInt8 :=
  if deref sub = exclamation then (.fail, sub.tail)
  else if allowpoison ∧ deref sub = atSign then (.poison, sub.tail)
  else (.match, sub)

def matchesSimple (text : CString) (sub : List UInt8) : Bool :=
  if hnul : 0 ∉ sub then uwildmatSimple text ⟨sub, hnul⟩ else false

def verdictAfter (allowpoison : Bool) (text : CString) (result : Uwildmat) (sub : List UInt8) :
    Uwildmat :=
  if matchesSimple text (sense allowpoison sub).2 then (sense allowpoison sub).1 else result

def evaluate (allowpoison : Bool) (text : CString) (subs : List (List UInt8)) : Uwildmat :=
  subs.foldl (verdictAfter allowpoison text) .fail

inductive Pieces : List UInt8 → Prop
  | nil : Pieces []
  | plain {c s} : c ≠ backslash → c ≠ openBracket → c ≠ comma → Pieces s → Pieces (c :: s)
  | quoted {c s} : Pieces s → Pieces (backslash :: c :: s)
  | cls {first listed s} : first ≠ caret → closeBracket ∉ listed → Pieces s →
      Pieces (openBracket :: first :: listed ++ closeBracket :: s)
  | negated {first listed s} : closeBracket ∉ listed → Pieces s →
      Pieces (openBracket :: caret :: first :: listed ++ closeBracket :: s)

inductive Passed : List UInt8 → Prop
  | nil : Passed []
  | plain {c s} : c ≠ backslash → c ≠ openBracket → c ≠ comma → Passed s → Passed (c :: s)
  | quoted {c s} : c ≠ openBracket → Passed s → Passed (backslash :: c :: s)
  | cls {first listed s} : closeBracket ∉ listed → Passed s →
      Passed (openBracket :: first :: listed ++ closeBracket :: s)
  | quotedCls {first listed s} : closeBracket ∉ listed → Passed s →
      Passed (backslash :: openBracket :: first :: listed ++ closeBracket :: s)

inductive Aligned : List UInt8 → Prop
  | last {sub} : Pieces sub → Passed sub → Aligned sub
  | trailing {sub} : Pieces sub → Passed sub → Aligned (sub ++ [backslash])
  | comma {sub rest} : Pieces sub → Passed sub → Aligned rest → Aligned (sub ++ comma :: rest)

section Splitting

variable {sub rest : List UInt8}

def prependAll (octets : List UInt8) (subs : List (List UInt8)) : List (List UInt8) :=
  octets.foldr prepend subs

theorem prependAll_cons (octets : List UInt8) (sub : List UInt8) (subs : List (List UInt8)) :
    prependAll octets (sub :: subs) = (octets ++ sub) :: subs := by
  induction octets with
  | nil => rfl
  | cons c octets ih => rw [prependAll, List.foldr_cons, ← prependAll, ih]; rfl

theorem subpatterns_skip (octets s : List UInt8) :
    subpatterns octets.length (octets ++ s) = prependAll octets (subpatterns 0 s) := by
  induction octets with
  | nil => rfl
  | cons c octets ih => rw [length_cons, cons_append, subpatterns, ih]; rfl

theorem subpatterns_piece {c : UInt8} (octets s : List UInt8) (hcomma : c ≠ comma)
    (hlength : pieceLength (c :: (octets ++ s)) = octets.length + 1) :
    subpatterns 0 (c :: (octets ++ s)) = prependAll (c :: octets) (subpatterns 0 s) := by
  rw [subpatterns, if_neg hcomma, hlength, Nat.add_sub_cancel, subpatterns_skip]
  rfl

theorem findIdx?_closeBracket {listed : List UInt8} (hlisted : closeBracket ∉ listed)
    (s : List UInt8) :
    (listed ++ closeBracket :: s).findIdx? (· = closeBracket) = some listed.length := by
  rw [List.findIdx?_append, List.findIdx?_eq_none_iff.mpr (by
    intro x hx
    simp only [decide_eq_false_iff_not]
    rintro rfl
    exact hlisted hx), List.findIdx?_cons]
  simp

theorem subpatterns_pieces (hsub : Pieces sub) (s : List UInt8) :
    subpatterns 0 (sub ++ s) = prependAll sub (subpatterns 0 s) := by
  induction hsub with
  | nil => rfl
  | @plain c sub hbackslash hbracket hcomma _ ih =>
    have := subpatterns_piece [] (sub ++ s) hcomma
      (by simp [pieceLength, hbackslash, hbracket])
    rw [List.nil_append] at this
    rw [cons_append, this, ih]
    rfl
  | @quoted c sub _ ih =>
    have := @subpatterns_piece backslash [c] (sub ++ s) (by decide) (by simp [pieceLength])
    rw [List.singleton_append] at this
    rw [cons_append, cons_append, this, ih]
    rfl
  | @cls first listed sub hfirst hlisted _ ih =>
    have := @subpatterns_piece openBracket (first :: listed ++ [closeBracket])
      (sub ++ s) (by decide)
      (by simp +decide [pieceLength, hfirst, findIdx?_closeBracket hlisted]; omega)
    simp only [cons_append, append_assoc, List.nil_append] at this ⊢
    rw [this, ih]
    simp [prependAll]
  | @negated first listed sub hlisted _ ih =>
    have := @subpatterns_piece openBracket (caret :: first :: listed ++ [closeBracket])
      (sub ++ s) (by decide)
      (by simp +decide [pieceLength, findIdx?_closeBracket hlisted]; omega)
    simp only [cons_append, append_assoc, List.nil_append] at this ⊢
    rw [this, ih]
    simp [prependAll]

theorem subpatterns_last (hsub : Pieces sub) : subpatterns 0 sub = [sub] := by
  have := subpatterns_pieces hsub []
  rwa [List.append_nil, subpatterns, prependAll_cons, List.append_nil] at this

theorem subpatterns_trailing (hsub : Pieces sub) :
    subpatterns 0 (sub ++ [backslash]) = [sub ++ [backslash]] := by
  rw [subpatterns_pieces hsub, show subpatterns 0 [backslash] = [[backslash]] by decide,
    prependAll_cons]

theorem subpatterns_comma (hsub : Pieces sub) (rest : List UInt8) :
    subpatterns 0 (sub ++ comma :: rest) = sub :: subpatterns 0 rest := by
  rw [subpatterns_pieces hsub, subpatterns, if_pos rfl, prependAll_cons, List.append_nil]

def Ends (rest : List UInt8) : Prop := rest = [] ∨ ∃ more, rest = comma :: more

theorem findSplit_ends {fuel : Nat} (hrest : Ends rest) : findSplit fuel false rest = 0 := by
  rcases hrest with rfl | ⟨more, rfl⟩
  · cases fuel <;> rfl
  · cases fuel with
    | zero => rfl
    | succ fuel => simp +decide [findSplit]

theorem classEnd_eq (first : UInt8) {listed : List UInt8} (hlisted : closeBracket ∉ listed)
    (s : List UInt8) : classEnd (first :: (listed ++ closeBracket :: s)) = listed.length + 1 := by
  have htake : (listed ++ closeBracket :: s).takeWhile (· ≠ closeBracket) = listed := by
    rw [List.takeWhile_append_of_pos (by
      intro x hx
      simp only [ne_eq, decide_eq_true_eq]
      rintro rfl
      exact hlisted hx)]
    simp
  by_cases hfirst : first = closeBracket
  · simp only [classEnd, deref_cons, hfirst, if_true, List.drop_succ_cons, drop_zero, htake]
    omega
  · rw [classEnd, deref_cons, if_neg hfirst, drop_zero,
      List.takeWhile_cons_of_pos (by simpa using hfirst), htake, length_cons]
    omega

theorem findSplit_class {fuel : Nat} (escaped : Bool) (first : UInt8) {listed : List UInt8}
    (hlisted : closeBracket ∉ listed) (s : List UInt8) :
    findSplit (fuel + 1) escaped (openBracket :: first :: (listed ++ closeBracket :: s)) =
      listed.length + 3 + findSplit fuel false s := by
  have hdrop : (openBracket :: first :: (listed ++ closeBracket :: s)).drop (listed.length + 2) =
      closeBracket :: s := by
    rw [List.drop_succ_cons, List.drop_succ_cons, drop_left]
  rw [findSplit]
  simp only [classEnd_eq first hlisted, if_true]
  rw [hdrop]
  simp +decide

theorem findSplit_passed (rest : List UInt8) (hsub : Passed sub) {fuel : Nat}
    (hfuel : sub.length ≤ fuel) :
    ∃ fuel', fuel ≤ fuel' + sub.length ∧
      findSplit fuel false (sub ++ rest) = sub.length + findSplit fuel' false rest := by
  induction hsub generalizing fuel with
  | nil => exact ⟨fuel, by simp, by simp⟩
  | @plain c sub hbackslash hbracket hcomma _ ih =>
    obtain ⟨fuel, rfl⟩ : ∃ f, fuel = f + 1 := ⟨fuel - 1, by simp at hfuel; omega⟩
    obtain ⟨fuel', hle, heq⟩ := @ih fuel (by simpa using hfuel)
    refine ⟨fuel', by rw [length_cons]; omega, ?_⟩
    simp only [cons_append, findSplit, if_neg hbracket, drop_zero, deref_cons,
      hcomma, hbackslash, false_and, if_false, tail_cons, heq, length_cons]
    omega
  | @quoted c sub hbracket _ ih =>
    rw [length_cons, length_cons] at hfuel
    obtain ⟨fuel, rfl⟩ : ∃ f, fuel = f + 2 := ⟨fuel - 2, by omega⟩
    obtain ⟨fuel', hle, heq⟩ := @ih fuel (by omega)
    refine ⟨fuel', by rw [length_cons, length_cons]; omega, ?_⟩
    simp +decide [findSplit, hbracket, heq]
    omega
  | @cls first listed sub hlisted _ ih =>
    simp only [cons_append, length_cons, length_append] at hfuel ⊢
    obtain ⟨fuel, rfl⟩ : ∃ f, fuel = f + 1 := ⟨fuel - 1, by omega⟩
    obtain ⟨fuel', hle, heq⟩ := @ih fuel (by omega)
    refine ⟨fuel', by omega, ?_⟩
    rw [append_assoc, cons_append, findSplit_class false first hlisted, heq]
    omega
  | @quotedCls first listed sub hlisted _ ih =>
    simp only [cons_append, length_cons, length_append] at hfuel ⊢
    obtain ⟨fuel, rfl⟩ : ∃ f, fuel = f + 2 := ⟨fuel - 2, by omega⟩
    obtain ⟨fuel', hle, heq⟩ := @ih fuel (by omega)
    refine ⟨fuel', by omega, ?_⟩
    rw [findSplit]
    simp +decide only [deref_cons, if_false, false_and, drop_zero, tail_cons,
      if_true, Bool.not_false]
    rw [append_assoc, cons_append, findSplit_class true first hlisted, heq]
    omega

theorem findSplit_eq (hsub : Passed sub) (hrest : Ends rest) {fuel : Nat}
    (hfuel : sub.length ≤ fuel) : findSplit fuel false (sub ++ rest) = sub.length := by
  obtain ⟨fuel', _, heq⟩ := findSplit_passed rest hsub hfuel
  rw [heq, findSplit_ends hrest, Nat.add_zero]

theorem findSplit_trailing (hsub : Passed sub) {fuel : Nat} (hfuel : sub.length + 1 ≤ fuel) :
    findSplit fuel false (sub ++ [backslash]) = sub.length + 1 := by
  obtain ⟨fuel', hle, heq⟩ := findSplit_passed [backslash] hsub
    (by omega : sub.length ≤ fuel)
  obtain ⟨fuel', rfl⟩ : ∃ f, fuel' = f + 1 := ⟨fuel' - 1, by omega⟩
  rw [heq]
  cases fuel' <;> simp +decide [findSplit]

end Splitting

section Reading

variable {fuel n : Nat} {text : List UInt8}

theorem matchPattern_piece {t : UInt8} {ts contents s : List UInt8} {q : Nat}
    (hq : (if deref contents = caret then 2 else 1) = q) (hlength : q ≤ contents.length)
    (hcontents : closeBracket ∉ contents.drop q) (hn : contents.length < n)
    (hne : contents ≠ []) :
    matchPattern (fuel + 1) (t :: ts) (openBracket :: contents ++ closeBracket :: s) (n + 1) =
      if matchClass (codePoint (t :: trail t ts)) contents then
        matchPattern fuel (ts.drop (trail t ts).length) s (n - contents.length - 1)
      else .no := by
  have hderef : deref (contents ++ closeBracket :: s) = deref contents := by
    obtain ⟨c, contents, rfl⟩ := List.exists_cons_of_ne_nil hne
    rfl
  have htake : ((contents ++ closeBracket :: s).take n).drop q =
      contents.drop q ++ closeBracket :: s.take (n - contents.length - 1) := by
    obtain ⟨m, rfl⟩ : ∃ m, n = contents.length + (m + 1) := ⟨n - contents.length - 1, by omega⟩
    rw [List.take_length_add_append, List.take_succ_cons, List.drop_append_of_le_length hlength]
    simp
  have hq' : q + (contents.drop q).length = contents.length := by
    rw [length_drop]
    omega
  have hdrop : (contents ++ closeBracket :: s).drop (contents.length + 1) = s := by
    rw [← drop_drop, drop_left]
    rfl
  rw [cons_append, matchPattern_bracket n (hderef ▸ hq), if_neg (by omega), htake,
    findIdx?_closeBracket hcontents]
  simp only [hq', List.take_left, hdrop]
  rw [show n - (contents.length + 1) = n - contents.length - 1 by omega]

theorem matchPattern_pieces_class (contents : List UInt8) (q : Nat) {sub suffix : List UInt8}
    (hq : (if deref contents = caret then 2 else 1) = q) (hlength : q ≤ contents.length)
    (hcontents : closeBracket ∉ contents.drop q) (hne : contents ≠ [])
    (hsub : ∀ fuel text, matchPattern fuel text (sub ++ suffix) sub.length =
      matchPattern fuel text sub sub.length) :
    matchPattern fuel text (openBracket :: contents ++ closeBracket :: sub ++ suffix)
        (openBracket :: contents ++ closeBracket :: sub).length =
      matchPattern fuel text (openBracket :: contents ++ closeBracket :: sub)
        (openBracket :: contents ++ closeBracket :: sub).length := by
  have hn : (openBracket :: contents ++ closeBracket :: sub).length =
      contents.length + 1 + sub.length + 1 := by
    simp only [length_append, length_cons]
    omega
  rw [hn, append_assoc, @cons_append _ closeBracket]
  cases fuel with
  | zero => rfl
  | succ fuel =>
    cases text with
    | nil => rfl
    | cons t ts =>
      rw [matchPattern_piece hq hlength hcontents (by omega) hne,
        matchPattern_piece hq hlength hcontents (by omega) hne,
        show contents.length + 1 + sub.length - contents.length - 1 = sub.length by omega, hsub]

theorem matchPattern_pieces_star {d : UInt8} {sub suffix : List UInt8}
    (hsub : ∀ fuel text, matchPattern fuel text (d :: (sub ++ suffix)) (sub.length + 1) =
      matchPattern fuel text (d :: sub) (sub.length + 1)) :
    matchPattern (fuel + 1) text (asterisk :: d :: (sub ++ suffix)) (sub.length + 2) =
      matchPattern (fuel + 1) text (asterisk :: d :: sub) (sub.length + 2) := by
  by_cases hd : d = asterisk
  · rw [hd, matchPattern_star_star, matchPattern_star_star, ← hd, hsub]
  · rw [matchPattern_star (by simpa using hd), matchPattern_star (by simpa using hd)]
    simp only [deref_cons, tail_cons, Nat.add_sub_cancel]
    by_cases hmeta : isMeta d = true
    · simp only [hmeta, if_true, hsub]
    · have hplain : Plain d := by
        have hd' : ¬(d = openBracket ∨ d = question ∨ d = backslash) :=
          fun h => hmeta (decide_eq_true h)
        rw [not_or, not_or] at hd'
        exact ⟨hd'.2.2, hd'.2.1, hd, hd'.1⟩
      have hattempt : ∀ text, matchPattern fuel text (sub ++ suffix) sub.length =
          matchPattern fuel text sub sub.length := by
        intro text
        have hone := hsub (fuel + 1) (d :: text)
        rw [matchPattern_plain hplain, matchPattern_plain hplain] at hone
        simpa using hone
      simp only [hmeta, hattempt]
      rfl

theorem matchPattern_pieces {sub : List UInt8} (hsub : Pieces sub) (suffix : List UInt8) :
    matchPattern fuel text (sub ++ suffix) sub.length = matchPattern fuel text sub sub.length := by
  induction hsub generalizing fuel text with
  | nil => rw [length_nil, matchPattern_zero, matchPattern_zero]
  | @plain c sub hbackslash hbracket hcomma _ ih =>
    cases fuel with
    | zero => rfl
    | succ fuel =>
      rw [cons_append, length_cons]
      by_cases hstar : c = asterisk
      · subst hstar
        cases sub with
        | nil => rw [length_nil, Nat.zero_add, matchPattern_star_end, matchPattern_star_end]
        | cons d sub => exact matchPattern_pieces_star fun fuel text => @ih fuel text
      · cases text with
        | nil =>
          rw [matchPattern_at_end (by simpa using hstar),
            matchPattern_at_end (by simpa using hstar)]
        | cons t ts =>
          by_cases hquestion : c = question
          · rw [hquestion, matchPattern_question, matchPattern_question, ih]
          · have hplain : Plain c := ⟨hbackslash, hquestion, hstar, hbracket⟩
            rw [matchPattern_plain hplain, matchPattern_plain hplain, ih]
  | @quoted c sub _ ih =>
    cases fuel with
    | zero => rfl
    | succ fuel =>
      rw [cons_append, cons_append, length_cons, length_cons]
      cases text with
      | nil => rfl
      | cons t ts => rw [matchPattern_quoted, matchPattern_quoted, ih]
  | @cls first listed sub hfirst hlisted _ ih =>
    exact matchPattern_pieces_class (first :: listed) 1
      (by simp [hfirst]) (by simp) (by simpa using hlisted) (by simp) fun fuel text => ih
  | @negated first listed sub hlisted _ ih =>
    exact matchPattern_pieces_class (caret :: first :: listed) 2
      (by simp) (by simp) (by simpa using hlisted) (by simp) fun fuel text => ih

end Reading

section Evaluation

variable {text : CString} {allowpoison : Bool}

def flags : Uwildmat → Bool × Bool
  | .fail => (false, false)
  | .match => (true, false)
  | .poison => (false, true)

theorem matchPattern_eq_yes_iff (text : CString) {sub : List UInt8} (hnul : 0 ∉ sub) :
    matchPattern sub.length text.octets sub sub.length = .yes ↔ matchesSimple text sub = true := by
  rw [matchesSimple, dif_pos hnul, uwildmatSimple]
  split
  next hstar =>
    simp only at hstar
    subst hstar
    exact ⟨fun _ => rfl, fun _ => matchPattern_star_end⟩
  next => simp

theorem sense_cases (allowpoison : Bool) (sub : List UInt8) :
    (sense allowpoison sub).2 = sub ∨
      ∃ c s, sub = c :: s ∧ (c = exclamation ∨ c = atSign) ∧ (sense allowpoison sub).2 = s := by
  cases sub with
  | nil => cases allowpoison <;> exact Or.inl (by decide)
  | cons c s =>
    by_cases hreverse : c = exclamation
    · exact Or.inr ⟨c, s, rfl, Or.inl hreverse, by simp [sense, hreverse]⟩
    · by_cases hpoison : allowpoison = true ∧ c = atSign
      · exact Or.inr ⟨c, s, rfl, Or.inr hpoison.2, by simp +decide [sense, hpoison]⟩
      · exact Or.inl (by simp [sense, hreverse, hpoison])

theorem Pieces.sense {sub : List UInt8} (hsub : Pieces sub) : Pieces (sense allowpoison sub).2 := by
  rcases sense_cases allowpoison sub with heq | ⟨c, s, rfl, hc, heq⟩
  · rwa [heq]
  · rw [heq]
    cases hsub with
    | plain _ _ _ hs => exact hs
    | quoted _ => simp +decide at hc
    | cls _ _ _ => simp +decide at hc
    | negated _ _ => simp +decide at hc

theorem Passed.sense {sub : List UInt8} (hsub : Passed sub) : Passed (sense allowpoison sub).2 := by
  rcases sense_cases allowpoison sub with heq | ⟨c, s, rfl, hc, heq⟩
  · rwa [heq]
  · rw [heq]
    cases hsub with
    | plain _ _ _ hs => exact hs
    | quoted _ _ => simp +decide at hc
    | cls _ _ => simp +decide at hc
    | quotedCls _ _ => simp +decide at hc

theorem sense_trailing (sub : List UInt8) :
    (sense allowpoison (sub ++ [backslash])).2 = (sense allowpoison sub).2 ++ [backslash] := by
  cases sub with
  | nil => cases allowpoison <;> decide
  | cons c s =>
    simp only [cons_append, sense, deref_cons, tail_cons]
    grind

structure AtHead (bound : Nat) (allowpoison : Bool) (sub rest : List UInt8) : Prop where
  ends : Ends rest
  split : findSplit bound false ((sense allowpoison sub).2 ++ rest) =
    (sense allowpoison sub).2.length
  reads : ∀ text, matchPattern (sense allowpoison sub).2.length text
    ((sense allowpoison sub).2 ++ rest) (sense allowpoison sub).2.length =
      matchPattern (sense allowpoison sub).2.length text (sense allowpoison sub).2
        (sense allowpoison sub).2.length

theorem sense_length_le (allowpoison : Bool) (sub : List UInt8) :
    (sense allowpoison sub).2.length ≤ sub.length := by
  rcases sense_cases allowpoison sub with heq | ⟨c, s, rfl, -, heq⟩
  · rw [heq]
  · rw [heq]
    exact Nat.le_succ _

theorem atHead_of_pieces {bound : Nat} {sub rest : List UInt8} (hpieces : Pieces sub)
    (hpassed : Passed sub) (hends : Ends rest) (hbound : sub.length ≤ bound) :
    AtHead bound allowpoison sub rest where
  ends := hends
  split := findSplit_eq hpassed.sense hends (Nat.le_trans (sense_length_le _ sub) hbound)
  reads _ := matchPattern_pieces hpieces.sense rest

theorem Aligned.exists_atHead {e : List UInt8} (haligned : Aligned e) (bound : Nat)
    (hbound : e.length ≤ bound) (allowpoison : Bool) :
    ∃ sub rest, e = sub ++ rest ∧ AtHead bound allowpoison sub rest ∧
      (rest = [] ∧ subpatterns 0 e = [sub] ∨
        ∃ more, rest = Ascii.comma :: more ∧ Aligned more ∧
          subpatterns 0 e = sub :: subpatterns 0 more) := by
  cases haligned with
  | last hpieces hpassed =>
    exact ⟨e, [], by simp, atHead_of_pieces hpieces hpassed (Or.inl rfl) hbound,
      Or.inl ⟨rfl, subpatterns_last hpieces⟩⟩
  | @trailing sub hpieces hpassed =>
    refine ⟨sub ++ [backslash], [], by simp, ⟨Or.inl rfl, ?_, by simp⟩,
      Or.inl ⟨rfl, subpatterns_trailing hpieces⟩⟩
    rw [sense_trailing, List.append_nil, length_append]
    apply findSplit_trailing hpassed.sense
    have := sense_length_le allowpoison sub
    rw [length_append, List.length_singleton] at hbound
    omega
  | @comma sub more hpieces hpassed hmore =>
    refine ⟨sub, Ascii.comma :: more, rfl,
      atHead_of_pieces hpieces hpassed (Or.inr ⟨more, rfl⟩) ?_,
      Or.inr ⟨more, rfl, hmore, subpatterns_comma hpieces more⟩⟩
    rw [length_append] at hbound
    omega

section Step

variable {e sub rest : List UInt8} {p : Nat}

theorem flags_sense (allowpoison : Bool) (hdrop : e.drop p = sub ++ rest) (hends : Ends rest) :
    flags (sense allowpoison sub).1 =
      (!(subpatternAt e allowpoison p).reverse, (subpatternAt e allowpoison p).poison) ∧
    e.drop (subpatternAt e allowpoison p).p = (sense allowpoison sub).2 ++ rest ∧
    (subpatternAt e allowpoison p).p + (sense allowpoison sub).2.length = p + sub.length := by
  cases sub with
  | nil =>
    have hplain : deref rest ≠ exclamation ∧ deref rest ≠ atSign := by
      rcases hends with rfl | ⟨more, rfl⟩
      · decide
      · simp +decide
    have hsense : sense allowpoison [] = (.match, []) := by cases allowpoison <;> decide
    simp [subpatternAt, hdrop, hplain, hsense, flags]
  | cons c s =>
    have htail : e.drop (p + 1) = s ++ rest := by
      rw [← drop_drop, hdrop]
      rfl
    by_cases hc : c = exclamation
    · subst hc
      simp +decide [subpatternAt, hdrop, sense, flags, htail]
      omega
    · by_cases hpoison : allowpoison = true ∧ c = atSign
      · obtain ⟨rfl, rfl⟩ := hpoison
        simp +decide [subpatternAt, hdrop, sense, flags, htail]
        omega
      · have hfalse : (allowpoison && c == atSign) = false := by
          simpa using hpoison
        simp [subpatternAt, hdrop, sense, flags, hc, hpoison, hfalse]

theorem subpatternAt_length (hdrop : e.drop p = sub ++ rest)
    (hhead : AtHead e.length allowpoison sub rest) :
    (subpatternAt e allowpoison p).length = (sense allowpoison sub).2.length := by
  rw [← hhead.split, ← (flags_sense _ hdrop hhead.ends).2.1]
  rfl

theorem matchSubpatterns_step (hdrop : e.drop p = sub ++ rest) (hp : p ≤ e.length)
    (hhead : AtHead e.length allowpoison sub rest) (hnul : 0 ∉ sub) (fuel : Nat)
    (result : Uwildmat) :
    matchSubpatterns text.octets e allowpoison (fuel + 1) p (flags result).1 (flags result).2 =
      matchSubpatterns text.octets e allowpoison fuel (p + sub.length + 1)
        (flags (verdictAfter allowpoison text result sub)).1
        (flags (verdictAfter allowpoison text result sub)).2 := by
  obtain ⟨hflags, hrest, hlength⟩ := flags_sense allowpoison hdrop hhead.ends
  have hnul' : 0 ∉ (sense allowpoison sub).2 := by
    rcases sense_cases allowpoison sub with heq | ⟨c, s, rfl, -, heq⟩
    · rwa [heq]
    · rw [heq]
      exact fun h => hnul (List.mem_cons_of_mem _ h)
  have hmatch := matchPattern_eq_yes_iff text hnul'
  rw [← hhead.reads, ← hrest] at hmatch
  rw [matchSubpatterns, if_neg (by omega)]
  simp only [subpatternAt_length hdrop hhead, hlength, hmatch]
  have hreverse : (flags (sense allowpoison sub).1).1 = !(subpatternAt e allowpoison p).reverse :=
    by rw [hflags]
  have hpoison : (flags (sense allowpoison sub).1).2 = (subpatternAt e allowpoison p).poison := by
    rw [hflags]
  rw [← hreverse, ← hpoison, verdictAfter]
  split
  next hsame =>
    have hresult : (sense allowpoison sub).1 = result := by
      generalize (sense allowpoison sub).1 = r at hsame
      cases r <;> cases result <;> simp_all [flags]
    rw [hresult, ite_self]
  next => split <;> rfl

end Step

theorem matchSubpatterns_eq (text : CString) (allowpoison : Bool) {e : List UInt8} {fuel p : Nat}
    (haligned : Aligned (e.drop p))
    (hp : p ≤ e.length) (hnul : 0 ∉ e) (hfuel : e.length < p + fuel) (result : Uwildmat) :
    matchSubpatterns text.octets e allowpoison fuel p (flags result).1 (flags result).2 =
      flags ((subpatterns 0 (e.drop p)).foldl (verdictAfter allowpoison text) result) := by
  induction fuel generalizing p result with
  | zero => omega
  | succ fuel ih =>
    obtain ⟨sub, rest, hdrop, hhead, hnext⟩ := haligned.exists_atHead
      e.length (by rw [length_drop]; omega) allowpoison
    have hsub : 0 ∉ sub := fun h =>
      hnul (List.mem_of_mem_drop (hdrop ▸ List.mem_append_left _ h))
    have hlength := congrArg List.length hdrop
    rw [length_drop, length_append] at hlength
    rw [matchSubpatterns_step hdrop hp hhead hsub]
    rcases hnext with ⟨rfl, hsubs⟩ | ⟨more, rfl, hmore, hsubs⟩
    · have hend : p + sub.length + 1 > e.length := by
        rw [length_nil] at hlength
        omega
      rw [hsubs]
      cases fuel with
      | zero => rfl
      | succ fuel =>
        rw [matchSubpatterns, if_pos hend]
        rfl
    · rw [length_cons] at hlength
      have hrest : e.drop (p + sub.length + 1) = more := by
        rw [Nat.add_assoc, ← drop_drop, hdrop, ← drop_drop, drop_left]
        rfl
      rw [hsubs, List.foldl_cons, ← hrest]
      exact ih (hrest ▸ hmore) (by omega) (by omega) _

inductive Visited (e : List UInt8) (allowpoison : Bool) : Nat → Prop
  | start : Visited e allowpoison 0
  | next {p} : Visited e allowpoison p → p ≤ e.length →
      Visited e allowpoison
        ((subpatternAt e allowpoison p).p + (subpatternAt e allowpoison p).length + 1)

theorem aligned_of_visited {e : List UInt8} (haligned : Aligned e) {p : Nat}
    (hvisited : Visited e allowpoison p) : p ≤ e.length → Aligned (e.drop p) := by
  induction hvisited with
  | start => exact fun _ => haligned
  | @next p _ hp ih =>
    intro hle
    obtain ⟨sub, rest, hdrop, hhead, hnext⟩ := (ih hp).exists_atHead
      e.length (by rw [length_drop]; omega) allowpoison
    rw [subpatternAt_length hdrop hhead, (flags_sense _ hdrop hhead.ends).2.2] at hle ⊢
    have hlength := congrArg List.length hdrop
    rw [length_drop, length_append] at hlength
    rcases hnext with ⟨rfl, -⟩ | ⟨more, rfl, hmore, -⟩
    · rw [length_nil] at hlength
      omega
    · rw [Nat.add_assoc, ← drop_drop, hdrop, ← drop_drop, drop_left]
      exact hmore

/-- The matchers decide by the last subpattern that matches. -/
structure Declarative (e : CString) : Prop where
  uwildmat :
    ∀ text, uwildmat text e = decide (evaluate false text (subpatterns 0 e.octets) = .match)
  uwildmatPoison : ∀ text, uwildmatPoison text e = evaluate true text (subpatterns 0 e.octets)
  simple : ∀ text, subpatterns 0 e.octets = [e.octets] → deref e.octets ≠ exclamation →
    Wildmat.uwildmat text e = uwildmatSimple text e
  within : ∀ allowpoison p, Visited e.octets allowpoison p → p ≤ e.octets.length →
    (subpatternAt e.octets allowpoison p).p + (subpatternAt e.octets allowpoison p).length ≤
      e.octets.length

theorem matchExpression_eq {e : CString} (haligned : Aligned e.octets) :
    matchExpression text.octets e.octets allowpoison =
      evaluate allowpoison text (subpatterns 0 e.octets) := by
  unfold matchExpression
  split
  next hnil =>
    have hsense : sense allowpoison [] = (.match, []) := by cases allowpoison <;> decide
    have hmatch := @matchPattern_eq_yes_iff text [] (by simp)
    rw [length_nil, matchPattern_zero] at hmatch
    simp only [hnil, subpatterns, evaluate, List.foldl_cons, List.foldl_nil, verdictAfter, hsense,
      ← hmatch]
    split <;> simp
  next =>
    have hloop : matchSubpatterns text.octets e.octets allowpoison (e.octets.length + 1) 0
        false false = flags (evaluate allowpoison text (subpatterns 0 e.octets)) :=
      @matchSubpatterns_eq text allowpoison e.octets _ 0 haligned (Nat.zero_le _) e.noNul
        (by omega) .fail
    rw [hloop]
    cases evaluate allowpoison text (subpatterns 0 e.octets) <;> rfl

theorem matchesSimple_eq (text e : CString) : matchesSimple text e.octets = uwildmatSimple text e :=
  dif_pos e.noNul

theorem evaluate_star : evaluate allowpoison text (subpatterns 0 [asterisk]) = .match := by
  have hsubs : subpatterns 0 [asterisk] = [[asterisk]] := by decide
  have hsense : sense allowpoison [asterisk] = (.match, [asterisk]) := by
    cases allowpoison <;> decide
  have hmatch : matchesSimple text [asterisk] = true := by
    rw [matchesSimple, dif_pos (by decide), uwildmatSimple, if_pos rfl]
  simp [hsubs, evaluate, verdictAfter, hsense, hmatch]

theorem uwildmat_eq {e : CString} (haligned : Aligned e.octets) :
    uwildmat text e = decide (evaluate false text (subpatterns 0 e.octets) = .match) := by
  unfold uwildmat
  split
  next hstar => rw [hstar, evaluate_star]; rfl
  next => rw [matchExpression_eq haligned]

/-- An expression that both scanners delimit alike is evaluated declaratively. -/
theorem declarative_of_aligned {e : CString} (haligned : Aligned e.octets) : Declarative e where
  uwildmat _ := uwildmat_eq haligned
  uwildmatPoison text := by
    unfold Wildmat.uwildmatPoison
    split
    next hstar => rw [hstar, evaluate_star]
    next => exact matchExpression_eq haligned
  simple text hwhole hplain := by
    have hsense : sense false e.octets = (.match, e.octets) := by simp [sense, hplain]
    rw [uwildmat_eq haligned, hwhole, evaluate, List.foldl_cons, List.foldl_nil, verdictAfter,
      hsense, matchesSimple_eq]
    cases uwildmatSimple text e <;> rfl
  within allowpoison p hvisited hp := by
    obtain ⟨sub, rest, hdrop, hhead, -⟩ := (aligned_of_visited haligned hvisited hp).exists_atHead
      e.octets.length (by rw [length_drop]; omega) allowpoison
    rw [subpatternAt_length hdrop hhead, (flags_sense _ hdrop hhead.ends).2.2]
    have hlength := congrArg List.length hdrop
    rw [length_drop, length_append] at hlength
    omega

/-- `a\[x],!*[!]` is such an expression. -/
theorem declarative_classes : Declarative
    ⟨[0x61, backslash, openBracket, 0x78, closeBracket, comma, exclamation, asterisk,
      openBracket, exclamation, closeBracket], by decide⟩ := by
  apply declarative_of_aligned
  refine @Aligned.comma [0x61, backslash, openBracket, 0x78, closeBracket] _
    (.plain (by decide) (by decide) (by decide) (.quoted
      (.plain (by decide) (by decide) (by decide)
        (.plain (by decide) (by decide) (by decide) .nil))))
    (.plain (by decide) (by decide) (by decide)
      (@Passed.quotedCls 0x78 [] [] (by decide) .nil)) (.last ?_ ?_)
  · exact .plain (by decide) (by decide) (by decide) (.plain (by decide) (by decide) (by decide)
      (@Pieces.cls exclamation [] [] (by decide) (by decide) .nil))
  · exact .plain (by decide) (by decide) (by decide) (.plain (by decide) (by decide) (by decide)
      (@Passed.cls exclamation [] [] (by decide) .nil))

/-- `\[` matches the text `[`, but `uwildmat` takes the bracket for a class
that is not closed and hands the nul to the matcher too. -/
theorem not_declarative_quotedBracket :
    ¬Declarative ⟨[backslash, openBracket], by decide⟩ ∧
    uwildmatSimple ⟨[openBracket], by decide⟩ ⟨[backslash, openBracket], by decide⟩ = true ∧
    uwildmat ⟨[openBracket], by decide⟩ ⟨[backslash, openBracket], by decide⟩ = false := by
  refine ⟨fun h => ?_, by decide, by decide⟩
  have hsimple := h.simple ⟨[openBracket], by decide⟩ (by decide) (by decide)
  revert hsimple
  decide

end Evaluation

end Inn.Wildmat
