import Inn.Wildmat.Language

/-!
# The matcher decides the language

A verdict on a rest of the pattern and a rest of the text is sound when `yes`
and `no` say whether that text is in the language, and `abort` says that it is
not and will not be after dropping characters from its front either. The last
part is what lets an enclosing star give up.
-/

namespace Inn.Wildmat

open Ascii
open List (flatten_cons mem_cons_self mem_cons_of_mem length_cons drop_drop length_append)

/-- A verdict is right; `abort` is so for every rest of the text. -/
def Verdict.Sound (verdict : Verdict) (ps : List Elem) (cs : List Character) : Prop :=
  match verdict with
  | .yes => Lang ps cs
  | .no => ¬Lang ps cs
  | .abort => ∀ k, ¬Lang ps (cs.drop k)

def Plain (o : UInt8) : Prop :=
  o ≠ backslash ∧ o ≠ question ∧ o ≠ asterisk ∧ o ≠ openBracket

theorem not_isContinuation_of_ascii {o : UInt8} (ho : o < 0x80) : isContinuation o = false := by
  by_contra hcont
  have := leadingOnes_of_isContinuation (by simpa using hcont)
  have := leadingOnes_of_ascii ho
  omega

theorem plain_of_isContinuation {o : UInt8} (ho : isContinuation o = true) : Plain o := by
  refine ⟨?_, ?_, ?_, ?_⟩ <;> rintro rfl <;> revert ho <;> decide

theorem WellFormed.tail_isContinuation {c : UInt8} {conts : List UInt8}
    (hwf : WellFormed (c :: conts)) : ∀ o ∈ conts, isContinuation o = true := by
  cases hwf with
  | ascii => simp
  | multi c conts _ _ _ hall => exact hall

theorem WellFormed.tail_eq_nil {c : UInt8} {conts : List UInt8} (hwf : WellFormed (c :: conts))
    (hc : c < 0x80) : conts = [] := by
  cases hwf with
  | ascii => rfl
  | multi c conts hconts _ hones _ =>
    have := leadingOnes_of_ascii hc
    omega

theorem WellFormed.head_not_isContinuation {c : UInt8} {conts : List UInt8}
    (hwf : WellFormed (c :: conts)) : isContinuation c = false := by
  by_contra hcont
  exact leadingOnes_of_wellFormed hwf (leadingOnes_of_isContinuation (by simpa using hcont))

theorem WellFormed.exists_eq_cons {c : Character} (hwf : WellFormed c) :
    ∃ o conts, c = o :: conts := by
  cases hwf <;> exact ⟨_, _, rfl⟩

theorem width_eq (t : UInt8) (text : List UInt8) :
    width (t :: text) = (trail t text).length + 1 := by
  unfold width
  split
  next => exact utf8Length_eq t text (Or.inl rfl)
  next hlead =>
    have hones : leadingOnes t < 2 := by
      revert hlead
      exact forall_octet (P := fun t => ¬isUtf8 (deref (t :: text)) = true → leadingOnes t < 2)
        (by simp only [deref, List.headD_cons]; decide +kernel) t
    simp [trail, Nat.not_le.mpr hones]

theorem characters_of_isPrefix {c : Character} (hwf : WellFormed c) {text : List UInt8}
    (hstarts : c <+: text) :
    characters text = c :: characters (text.drop c.length) := by
  obtain ⟨rest, rfl⟩ := hstarts
  rw [characters_append hwf, List.drop_left]

theorem prefix_of_characters {c : Character} {text : List UInt8} {cs : List Character}
    (hcs : characters text = c :: cs) : c <+: text :=
  ⟨cs.flatten, by rw [← flatten_cons, ← hcs, characters_flatten]⟩

section Literal

variable {o : UInt8} {text p : List UInt8} {fuel n : Nat}

@[simp]
theorem deref_cons (c : UInt8) (p : List UInt8) : deref (c :: p) = c := rfl

theorem matchPattern_at_end (hp : deref p ≠ asterisk) :
    matchPattern (fuel + 1) [] p (n + 1) = .abort := by
  simp [matchPattern, hp]

theorem matchPattern_plain (ho : Plain o) (t : UInt8) :
    matchPattern (fuel + 1) (t :: text) (o :: p) (n + 1) =
      if t = o then matchPattern fuel text p n else .no := by
  obtain ⟨hbackslash, hquestion, hasterisk, hbracket⟩ := ho
  simp only [matchPattern, deref, List.headD_cons, hbackslash, hquestion, hasterisk, hbracket]
  by_cases ht : t = o <;> simp [ht]

theorem matchPattern_literal {octets : List UInt8} (hplain : ∀ o ∈ octets, Plain o) :
    matchPattern (octets.length + fuel) text (octets ++ p) (octets.length + n) =
      if octets <+: text then matchPattern fuel (text.drop octets.length) p n
      else if text <+: octets then .abort
      else .no := by
  induction octets generalizing text with
  | nil => simp
  | cons o octets ih =>
    have ho := hplain o (mem_cons_self ..)
    have hrun := fun text => @ih text fun o ho => hplain o (mem_cons_of_mem _ ho)
    rw [length_cons, Nat.add_right_comm, Nat.add_right_comm octets.length 1 n,
      List.cons_append]
    cases text with
    | nil =>
      rw [matchPattern_at_end (by simpa [deref] using ho.2.2.1)]
      simp
    | cons t text =>
      rw [matchPattern_plain ho, hrun]
      by_cases ht : t = o
      · simp [ht, List.cons_prefix_cons]
      · simp [ht, Ne.symm ht, List.cons_prefix_cons]

end Literal

def TakesOne (e : Elem) : Prop :=
  ∀ ps cs, Lang (e :: ps) cs → ∃ c cs', cs = c :: cs' ∧ Lang ps cs'

theorem sound_cons {e : Elem} {ps : List Elem} {c : Character} {cs : List Character}
    {verdict : Verdict} (hone : TakesOne e) (htakes : Lang ps cs → Lang (e :: ps) (c :: cs))
    (hsound : verdict.Sound ps cs) : verdict.Sound (e :: ps) (c :: cs) := by
  have hback : Lang (e :: ps) (c :: cs) → Lang ps cs := by
    intro h
    obtain ⟨c', cs', heq, h⟩ := hone _ _ h
    simp_all
  cases verdict with
  | yes => exact htakes hsound
  | no => exact fun h => hsound (hback h)
  | abort =>
    intro k h
    cases k with
    | zero => exact hsound 0 (hback h)
    | succ k =>
      rw [List.drop_succ_cons] at h
      obtain ⟨c', cs', heq, h⟩ := hone _ _ h
      apply hsound (k + 1)
      rw [← drop_drop, heq]
      exact h

theorem takesOne_lit (c : Character) : TakesOne (.lit c) := fun _ _ h =>
  let ⟨cs', heq, h⟩ := lang_lit_iff.mp h
  ⟨c, cs', heq, h⟩

theorem takesOne_any : TakesOne .any := fun _ _ h => lang_any_iff.mp h

theorem takesOne_cls (negated : Bool) (members : List (Nat × Nat)) :
    TakesOne (.cls negated members) := fun _ _ h =>
  let ⟨c, cs', heq, _, h⟩ := lang_cls_iff.mp h
  ⟨c, cs', heq, h⟩

theorem sound_lit {c : Character} (hwf : WellFormed c) {text : List UInt8} {verdict : Verdict}
    {ps : List Elem} (hsound : verdict.Sound ps (characters (text.drop c.length))) :
    (if c <+: text then verdict else if text <+: c then .abort else .no : Verdict).Sound
      (.lit c :: ps) (characters text) := by
  split
  next hstarts =>
    rw [characters_of_isPrefix hwf hstarts]
    exact sound_cons (takesOne_lit c) .lit hsound
  next hstarts =>
    split
    next hends =>
      intro k h
      obtain ⟨cs', heq, _⟩ := lang_lit_iff.mp h
      have hlength : ((characters text).drop k).flatten.length ≤ text.length := by
        have hsplit := congrArg (List.length ∘ List.flatten)
          (List.take_append_drop k (characters text))
        simp only [Function.comp_apply, List.flatten_append, length_append,
          characters_flatten] at hsplit
        omega
      rw [heq, flatten_cons, length_append] at hlength
      have hlt := hends.length_le
      exact hstarts (hends.eq_of_length (by omega) ▸ List.prefix_rfl)
    next =>
      intro h
      obtain ⟨cs', heq, _⟩ := lang_lit_iff.mp h
      exact hstarts (prefix_of_characters heq)

section Star

variable {ismeta : Bool} {c : UInt8} {attempt : List UInt8 → Verdict} {ps : List Elem}

def starAttempt (ismeta : Bool) (c : UInt8) (attempt : List UInt8 → Verdict)
    (text : List UInt8) : Verdict :=
  if ismeta then attempt text
  else if deref text = c then attempt text.tail
  else .no

theorem starLoop_skip (skip : Nat) (text : List UInt8) :
    starLoop ismeta c attempt skip text = starLoop ismeta c attempt 0 (text.drop skip) := by
  induction skip generalizing text with
  | zero => rfl
  | succ skip ih =>
    cases text with
    | nil => simp [starLoop]
    | cons t text => rw [starLoop, ih, List.drop_succ_cons]

theorem starLoop_continuations (attempt : List UInt8 → Verdict) (hc : isContinuation c = false)
    {conts : List UInt8} (hconts : ∀ o ∈ conts, isContinuation o = true) (text : List UInt8) :
    starLoop false c attempt 0 (conts ++ text) = starLoop false c attempt 0 text := by
  induction conts with
  | nil => rfl
  | cons o conts ih =>
    have ho := hconts o (mem_cons_self ..)
    have hne : o ≠ c := by
      rintro rfl
      simp [ho] at hc
    have htrail : trail o (conts ++ text) = [] := by
      simp [trail, leadingOnes_of_isContinuation ho]
    rw [List.cons_append, starLoop, width_eq, htrail]
    simpa [hne] using ih fun o ho => hconts o (mem_cons_of_mem _ ho)

theorem trail_isContinuation (t : UInt8) (text : List UInt8) :
    ∀ o ∈ trail t text, isContinuation o = true := by
  unfold trail
  dsimp only
  split
  next h => simpa using h.2.2.2
  next => simp

theorem starLoop_cons (hc : ismeta = true ∨ isContinuation c = false) (t : UInt8)
    (text : List UInt8) : starLoop ismeta c attempt 0 (t :: text) =
      match starAttempt ismeta c attempt (t :: text) with
      | .no => starLoop ismeta c attempt 0 (text.drop (trail t text).length)
      | matched => matched := by
  rw [starLoop, width_eq, Nat.add_sub_cancel, starLoop_skip (trail t text).length]
  cases ismeta with
  | true => cases hverdict : attempt (t :: text) <;> simp [starAttempt, hverdict]
  | false =>
    have hc : isContinuation c = false := by simpa using hc
    have hover := starLoop_continuations attempt hc (trail_isContinuation t text)
      (text.drop (trail t text).length)
    rw [List.prefix_iff_eq_append.mp (trail_isPrefix t text)] at hover
    by_cases ht : t = c
    · subst ht
      cases hverdict : attempt text <;> simp [starAttempt, deref, hverdict, hover]
    · simp [starAttempt, deref, ht]

theorem starLoop_sound (hc : ismeta = true ∨ isContinuation c = false) (hnil : ¬Lang ps [])
    (hattempt : ∀ t text, (starAttempt ismeta c attempt (t :: text)).Sound ps
      (characters (t :: text))) (text : List UInt8) :
    (starLoop ismeta c attempt 0 text).Sound (.star :: ps) (characters text) := by
  induction text using characters.induct with
  | case1 =>
    intro k
    simpa [characters_nil, lang_star_iff, starLoop] using hnil
  | case2 t text ih =>
    have hsound := hattempt t text
    rw [starLoop_cons hc]
    rw [characters_cons] at hsound ⊢
    cases hverdict : starAttempt ismeta c attempt (t :: text) with
    | yes =>
      rw [hverdict] at hsound
      exact lang_star_iff.mpr ⟨0, hsound⟩
    | abort =>
      rw [hverdict] at hsound
      intro k h
      obtain ⟨j, h⟩ := lang_star_iff.mp h
      rw [drop_drop] at h
      exact hsound _ h
    | no =>
      rw [hverdict] at hsound
      generalize starLoop ismeta c attempt 0 (text.drop (trail t text).length) = verdict at ih
      have hdrop : ∀ k, Lang (.star :: ps) (((t :: trail t text) ::
          characters (text.drop (trail t text).length)).drop k) →
          ∃ k, Lang (.star :: ps) ((characters (text.drop (trail t text).length)).drop k) := by
        intro k h
        obtain ⟨j, h⟩ := lang_star_iff.mp h
        rw [drop_drop] at h
        cases hkj : k + j with
        | zero => exact absurd (by simpa [hkj] using h) hsound
        | succ m =>
          rw [hkj, List.drop_succ_cons] at h
          exact ⟨0, lang_star_iff.mpr ⟨m, h⟩⟩
      cases verdict with
      | yes =>
        obtain ⟨k, h⟩ := lang_star_iff.mp ih
        exact lang_star_iff.mpr ⟨k + 1, h⟩
      | no =>
        intro h
        obtain ⟨k, h⟩ := hdrop 0 h
        obtain ⟨j, h⟩ := lang_star_iff.mp h
        rw [drop_drop] at h
        exact ih (lang_star_iff.mpr ⟨_, h⟩)
      | abort =>
        intro k h
        obtain ⟨j, h⟩ := hdrop k h
        exact ih j h

end Star

section Class

variable {text : Nat} {reversed : Bool}

theorem inClass_nil : ¬InClass [] text := by simp [InClass]

theorem inClass_cons {range : Nat × Nat} {members : List (Nat × Nat)} :
    InClass (range :: members) text ↔
      (range.1 ≤ text ∧ text ≤ range.2) ∨ InClass members text := by
  simp [InClass]

theorem classMembers_range {first last : Character} {cs : List Character} :
    classMembers (first :: [hyphen] :: last :: cs) =
      (codePoint first, codePoint first) :: (codePoint first, codePoint last) ::
        classMembers cs := by
  simp [classMembers]

theorem classMembers_single {first : Character} {cs : List Character}
    (hcs : ∀ last cs', cs ≠ [hyphen] :: last :: cs') :
    classMembers (first :: cs) = (codePoint first, codePoint first) :: classMembers cs := by
  cases cs with
  | nil => simp [classMembers]
  | cons dash cs =>
    cases cs with
    | nil => simp [classMembers]
    | cons last cs =>
      have hdash : dash ≠ [hyphen] := fun h => hcs last cs (h ▸ rfl)
      rw [classMembers.eq_def]
      simp [hdash]

theorem utf8Decode_append {c : Character} (hwf : WellFormed c) (rest : List UInt8) :
    utf8Decode (c ++ rest) (some (c ++ rest).length) = (codePoint c, c.length) := by
  obtain ⟨o, conts, rfl⟩ := hwf.exists_eq_cons
  rw [List.cons_append, utf8Decode_eq o _ (Or.inr rfl), trail_wellFormed hwf, length_cons]

theorem WellFormed.eq_singleton {c : Character} (hwf : WellFormed c) {o : UInt8} (ho : o < 0x80)
    {rest : List UInt8} (hhead : deref (c ++ rest) = o) : c = [o] := by
  obtain ⟨o', conts, rfl⟩ := hwf.exists_eq_cons
  obtain rfl : o' = o := hhead
  rw [hwf.tail_eq_nil ho]

theorem matchMembers_single {c : Character} (hwf : WellFormed c) {rest : List UInt8}
    {allowrange : Bool} (hrange : allowrange = true → c = [hyphen] → rest = [])
    (fuel first : Nat) : matchMembers text reversed (fuel + 1) allowrange first (c ++ rest) =
      if text = codePoint c then !reversed
      else matchMembers text reversed fuel true (codePoint c) rest := by
  have hne : c ++ rest ≠ [] := by
    obtain ⟨o, conts, rfl⟩ := hwf.exists_eq_cons
    simp
  have hsingle : ¬(allowrange = true ∧ deref (c ++ rest) = hyphen ∧ 1 < (c ++ rest).length) := by
    rintro ⟨hallow, hhead, hlength⟩
    have hc := hwf.eq_singleton (by decide) hhead
    simp [hc, hrange hallow hc] at hlength
  rw [matchMembers, if_neg hne, if_neg hsingle, utf8Decode_append hwf]
  simp

theorem matchMembers_range {c : Character} (hwf : WellFormed c) {rest : List UInt8}
    (fuel first : Nat) :
    matchMembers text reversed (fuel + 1) true first (hyphen :: (c ++ rest)) =
      if first ≤ text ∧ text ≤ codePoint c then !reversed
      else matchMembers text reversed fuel false first rest := by
  obtain ⟨o, conts, rfl⟩ := hwf.exists_eq_cons
  rw [matchMembers, if_neg (by simp), if_pos (by simp [deref])]
  simp only [List.tail_cons, utf8Decode_append hwf]
  simp

theorem matchMembers_iff (text : Nat) (reversed : Bool) {fuel : Nat} {cs : List Character}
    (hwf : ∀ c ∈ cs, WellFormed c) (hfuel : cs.flatten.length ≤ fuel) :
    (∀ first, matchMembers text reversed fuel false first cs.flatten = true ↔
      (InClass (classMembers cs) text ↔ reversed = false)) ∧
    (∀ c, text ≠ codePoint c →
      (matchMembers text reversed fuel true (codePoint c) cs.flatten = true ↔
        (InClass (classMembers (c :: cs)) text ↔ reversed = false))) := by
  induction fuel generalizing cs with
  | zero =>
    have hcs : cs = [] := by
      cases cs with
      | nil => rfl
      | cons c cs =>
        obtain ⟨o, conts, rfl⟩ := (hwf c (mem_cons_self ..)).exists_eq_cons
        simp at hfuel
    subst hcs
    refine ⟨fun first => ?_, fun c hc => ?_⟩
    · simp [matchMembers, classMembers, inClass_nil]
    · have : ¬(codePoint c ≤ text ∧ text ≤ codePoint c) := by omega
      simp [matchMembers, classMembers, inClass_nil, inClass_cons, this]
  | succ fuel ih =>
    cases cs with
    | nil =>
      refine ⟨fun first => ?_, fun c hc => ?_⟩
      · simp [matchMembers, classMembers, inClass_nil]
      · have : ¬(codePoint c ≤ text ∧ text ≤ codePoint c) := by omega
        simp [matchMembers, classMembers, inClass_nil, inClass_cons, this]
    | cons b cs =>
      have hb := hwf b (mem_cons_self ..)
      have hcs := fun c hc => hwf c (mem_cons_of_mem b hc)
      have hlength : cs.flatten.length ≤ fuel := by
        obtain ⟨o, conts, rfl⟩ := hb.exists_eq_cons
        simp only [flatten_cons, length_append, length_cons] at hfuel
        omega
      have hmember : ∀ allowrange first, (allowrange = true → b = [hyphen] → cs = []) →
          (matchMembers text reversed (fuel + 1) allowrange first (b :: cs).flatten = true ↔
            (InClass (classMembers (b :: cs)) text ↔ reversed = false)) := by
        intro allowrange first hrange
        rw [flatten_cons, matchMembers_single hb (by simp_all)]
        split
        next heq =>
          have hin : InClass (classMembers (b :: cs)) text := by
            rw [classMembers.eq_def]
            exact inClass_cons.mpr (Or.inl ⟨heq.symm.le, heq.le⟩)
          simp [hin]
        next hne => exact (ih hcs hlength).2 b hne
      refine ⟨fun first => hmember false first (by simp), fun c hc => ?_⟩
      have hout : ¬(codePoint c ≤ text ∧ text ≤ codePoint c) := by omega
      by_cases hrange : b = [hyphen] ∧ cs ≠ []
      · obtain ⟨rfl, hne⟩ := hrange
        obtain ⟨last, cs, rfl⟩ := List.exists_cons_of_ne_nil hne
        have hlast := hcs last (mem_cons_self ..)
        rw [flatten_cons, flatten_cons, List.singleton_append,
          matchMembers_range hlast, classMembers_range, inClass_cons, inClass_cons]
        split
        next hin => simp [hin]
        next hin =>
          have hrest : cs.flatten.length ≤ fuel := by
            simp only [flatten_cons, length_append] at hlength
            omega
          rw [(ih (fun c hc => hcs c (mem_cons_of_mem last hc)) hrest).1]
          simp only [hout, hin, false_or]
      · rw [classMembers_single (by grind), inClass_cons]
        simp only [hout, false_or]
        exact hmember true _ (by grind)

theorem matchClass_iff (text : Nat) {cs listed : List Character} (hwf : ∀ c ∈ listed, WellFormed c)
    (hcs : cs.head? = some [caret] → cs = [caret] :: listed)
    (hplain : cs.head? ≠ some [caret] → cs = listed) :
    matchClass text cs.flatten = true ↔
      (InClass (classMembers listed) text ↔ decide (cs.head? = some [caret]) = false) := by
  by_cases hcaret : cs.head? = some [caret]
  · rw [hcs hcaret]
    have hmembers := (matchMembers_iff text true hwf
      (Nat.le_refl _)).1 0
    simpa [matchClass, deref] using hmembers
  · obtain rfl := hplain hcaret
    have hhead : (deref cs.flatten == caret) = false := by
      cases cs with
      | nil => decide
      | cons c cs =>
        have hc := hwf c (mem_cons_self ..)
        rw [flatten_cons, beq_eq_false_iff_ne]
        intro h
        simp [hc.eq_singleton (by decide) h] at hcaret
    have hmembers := (matchMembers_iff text false hwf
      (Nat.le_refl _)).1 0
    simp only [matchClass, hhead, hcaret]
    simpa using hmembers

theorem notMem_flatten {cs : List Character} (hwf : ∀ c ∈ cs, WellFormed c) {o : UInt8}
    (ho : o < 0x80) (hmem : [o] ∉ cs) : o ∉ cs.flatten := by
  intro hflat
  obtain ⟨c, hc, hin⟩ := List.mem_flatten.mp hflat
  have hc' := hwf c hc
  obtain ⟨o', conts, rfl⟩ := hc'.exists_eq_cons
  rcases List.mem_cons.mp hin with rfl | hcont
  · rw [hc'.tail_eq_nil ho] at hc
    exact hmem hc
  · have := hc'.tail_isContinuation o hcont
    rw [not_isContinuation_of_ascii ho] at this
    cases this

theorem deref_flatten_eq_iff {cs : List Character} (hwf : ∀ c ∈ cs, WellFormed c) {o : UInt8}
    (ho : o < 0x80) (hnul : o ≠ 0) : deref cs.flatten = o ↔ cs.head? = some [o] := by
  cases cs with
  | nil => simpa [deref] using hnul.symm
  | cons c cs =>
    have hc := hwf c (mem_cons_self ..)
    constructor
    · intro h
      rw [List.head?_cons, hc.eq_singleton ho (by simpa using h)]
    · intro h
      obtain rfl : c = [o] := by simpa using h
      simp [deref]

theorem exists_class_contents {cs listed cs' : List Character}
    (hsplit : splitClass (classBody cs) = some (listed, cs')) :
    ∃ contents, cs = contents ++ [closeBracket] :: cs' ∧ contents.head? = cs.head? ∧
      (cs.head? = some [caret] → contents = [caret] :: listed) ∧
      (cs.head? ≠ some [caret] → contents = listed) := by
  obtain ⟨hbody, hne, -⟩ := splitClass_eq_some hsplit
  by_cases hcaret : cs.head? = some [caret]
  · cases cs with
    | nil => simp at hcaret
    | cons c cs =>
      obtain rfl : c = [caret] := by simpa using hcaret
      refine ⟨[caret] :: listed, ?_, by simp, by simp, by simp⟩
      simpa [classBody] using hbody
  · rw [classBody, if_neg hcaret] at hbody
    refine ⟨listed, hbody, ?_, by simp [hcaret], by simp⟩
    obtain ⟨first, rest, rfl⟩ := List.exists_cons_of_ne_nil hne
    simp [hbody]

variable {fuel : Nat} {t : UInt8} {ts : List UInt8}

theorem matchPattern_bracket {p : List UInt8} {q : Nat} (n : Nat)
    (hq : (if deref p = caret then 2 else 1) = q) :
    matchPattern (fuel + 1) (t :: ts) (openBracket :: p) (n + 1) =
      if n ≤ q then .abort
      else
        match ((p.take n).drop q).findIdx? (· = closeBracket) with
        | none => .abort
        | some i =>
          if matchClass (codePoint (t :: trail t ts)) (p.take (q + i)) then
            matchPattern fuel (ts.drop (trail t ts).length) (p.drop (q + i + 1))
              (n - (q + i + 1))
          else .no := by
  rw [matchPattern, if_neg (by omega), if_neg (by simp), if_neg (by simp +decide),
    if_neg (by simp +decide), if_neg (by simp +decide), if_pos (by simp)]
  dsimp only
  rw [show (if deref (openBracket :: p).tail = caret then 2 else 1) = q from hq]
  cases hclose : ((p.take n).drop q).findIdx? (· = closeBracket) with
  | none => simp [hclose]
  | some i => simp [utf8Decode_eq t ts (Or.inl rfl), hclose]

theorem matchPattern_class {cs listed cs' contents : List Character}
    (hwf : ∀ c ∈ cs, WellFormed c) (hsplit : splitClass (classBody cs) = some (listed, cs'))
    (hcs : cs = contents ++ [closeBracket] :: cs')
    (hcaret : cs.head? = some [caret] → contents = [caret] :: listed)
    (hplain : cs.head? ≠ some [caret] → contents = listed) :
    matchPattern (fuel + 1) (t :: ts) (openBracket :: cs.flatten) (cs.flatten.length + 1) =
      if matchClass (codePoint (t :: trail t ts)) contents.flatten then
        matchPattern fuel (ts.drop (trail t ts).length) cs'.flatten cs'.flatten.length
      else .no := by
  obtain ⟨-, hne, hmem⟩ := splitClass_eq_some hsplit
  obtain ⟨first, rest, rfl⟩ := List.exists_cons_of_ne_nil hne
  have hsub : ∀ c ∈ first :: rest, WellFormed c := by
    intro c hc
    apply hwf
    by_cases h : cs.head? = some [caret]
    · rw [hcs, hcaret h]
      exact List.mem_append_left _ (mem_cons_of_mem _ hc)
    · rw [hcs, hplain h]
      exact List.mem_append_left _ hc
  obtain ⟨o, conts, rfl⟩ := (hsub first (mem_cons_self ..)).exists_eq_cons
  have hnotMem : closeBracket ∉ conts ++ rest.flatten := by
    rw [List.mem_append, not_or]
    refine ⟨fun h => ?_, notMem_flatten (fun c hc => hsub c (mem_cons_of_mem _ hc))
      (by decide) (by simpa using hmem)⟩
    have := (hsub _ (mem_cons_self ..)).tail_isContinuation _ h
    revert this
    decide
  have hfind : ∀ ys, (conts ++ rest.flatten ++ closeBracket :: ys).findIdx? (· = closeBracket) =
      some (conts ++ rest.flatten).length := by
    intro ys
    rw [List.findIdx?_append, List.findIdx?_eq_none_iff.mpr (by
      intro x hx
      simp only [decide_eq_false_iff_not]
      rintro rfl
      exact hnotMem hx), List.findIdx?_cons]
    simp
  have hq : ∃ front, cs.flatten = front ++ o :: (conts ++ rest.flatten ++
      closeBracket :: cs'.flatten) ∧ contents.flatten = front ++ o :: (conts ++ rest.flatten) ∧
      (if deref cs.flatten = caret then 2 else 1) = front.length + 1 := by
    by_cases h : cs.head? = some [caret]
    · refine ⟨[caret], ?_, by simp [hcaret h], ?_⟩
      · rw [hcs, hcaret h]; simp
      · rw [if_pos ((deref_flatten_eq_iff hwf (by decide) (by decide)).mpr h)]
        rfl
    · refine ⟨[], ?_, by simp [hplain h], ?_⟩
      · rw [hcs, hplain h]; simp
      · rw [if_neg (mt (deref_flatten_eq_iff hwf (by decide) (by decide)).mp h)]
        rfl
  obtain ⟨front, hflat, hcontents, hq⟩ := hq
  have hlength : cs.flatten.length = front.length + 1 + (conts ++ rest.flatten).length + 1 +
      cs'.flatten.length := by
    rw [hflat]
    simp only [length_append, length_cons]
    omega
  have hdrop : (cs.flatten.take cs.flatten.length).drop (front.length + 1) =
      conts ++ rest.flatten ++ closeBracket :: cs'.flatten := by
    rw [List.take_length, hflat, ← drop_drop, List.drop_left]
    rfl
  have htake : cs.flatten.take (front.length + 1 + (conts ++ rest.flatten).length) =
      contents.flatten := by
    rw [hflat, hcontents, show front ++ o :: (conts ++ rest.flatten ++ closeBracket :: cs'.flatten)
      = (front ++ o :: (conts ++ rest.flatten)) ++ closeBracket :: cs'.flatten by simp]
    apply List.take_left'
    simp only [length_append, length_cons]
    omega
  have hrest : cs.flatten.drop (front.length + 1 + (conts ++ rest.flatten).length + 1) =
      cs'.flatten := by
    rw [hflat, show front ++ o :: (conts ++ rest.flatten ++ closeBracket :: cs'.flatten) =
      (front ++ o :: (conts ++ rest.flatten) ++ [closeBracket]) ++ cs'.flatten by simp]
    apply List.drop_left'
    simp only [length_append, length_cons, List.length_nil]
    omega
  rw [matchPattern_bracket _ hq, if_neg (by omega), hdrop, hfind]
  simp only [htake, hrest]
  rw [show cs.flatten.length - (front.length + 1 + (conts ++ rest.flatten).length + 1) =
    cs'.flatten.length by omega]

theorem matchPattern_unclosed {cs : List Character} (hwf : ∀ c ∈ cs, WellFormed c)
    (hsplit : splitClass (classBody cs) = none) :
    matchPattern (fuel + 1) (t :: ts) (openBracket :: cs.flatten) (cs.flatten.length + 1) =
      .abort := by
  have hbody := splitClass_eq_none hsplit
  have hq : ∃ front body : List Character, cs = front ++ body ∧ closeBracket ∉ body.flatten.tail ∧
      (if deref cs.flatten = caret then 2 else 1) = front.flatten.length + 1 := by
    have hnotMem : ∀ body : List Character, (∀ c ∈ body, WellFormed c) →
        [closeBracket] ∉ body.tail →
        closeBracket ∉ body.flatten.tail := by
      intro body hwf hmem
      cases body with
      | nil => simp
      | cons c cs =>
        have hc := hwf c (mem_cons_self ..)
        obtain ⟨o, conts, rfl⟩ := hc.exists_eq_cons
        rw [flatten_cons, List.cons_append, List.tail_cons, List.mem_append, not_or]
        refine ⟨fun h => ?_, notMem_flatten (fun c hc => hwf c (mem_cons_of_mem _ hc))
          (by decide) hmem⟩
        have := hc.tail_isContinuation _ h
        revert this
        decide
    by_cases h : cs.head? = some [caret]
    · rw [if_pos ((deref_flatten_eq_iff hwf (by decide) (by decide)).mpr h)]
      rw [classBody, if_pos h] at hbody
      refine ⟨[[caret]], cs.tail, ?_, hnotMem _ (fun c hc => hwf c (List.mem_of_mem_tail hc)) hbody,
        rfl⟩
      cases cs with
      | nil => simp at h
      | cons c cs => simp_all
    · rw [if_neg (mt (deref_flatten_eq_iff hwf (by decide) (by decide)).mp h)]
      rw [classBody, if_neg h] at hbody
      exact ⟨[], cs, rfl, hnotMem _ hwf hbody, rfl⟩
  obtain ⟨front, body, rfl, hnotMem, hq⟩ := hq
  have hdrop : ((front ++ body).flatten.take (front ++ body).flatten.length).drop
      (front.flatten.length + 1) = body.flatten.tail := by
    rw [List.take_length, List.flatten_append, ← drop_drop, List.drop_left, List.drop_one]
  rw [matchPattern_bracket _ hq]
  split
  · rfl
  next =>
    rw [hdrop, List.findIdx?_eq_none_iff.mpr (by
      intro x hx
      simp only [decide_eq_false_iff_not]
      rintro rfl
      exact hnotMem hx)]

end Class

end Inn.Wildmat
