import Inn.Lib.Wire

/-!
# The first header of a name

A field that has nothing in it but blanks and folds does not answer, and the walk goes on behind it.
It goes wrong at the last field of an article, where the loop gives up too early or looks beyond the
end for a fold.
-/

namespace Inn.Lib.Wire

open Wildmat (CString)
open Foundation.Bounded
open WireText (sameName)

section Fields

variable {header : CString} {p q : Octets}

def Blank (p : Octets) : Prop := p = [] ∨ CRLF <+: p

def Answers (header : CString) (p : Octets) : Prop :=
    ¬Blank p ∧ IsField header p ∧ ¬Blank (content header p)

instance (p : Octets) : Decidable (Blank p) := inferInstanceAs (Decidable (_ ∨ _))

instance (header : CString) (p : Octets) : Decidable (Answers header p) :=
    inferInstanceAs (Decidable (_ ∧ _ ∧ _))

def nextHeader (header : CString) (p : Octets) : Option Octets :=
  if Blank p ∨ Answers header p then none
    else lineAfter (if IsField header p then content header p else p)

inductive HeaderText (header : CString) : Octets → Option Octets → Prop
  | found {p : Octets} : Answers header p → HeaderText header p (some (content header p))
  | next {p q : Octets} {text : Option Octets} :
      nextHeader header p = some q → HeaderText header q text → HeaderText header p text
  | missing {p : Octets} : ¬Answers header p → nextHeader header p = none → HeaderText header p none

def Reaches (header : CString) : Octets → Octets → Prop :=
  Relation.ReflTransGen fun p q => nextHeader header p = some q

def Short (header : CString) (p : Octets) : Prop :=
    Answers header p ∧ p.length = header.octets.length + 3

def Cut (header : CString) (p : Octets) : Prop :=
  ¬Blank p ∧ IsField header p ∧ header.octets.length + 3 < p.length ∧
    (content header p = [CR] ∨ content header p = CRLF)

theorem nextHeader_length (hnext : nextHeader header p = some q) : q.length + 2 ≤ p.length := by
  rw [nextHeader] at hnext
  split at hnext
  · cases hnext
  have hline := lineAfter_length hnext
  split at hline
  · have := skipBlanks_length (p.drop (header.octets.length + 2))
    rw [List.length_drop] at this
    exact hline.trans (this.trans (Nat.sub_le ..))
  · exact hline

theorem HeaderText.of_answers {text : Option Octets} (hanswers : Answers header p)
    (h : HeaderText header p text) :
    text = some (content header p) := by
  have hnone : nextHeader header p = none := if_pos (.inr hanswers)
  cases h with
  | found _ => rfl
  | next hnext _ => exact absurd (hnone.symm.trans hnext) (by nofun)
  | missing hno _ => exact absurd hanswers hno

theorem HeaderText.of_next {text : Option Octets} (hnext : nextHeader header p = some q) :
    HeaderText header p text ↔ HeaderText header q text := by
  refine ⟨fun h => ?_, .next hnext⟩
  cases h with
  | found hanswers => exact absurd ((if_pos (.inr hanswers)).symm.trans hnext) (by nofun)
  | next hnext' htext =>
    cases hnext.symm.trans hnext'
    exact htext
  | missing _ hnone => exact absurd (hnone.symm.trans hnext) (by nofun)

def Regular (header : CString) (p : Octets) : Prop :=
    ∀ q, Reaches header p q → ¬Short header q ∧ ¬Cut header q

theorem regular_iff : Regular header p ↔
    (¬Short header p ∧ ¬Cut header p) ∧ ∀ q, nextHeader header p = some q → Regular header q := by
  constructor
  · exact fun h => ⟨h p .refl, fun q hnext r hreaches => h r (.head hnext hreaches)⟩
  · rintro ⟨hhere, hthere⟩ r hreaches
    obtain rfl | ⟨q, hnext, hreaches⟩ := hreaches.cases_head
    · exact hhere
    · exact hthere q hnext r hreaches

theorem not_answers_short (hshort : p.length ≤ header.octets.length + 2) : ¬Answers header p := by
  rintro ⟨-, -, hcontent⟩
  refine hcontent (.inl ?_)
  rw [content, List.drop_of_length_le hshort]
  rfl

theorem missing_short (hshort : p.length ≤ header.octets.length + 2) :
    HeaderText header p none ∧ Regular header p := by
  induction hlength : p.length using Nat.strong_induction_on generalizing p with
  | _ n ih =>
    subst hlength
    have hno := not_answers_short hshort
    have hregular : ¬Short header p ∧ ¬Cut header p :=
      ⟨fun h => hno h.1, fun h => by have := h.2.2.1; omega⟩
    cases hnext : nextHeader header p with
    | none => exact ⟨.missing hno hnext, regular_iff.mpr ⟨hregular, by rw [hnext]; nofun⟩⟩
    | some q =>
      have hlength := nextHeader_length hnext
      obtain ⟨htext, hq⟩ := ih q.length (by omega) (p := q) (by omega) rfl
      refine ⟨.next hnext htext, regular_iff.mpr ⟨hregular, ?_⟩⟩
      rintro q' hnext'
      cases hnext.symm.trans hnext'
      exact hq

/-- The field that is found is the first one with contents. -/
def Finds (header : CString) (p : Octets) (run : Except Unit (Option Octets)) : Prop :=
  ∃ text, run = .ok text ∧ HeaderText header p text

theorem finds_ok {text : Option Octets} : Finds header p (.ok text) ↔ HeaderText header p text :=
  ⟨fun ⟨_, htext, h⟩ => Except.ok.inj htext ▸ h, fun h => ⟨text, rfl, h⟩⟩

theorem not_finds_error : ¬Finds header p (.error ()) := nofun

theorem finds_onward {turn : Octets → Except Unit (Option Octets)} {line : Octets}
    (hturn : ∀ q, q.length < p.length → (Finds header q (turn q) ↔ Regular header q))
    (hno : ¬Answers header p)
    (hhere : ¬Cut header p) (hnext : nextHeader header p = lineAfter line) :
    Finds header p (onward turn line) ↔ Regular header p := by
  have hregular : ¬Short header p ∧ ¬Cut header p := ⟨fun h => hno h.1, hhere⟩
  rw [onward, ← hnext]
  cases hline : nextHeader header p with
  | none =>
    rw [Option.filter_none]
    exact iff_of_true (finds_ok.mpr (.missing hno hline))
      (regular_iff.mpr ⟨hregular, by rw [hline]; rintro _ ⟨⟩⟩)
  | some q =>
    have hiff : Regular header p ↔ Regular header q := by
      rw [regular_iff]
      refine ⟨fun h => h.2 q hline, fun h => ⟨hregular, fun q' hq' => ?_⟩⟩
      exact Option.some.inj (hline.symm.trans hq') ▸ h
    have hlength := nextHeader_length hline
    rw [hiff]
    by_cases hlong : 2 ≤ q.length
    · rw [Option.filter_some, if_pos (decide_eq_true hlong), ← hturn q (by omega)]
      exact exists_congr fun text => and_congr_right fun _ => HeaderText.of_next hline
    · rw [Option.filter_some, if_neg (by rwa [decide_eq_true_eq])]
      obtain ⟨htext, hq⟩ := @missing_short header q (by omega)
      exact iff_of_true (finds_ok.mpr (.next hline htext)) hq

theorem finds_none (hno : ¬Answers header p) (hhere : ¬Cut header p)
    (hnext : nextHeader header p = none) :
    Finds header p (.ok none) ↔ Regular header p :=
  iff_of_true (finds_ok.mpr (.missing hno hnext)) (regular_iff.mpr ⟨⟨fun h => hno h.1, hhere⟩,
    by rw [hnext]; nofun⟩)

theorem finds_content (hanswers : Answers header p) (hhere : ¬Short header p ∧ ¬Cut header p) :
    Finds header p (.ok (some (content header p))) ↔ Regular header p :=
  iff_of_true (finds_ok.mpr (.found hanswers))
    (regular_iff.mpr ⟨hhere,
      fun _ hnext => absurd ((if_pos (.inr hanswers)).symm.trans hnext) (by nofun)⟩)

theorem finds_near (hnear : p.length ≤ header.octets.length + 3) :
    Finds header p (.ok none) ↔ Regular header p := by
  have hcut : ¬Cut header p := fun h => by have := h.2.2.1; omega
  by_cases hanswers : Answers header p
  · have hlength : p.length = header.octets.length + 3 := by
      by_contra hne
      exact not_answers_short (by omega) hanswers
    refine iff_of_false (fun h => ?_) fun h => (h p .refl).1 ⟨hanswers, hlength⟩
    exact absurd (HeaderText.of_answers hanswers (finds_ok.mp h)) (by nofun)
  · cases hnext : nextHeader header p with
    | none => exact finds_none hanswers hcut hnext
    | some q =>
      have hlength := nextHeader_length hnext
      obtain ⟨htext, hq⟩ := @missing_short header q (by omega)
      refine iff_of_true (finds_ok.mpr (.next hnext htext))
        (regular_iff.mpr ⟨⟨fun h => hanswers h.1, hcut⟩, ?_⟩)
      rintro q' hnext'
      cases hnext.symm.trans hnext'
      exact hq

theorem blank_iff (hne : p ≠ []) : Blank p ↔ CRLF <+: p := or_iff_right hne

theorem findHeader_iff {bound : Nat} (hbound : p.length < bound) :
    Finds header p (findHeader header true bound p) ↔ Regular header p := by
  induction bound generalizing p with
  | zero => exact absurd hbound (Nat.not_lt_zero _)
  | succ bound ih =>
    rcases Nat.lt_or_ge (header.octets.length + 3) p.length with hlong | hnear
    swap
    · have hturn : findHeader header true (bound + 1) p = .ok none := by
        rw [findHeader]
        exact if_neg (by omega)
      rw [hturn]
      exact finds_near hnear
    have hturn : ∀ q, q.length < p.length →
        (Finds header q (findHeader header true bound q) ↔ Regular header q) :=
      fun q hq => ih (by omega)
    have hne : p ≠ [] := by
      rintro rfl
      exact absurd hlong (Nat.not_lt_zero _)
    rw [findHeader_long true bound hlong]
    by_cases hblank : CRLF <+: p
    · rw [if_pos hblank]
      exact finds_none (fun h => h.1 (.inr hblank)) (fun h => h.1 (.inr hblank))
        (if_pos (.inl (.inr hblank)))
    rw [if_neg hblank]
    have hblank' : ¬Blank p := fun h => hblank ((blank_iff hne).mp h)
    by_cases hfield : IsField header p
    · rw [if_pos hfield, if_pos rfl, skipped]
      by_cases hcut : content header p = [CR] ∨ content header p = CRLF
      · rw [if_pos hcut]
        exact iff_of_false not_finds_error fun h => (h p .refl).2 ⟨hblank', hfield, hlong, hcut⟩
      have hhere : ¬Cut header p := fun h => hcut h.2.2.2
      have hshort : ¬Short header p := fun h => by have := h.2; omega
      rw [if_neg hcut]
      by_cases hempty : content header p = []
      · rw [if_pos hempty]
        have hno : ¬Answers header p := fun h => h.2.2 (.inl hempty)
        refine finds_none hno hhere ?_
        rw [nextHeader, if_neg (not_or_intro hblank' hno), if_pos hfield, hempty]
        rfl
      rw [if_neg hempty]
      by_cases hcrlf : CRLF <+: content header p
      · have hno : ¬Answers header p := fun h => h.2.2 (.inr hcrlf)
        have hlength := hcrlf.length_le
        change Finds header p (if _ then _ else _) ↔ _
        rw [if_neg (not_or_intro (by change 2 ≤ _ at hlength; omega) (not_not.mpr hcrlf))]
        refine finds_onward hturn hno hhere ?_
        rw [nextHeader, if_neg (not_or_intro hblank' hno), if_pos hfield]
      · change Finds header p (if _ then _ else _) ↔ _
        rw [if_pos (.inr hcrlf)]
        exact finds_content ⟨hblank', hfield, fun h => hcrlf ((blank_iff hempty).mp h)⟩
          ⟨hshort, hhere⟩
    · rw [if_neg hfield]
      have hno : ¬Answers header p := fun h => hfield h.2.1
      refine finds_onward hturn hno (fun h => hfield h.2.1) ?_
      rw [nextHeader, if_neg (not_or_intro hblank' hno), if_neg hfield]

theorem findHeader_safe (bound : Nat) (p : Octets) : Safe (findHeader header false bound p) := by
  induction bound generalizing p with
  | zero => exact safe_ok none
  | succ bound ih =>
    have honward : ∀ p, Safe (onward (findHeader header false bound) p) := by
      intro p
      rw [onward]
      split
      · exact safe_ok none
      · exact ih _
    rcases Nat.lt_or_ge (header.octets.length + 3) p.length with hlong | hnear
    · rw [findHeader_long false bound hlong]
      split
      · exact safe_ok none
      split
      · change Safe (if _ then _ else _)
        split
        · exact safe_ok _
        · exact honward _
      · exact honward p
    · rw [findHeader, if_neg (by omega)]
      exact safe_ok none

theorem endHeader_safe (bound : Nat) (text : Octets) :
    Safe (endHeader text bound ((lineAfter p).filter fun q => 2 ≤ q.length)) := by
  induction bound generalizing p with
  | zero => exact safe_ok none
  | succ bound ih =>
    cases hline : (lineAfter p).filter fun q => 2 ≤ q.length with
    | none =>
      rw [endHeader]
      split
      next hlong =>
        refine (peek_safe (by omega)).bind fun c _ => ?_
        split
        · refine (peek_safe (by omega)).bind fun d _ => ?_
          split
          · exact safe_ok _
          · exact safe_ok none
        · exact safe_ok none
      · exact safe_ok none
    | some q =>
      obtain ⟨-, hlong⟩ := Option.filter_eq_some_iff.mp hline
      rw [decide_eq_true_eq] at hlong
      rw [endHeader]
      refine (peek_safe (by omega)).bind fun c _ => ?_
      split
      · exact safe_ok _
      · rw [wireNextline_eq]
        exact ih

theorem wireEndheader_safe (text : Octets) : Safe (wireEndheader text) := by
  rw [wireEndheader, wireNextline_eq]
  exact endHeader_safe _ text

end Fields

/-- None of the functions reads behind the article. -/
def KeepsWithin (article : Octets) (header : CString) : Prop :=
  Safe (wireFindbody article) ∧ wireNextline article = .ok (lineAfter article) ∧
    Safe (wireFindheader article header false) ∧
      Finds header article (wireFindheader article header true) ∧
      Safe (wireEndheader article)

/-- The functions stay within the article just if no field ends right at its end. -/
theorem keepsWithin_iff (article : Octets) (header : CString) :
    KeepsWithin article header ↔ (∀ q, lineAfter article = some q → 2 ≤ q.length) ∧
      Regular header article := by
  have hheader : Finds header article (wireFindheader article header true) ↔
      Regular header article :=
    findHeader_iff (Nat.lt_succ_self _)
  rw [KeepsWithin, wireNextline_eq_iff, hheader]
  refine ⟨fun h => ⟨h.2.1, h.2.2.2.1⟩, fun h => ?_⟩
  exact ⟨safe_of_eq (wireFindbody_text article), h.1, findHeader_safe .., h.2,
    wireEndheader_safe article⟩

def subject : CString := ⟨octets "Subject", by decide⟩

/-- A head whose last field is blank is read beyond its end. -/
theorem not_keepsWithin : ¬KeepsWithin (octets "Path: a\r\nSubject: \r\n") subject := by
  rintro ⟨-, -, -, ⟨text, htext, -⟩, -⟩
  have herror : wireFindheader (octets "Path: a\r\nSubject: \r\n") subject true = .error () := by
    decide
  exact absurd (herror.symm.trans htext) (by nofun)

end Inn.Lib.Wire
