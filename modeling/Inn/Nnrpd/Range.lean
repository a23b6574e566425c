import Inn.Innd.Numbering

/-!
# Ranges of articles

A range is checked, taken apart into its ends, and cut to the marks of the group. Then the overview
is searched, or the articles are opened one by one. The search takes its ends for `int`s.
-/

namespace Inn.Nnrpd.Range

open Foundation.Words Innd
open Innd.Numbering (atol atol_digits)

def IsValidArticleNumber (string : Octets) : Bool :=
  string.all isdigit && 0 < string.length && string.length < 17

def low (string : Octets) : Octets := string.takeWhile (· ≠ 45)

def high (string : Octets) : Octets := (string.dropWhile (· ≠ 45)).tail

def IsValidRange (string : Octets) : Bool :=
  if string = [45] then true
  else if string.headD 0 = 45 then IsValidArticleNumber string.tail
  else if !string.contains 45 then IsValidArticleNumber string
  else if high string = [] then IsValidArticleNumber (low string)
  else IsValidArticleNumber (low string) && IsValidArticleNumber (high string)

def toARTNUM (value : Int) : Nat := (value % 2 ^ 64).toNat

def toInt (artnum : Nat) : Int := Int.bmod artnum (2 ^ 32)

structure ARTRANGE where
  Low : Nat
  High : Nat

def CMDgetrange (ARTlow ARThigh : Nat) (text : Octets) : ARTRANGE :=
  if !text.contains 45 then ⟨toARTNUM (atol text), toARTNUM (atol text)⟩
  else
    let Low := toARTNUM (atol (low text))
    let High := toARTNUM (atol (high text))
    ⟨if Low < ARTlow then ARTlow else Low,
      if high text = [] ∨ ARThigh < High then ARThigh else High⟩

section Commands

structure Newsgroup where
  ARTlow : Nat
  ARThigh : Nat
  count : Nat
  articles : List Nat
  ints : ARTlow < 2 ^ 31 ∧ ARThigh < 2 ^ 31
  sorted : articles.Pairwise (· < ·)
  positive : ∀ a ∈ articles, 0 < a
  counted : count = 0 → articles = []

variable (g : Newsgroup)

def Newsgroup.OVsearch (low high : Int) : List Nat :=
  if toARTNUM high < toARTNUM low then []
  else g.articles.filter fun a => toARTNUM low ≤ a ∧ a ≤ toARTNUM high

def Newsgroup.openEach (range : ARTRANGE) : List Nat :=
  if range.High = 0 then []
  else (List.range' range.Low (range.High + 1 - range.Low)).filter g.articles.contains

def Newsgroup.CMDover (text : Octets) : List Nat :=
  let range := CMDgetrange g.ARTlow g.ARThigh text
  g.OVsearch (toInt range.Low) (toInt range.High)

def Newsgroup.CMDpat (Overview : Bool) (text : Octets) : List Nat :=
  let range := CMDgetrange g.ARTlow g.ARThigh text
  if Overview then g.OVsearch (toInt range.Low) (toInt range.High) else g.openEach range

def Newsgroup.CMDgroup (text : Octets) : List Nat :=
  let range := CMDgetrange g.ARTlow g.ARThigh text
  if g.count = 0 then [] else g.OVsearch (toInt range.Low) (toInt range.High)

end Commands

def lower (text : Octets) : Nat := readDigits (low text)

def upper (text : Octets) : Option Nat :=
  if !text.contains 45 then some (readDigits text)
  else if high text = [] then none
  else some (readDigits (high text))

def Newsgroup.selected (g : Newsgroup) (text : Octets) : List Nat :=
  g.articles.filter fun a => (lower text ≤ a ∧ ∀ n ∈ upper text, a ≤ n) ∧
    g.ARTlow ≤ a ∧ a ≤ g.ARThigh

theorem IsValidArticleNumber_iff {string : Octets} :
    IsValidArticleNumber string = true ↔ (∀ c ∈ string, isdigit c) ∧ string ≠ [] ∧
      string.length ≤ 16 := by
  rw [IsValidArticleNumber, Bool.and_eq_true, Bool.and_eq_true, List.all_eq_true, decide_eq_true_eq,
    decide_eq_true_eq,
    and_assoc, List.length_pos_iff, Nat.lt_succ_iff]

structure Digits (text : Octets) : Prop where
  digits : ∀ c ∈ text, isdigit c
  length : text.length ≤ 16

theorem Digits.of_valid {string : Octets} (hvalid : IsValidArticleNumber string = true) :
    Digits string :=
  ⟨(IsValidArticleNumber_iff.mp hvalid).1, (IsValidArticleNumber_iff.mp hvalid).2.2⟩

theorem Digits.nil : Digits [] := ⟨nofun, Nat.zero_le _⟩

theorem low_of_not_mem {text : Octets} (hdash : 45 ∉ text) : low text = text :=
  List.takeWhile_eq_self_iff.mpr fun c hc => by simpa using fun h : c = 45 => hdash (h ▸ hc)

theorem Digits.of_range {text : Octets} (hvalid : IsValidRange text = true) :
    Digits (low text) ∧ Digits (high text) := by
  rw [IsValidRange] at hvalid
  split at hvalid
  next hdash =>
    subst hdash
    exact ⟨.nil, .nil⟩
  · split at hvalid
    next hfirst =>
      cases text with
      | nil => exact absurd hfirst (by decide)
      | cons c text =>
        obtain rfl : c = 45 := hfirst
        exact ⟨.nil, .of_valid hvalid⟩
    · split at hvalid
      next hnone =>
        have hdash : 45 ∉ text := by simpa using hnone
        have hhigh : high text = [] := by
          rw [high, List.dropWhile_eq_nil_iff.mpr fun c hc =>
            by simpa using fun h : c = 45 => hdash (h ▸ hc)]
          rfl
        rw [low_of_not_mem hdash, hhigh]
        exact ⟨.of_valid hvalid, .nil⟩
      · split at hvalid
        next hopen =>
          rw [hopen]
          exact ⟨.of_valid hvalid, .nil⟩
        · rw [Bool.and_eq_true] at hvalid
          exact ⟨.of_valid hvalid.1, .of_valid hvalid.2⟩

theorem readDigits_lt {text : Octets} (hdigits : ∀ c ∈ text, isdigit c) :
    readDigits text < 10 ^ text.length := by
  have hfold (n : Nat) :
      text.foldl (fun n c => 10 * n + (c.toNat - 48)) n < (n + 1) * 10 ^ text.length := by
    induction text generalizing n with
    | nil => simp
    | cons c text ih =>
      have hc := hdigits c List.mem_cons_self
      rw [isdigit, Bool.and_eq_true, decide_eq_true_eq, decide_eq_true_eq, UInt8.le_iff_toNat_le,
        UInt8.le_iff_toNat_le] at hc
      have h57 : (57 : UInt8).toNat = 57 := rfl
      have hnext : 10 * n + (c.toNat - 48) + 1 ≤ (n + 1) * 10 := by omega
      calc (c :: text).foldl (fun n c => 10 * n + (c.toNat - 48)) n
          < (10 * n + (c.toNat - 48) + 1) * 10 ^ text.length :=
            ih (fun c hc => hdigits c (List.mem_cons_of_mem _ hc)) _
        _ ≤ (n + 1) * 10 * 10 ^ text.length := Nat.mul_le_mul_right _ hnext
        _ = (n + 1) * 10 ^ (c :: text).length := by rw [List.length_cons, pow_succ', mul_assoc]
  have hzero := hfold 0
  rwa [Nat.zero_add, one_mul] at hzero

theorem Digits.number {text : Octets} (hdigits : Digits text) :
    toARTNUM (atol text) = readDigits text := by
  cases text with
  | nil => rfl
  | cons c text =>
    have hread : atol (c :: text ++ []) = _ :=
      atol_digits hdigits.digits (List.cons_ne_nil _ _) nofun
    have hlt :=
      (readDigits_lt hdigits.digits).trans_le (Nat.pow_le_pow_right (by decide) hdigits.length)
    rw [List.append_nil] at hread
    rw [hread, toARTNUM]
    omega

theorem CMDgetrange_single {text : Octets} (hvalid : IsValidRange text = true)
    (hdash : text.contains 45 = false)
    (ARTlow ARThigh : Nat) : CMDgetrange ARTlow ARThigh text = ⟨lower text, lower text⟩ := by
  have hlow : low text = text := low_of_not_mem (by simpa using hdash)
  have hnumber := (Digits.of_range hvalid).1.number
  rw [CMDgetrange, hdash, if_pos (by decide), lower, ← hnumber, hlow]

theorem CMDgetrange_dash {text : Octets} (hvalid : IsValidRange text = true)
    (hdash : text.contains 45 = true) (ARTlow ARThigh : Nat) :
    CMDgetrange ARTlow ARThigh text =
      ⟨max (lower text) ARTlow, (upper text).elim ARThigh (min ARThigh)⟩ := by
  obtain ⟨hlow, hhigh⟩ := Digits.of_range hvalid
  rw [CMDgetrange, upper, hdash, if_neg (by decide), if_neg (by decide)]
  dsimp only
  rw [hlow.number, hhigh.number, ← lower]
  congr 1
  · split <;> omega
  · by_cases hopen : high text = []
    · rw [if_pos (.inl hopen), if_pos hopen]
      rfl
    · rw [if_neg hopen, Option.elim_some]
      split
      next h => have := h.resolve_left hopen; omega
      next h => rw [not_or] at h; omega

section Searches

def wrap (artnum : Nat) : Nat := toARTNUM (toInt artnum)

theorem wrap_of_lt {artnum : Nat} (hsmall : artnum < 2 ^ 31) : wrap artnum = artnum := by
  have hint : toInt artnum = artnum :=
    Int.bmod_eq_of_le_mul_two (by push_cast; omega) (by push_cast; omega)
  rw [wrap, hint, toARTNUM]
  omega

variable (g : Newsgroup)

theorem OVsearch_eq (low high : Int) :
    g.OVsearch low high = g.articles.filter fun a => toARTNUM low ≤ a ∧ a ≤ toARTNUM high := by
  rw [Newsgroup.OVsearch]
  split
  next hempty =>
    refine (List.filter_eq_nil_iff.mpr fun a _ => ?_).symm
    rw [decide_eq_true_eq]
    omega
  · rfl

theorem OVsearch_wrap (Low High : Nat) :
    g.OVsearch (toInt Low) (toInt High) = g.articles.filter fun a => wrap Low ≤ a ∧ a ≤ wrap High :=
  OVsearch_eq g _ _

theorem openEach_eq (range : ARTRANGE) :
    g.openEach range = g.articles.filter fun a => range.Low ≤ a ∧ a ≤ range.High := by
  rw [Newsgroup.openEach]
  split
  next hzero =>
    refine (List.filter_eq_nil_iff.mpr fun a ha => ?_).symm
    have := g.positive a ha
    rw [decide_eq_true_eq]
    omega
  · have hloop :
        ((List.range' range.Low (range.High + 1 - range.Low)).filter g.articles.contains).Pairwise
        (· < ·) :=
      List.Pairwise.filter _ List.pairwise_lt_range'
    have hfilter := g.sorted.filter fun a => decide (range.Low ≤ a ∧ a ≤ range.High)
    refine List.Perm.eq_of_pairwise (fun a b _ _ hab hba => absurd hab hba.asymm) hloop hfilter ?_
    refine (List.perm_ext_iff_of_nodup (hloop.imp Nat.ne_of_lt) (hfilter.imp Nat.ne_of_lt)).mpr
      fun a => ?_
    rw [List.mem_filter, List.mem_filter, List.mem_range'_1, List.contains_iff_mem,
      decide_eq_true_eq, and_comm]
    refine and_congr_right fun _ => ?_
    omega

theorem filter_eq_filter_iff {l : List Nat} {p q : Nat → Prop} [DecidablePred p] [DecidablePred q] :
    l.filter (fun a => p a) = l.filter (fun a => q a) ↔ ∀ a ∈ l, p a ↔ q a := by
  constructor
  · intro heq a ha
    have hmem := congrArg (a ∈ ·) heq
    simpa [ha] using hmem
  · exact fun hiff => List.filter_congr fun a ha => by rw [decide_eq_decide.mpr (hiff a ha)]

end Searches

section Commands

variable (g : Newsgroup) {text : Octets}

theorem commands_eq :
    (g.CMDover text = g.selected text ∧ (∀ Overview, g.CMDpat Overview text = g.selected text) ∧
      g.CMDgroup text = g.selected text) ↔
    ∀ a ∈ g.articles,
      ((wrap (CMDgetrange g.ARTlow g.ARThigh text).Low ≤ a ∧
        a ≤ wrap (CMDgetrange g.ARTlow g.ARThigh text).High) ↔
        ((lower text ≤ a ∧ ∀ n ∈ upper text, a ≤ n) ∧ g.ARTlow ≤ a ∧ a ≤ g.ARThigh)) ∧
      (((CMDgetrange g.ARTlow g.ARThigh text).Low ≤ a ∧
        a ≤ (CMDgetrange g.ARTlow g.ARThigh text).High) ↔
        ((lower text ≤ a ∧ ∀ n ∈ upper text, a ≤ n) ∧ g.ARTlow ≤ a ∧ a ≤ g.ARThigh)) := by
  generalize hrange : CMDgetrange g.ARTlow g.ARThigh text = range
  have hsearch : g.CMDover text = g.articles.filter fun a => wrap range.Low ≤ a ∧
      a ≤ wrap range.High := by
    rw [Newsgroup.CMDover, hrange, OVsearch_wrap]
  have hloop : g.CMDpat false text = g.articles.filter fun a => range.Low ≤ a ∧ a ≤ range.High := by
    rw [Newsgroup.CMDpat, hrange, if_neg (by decide), openEach_eq]
  have hover : g.CMDover text = g.selected text ↔
      ∀ a ∈ g.articles, (wrap range.Low ≤ a ∧ a ≤ wrap range.High) ↔
      ((lower text ≤ a ∧ ∀ n ∈ upper text, a ≤ n) ∧ g.ARTlow ≤ a ∧ a ≤ g.ARThigh) := by
    rw [hsearch, Newsgroup.selected, filter_eq_filter_iff]
  have heach : g.CMDpat false text = g.selected text ↔
      ∀ a ∈ g.articles, (range.Low ≤ a ∧ a ≤ range.High) ↔
      ((lower text ≤ a ∧ ∀ n ∈ upper text, a ≤ n) ∧ g.ARTlow ≤ a ∧ a ≤ g.ARThigh) := by
    rw [hloop, Newsgroup.selected, filter_eq_filter_iff]
  have hgroup : g.CMDover text = g.selected text → g.CMDgroup text = g.selected text := by
    intro h
    rw [Newsgroup.CMDgroup]
    split
    next hcount => rw [Newsgroup.selected, g.counted hcount, List.filter_nil]
    · exact h
  rw [forall₂_and]
  constructor
  · rintro ⟨h, hpat, -⟩
    exact ⟨hover.mp h, heach.mp (hpat false)⟩
  · rintro ⟨h, hpat⟩
    refine ⟨hover.mpr h, fun Overview => ?_, hgroup (hover.mpr h)⟩
    cases Overview with
    | true =>
      rw [Newsgroup.CMDpat, if_pos rfl, hrange, OVsearch_wrap, ← hsearch]
      exact hover.mpr h
    | false => exact heach.mpr hpat

/-- The commands list the articles in a range when its ends keep their values as `int`s and a single
number is between the marks, or no article is taken for one in the range. -/
theorem range_iff (hvalid : IsValidRange text = true) :
    (g.CMDover text = g.selected text ∧ (∀ Overview, g.CMDpat Overview text = g.selected text) ∧
      g.CMDgroup text = g.selected text) ↔
    if text.contains 45 then
      2 ^ 31 ≤ lower text → ∀ a ∈ g.articles, wrap (lower text) ≤ a → a ≤ g.ARThigh →
        ∃ n ∈ upper text, n < a
    else
      ∀ a ∈ g.articles, a = lower text ∨ a = wrap (lower text) → a = lower text ∧ g.ARTlow ≤ a ∧
        a ≤ g.ARThigh := by
  have hints := g.ints
  rw [commands_eq]
  cases hdash : text.contains 45 with
  | false =>
    have hupper : upper text = some (lower text) := by
      have hlow : low text = text := low_of_not_mem (by simpa using hdash)
      rw [upper, hdash, lower, hlow]
      rfl
    rw [if_neg (by decide), CMDgetrange_single hvalid hdash, hupper]
    simp only [Option.mem_some_iff, forall_eq']
    refine forall₂_congr fun a _ =>
      ⟨fun ⟨hover, heach⟩ h => ?_, fun h => ⟨⟨fun hin => ?_, fun hin => ?_⟩, ?_⟩⟩
    · rcases h with h | h
      · have := heach.mp ⟨h.ge, h.le⟩
        exact ⟨h, this.2⟩
      · have := hover.mp ⟨h.ge, h.le⟩
        exact ⟨by omega, this.2⟩
    · obtain ⟨heq, hmarks⟩ := h (.inr (by omega))
      exact ⟨⟨heq.ge, heq.le⟩, hmarks⟩
    · rw [wrap_of_lt (by omega)]
      exact hin.1
    · constructor
      · intro hin
        obtain ⟨heq, hmarks⟩ := h (.inl (by omega))
        exact ⟨hin, hmarks⟩
      · exact fun hin => hin.1
  | true =>
    have htop : (upper text).elim g.ARThigh (min g.ARThigh) < 2 ^ 31 := by
      cases upper text with
      | none => exact hints.2
      | some n => exact (min_le_left _ _).trans_lt hints.2
    have hbelow : ∀ a, a ≤ (upper text).elim g.ARThigh (min g.ARThigh) ↔
        (∀ n ∈ upper text, a ≤ n) ∧ a ≤ g.ARThigh := by
      intro a
      cases upper text with
      | none => simp
      | some n => simp [and_comm]
    rw [if_pos rfl, CMDgetrange_dash hvalid hdash]
    dsimp only
    rw [wrap_of_lt htop]
    have heach :
        ∀ a, (max (lower text) g.ARTlow ≤ a ∧ a ≤ (upper text).elim g.ARThigh (min g.ARThigh)) ↔
        ((lower text ≤ a ∧ ∀ n ∈ upper text, a ≤ n) ∧ g.ARTlow ≤ a ∧ a ≤ g.ARThigh) := by
      intro a
      rw [hbelow, max_le_iff]
      tauto
    by_cases hsmall : lower text < 2 ^ 31
    · rw [wrap_of_lt (max_lt hsmall hints.1)]
      exact iff_of_true (fun a _ => ⟨heach a, heach a⟩) fun h => absurd h (Nat.not_le.mpr hsmall)
    · have hmax : max (lower text) g.ARTlow = lower text := max_eq_left (by omega)
      rw [hmax] at heach ⊢
      rw [imp_iff_right (Nat.not_lt.mp hsmall)]
      refine forall₂_congr fun a _ => ?_
      have hnone :
          ¬((lower text ≤ a ∧ ∀ n ∈ upper text, a ≤ n) ∧ g.ARTlow ≤ a ∧ a ≤ g.ARThigh) := by
        rintro ⟨⟨hlower, -⟩, -, hhigh⟩
        omega
      rw [and_iff_left (heach a), iff_false_right hnone, hbelow, not_and, not_and']
      refine forall_congr' fun _ => forall_congr' fun _ => ?_
      simp

def twoArticles : Newsgroup where
  ARTlow := 1
  ARThigh := 2
  count := 2
  articles := [1, 2]
  ints := by decide
  sorted := by decide
  positive := by decide
  counted := by decide

theorem twoArticles_range :
    twoArticles.CMDover (octets "2-") = twoArticles.selected (octets "2-") ∧
      (∀ Overview, twoArticles.CMDpat Overview (octets "2-") = twoArticles.selected (octets "2-")) ∧
      twoArticles.CMDgroup (octets "2-") = twoArticles.selected (octets "2-") :=
  (range_iff twoArticles (by decide)).mpr (by
    rw [if_pos (by decide)]
    exact fun h => absurd h (by decide))

/-- The number 2^32 + 1 selects the article 1. -/
theorem not_range :
    ¬∀ (g : Newsgroup) (text : Octets), IsValidRange text = true →
      g.CMDover text = g.selected text ∧ (∀ Overview, g.CMDpat Overview text = g.selected text) ∧
        g.CMDgroup text = g.selected text := by
  intro hall
  have hover := (hall twoArticles (octets "4294967297") (by decide)).1
  have hfirst : twoArticles.CMDover (octets "4294967297") = [1] := by decide
  have hnone : twoArticles.selected (octets "4294967297") = [] := by decide
  rw [hfirst, hnone] at hover
  exact absurd hover nofun

end Commands

end Inn.Nnrpd.Range
