import Inn.Nnrpd.Post
import Inn.Wildmat.Model

/-!
# Newsgroups and storage classes

A storage class has a pattern for the groups of its articles. The groups are found in a header that
may be folded: a copy of it is made in which a single blank stands for the white space between two
groups.
-/

namespace Inn.Storage.Classes

open Inn.Foundation.Words
open Nnrpd.Post (strtok)
open Wildmat (CString cstring Uwildmat uwildmatPoison)

def isWhite (c : UInt8) : Bool := c = 13 || c = 10 || c = 32 || c = 9

def trim (i : Nat) (lastwhite : Int) : Octets → Octets
  | [] => []
  | c :: g =>
    if isWhite c then
      if lastwhite + 1 ≠ i then 32 :: trim (i + 1) i g else trim (i + 1) i g
    else c :: trim (i + 1) lastwhite g

def groupName (token : Octets) : Octets := token.takeWhile (· ≠ 58)

def judged (pattern : CString) (token : Octets) : Uwildmat :=
    uwildmatPoison (cstring (groupName token)) pattern

def matchTokens (pattern : CString) (exactmatch : Bool) : Bool → List Octets → Bool
  | wanted, [] => wanted
  | wanted, token :: tokens =>
    let matched := judged pattern token
    if matched = .poison ∨ (exactmatch = true ∧ matched = .fail) then false
    else matchTokens pattern exactmatch (wanted || matched = .match) tokens

def MatchGroups (g : Octets) (pattern : CString) (exactmatch : Bool) : Bool :=
  matchTokens pattern exactmatch false (strtok [32, 44] (cstring (trim 0 (-1) g)).octets)

section Splitting

def separates (c : UInt8) : Bool := isWhite c || c = 44

variable {i : Nat} {lastwhite : Int} {c : UInt8} {g : Octets}

theorem separates_false_iff : separates c = false ↔ isWhite c = false ∧ c ≠ 44 := by
  rw [separates, Bool.or_eq_false_iff, decide_eq_false_iff_not]

theorem trim_separates (h : ∀ c ∈ g, separates c = true) :
    ∀ c ∈ trim i lastwhite g, [32, 44].contains c = true := by
  induction g generalizing i lastwhite with
  | nil => nofun
  | cons d g ih =>
    have hrest : ∀ c ∈ g, separates c = true := fun c hc => h c (List.mem_cons_of_mem _ hc)
    rw [trim]
    split_ifs with hwhite hfirst
    · exact List.forall_mem_cons.mpr ⟨rfl, ih hrest⟩
    · exact ih hrest
    · have hd := h d List.mem_cons_self
      rw [separates, Bool.eq_false_iff.mpr hwhite, Bool.false_or] at hd
      obtain rfl := of_decide_eq_true hd
      exact List.forall_mem_cons.mpr ⟨rfl, ih hrest⟩

theorem trim_append (before rest : Octets) (hlast : lastwhite < i) :
    ∃ lastwhite' : Int, lastwhite' < (i + before.length : Nat) ∧
      trim i lastwhite (before ++ rest) =
        trim i lastwhite before ++ trim (i + before.length) lastwhite' rest := by
  induction before generalizing i lastwhite with
  | nil => exact ⟨lastwhite, hlast, rfl⟩
  | cons d before ih =>
    have hlength : i + (d :: before).length = i + 1 + before.length := by
      rw [List.length_cons]; omega
    rw [List.cons_append, trim, trim, hlength]
    split_ifs with hwhite hfirst
    · have hlast : (i : Int) < (i + 1 : Nat) := by omega
      obtain ⟨last, hlast', heq⟩ := ih hlast
      exact ⟨last, hlast', by rw [heq, List.cons_append]⟩
    · exact ih (by omega)
    · have hlast : lastwhite < (i + 1 : Nat) := by omega
      obtain ⟨last, hlast', heq⟩ := ih hlast
      exact ⟨last, hlast', by rw [heq, List.cons_append]⟩

theorem trim_word {word : Octets} (hword : ∀ c ∈ word, separates c = false) (rest : Octets) :
    trim i lastwhite (word ++ rest) = word ++ trim (i + word.length) lastwhite rest := by
  induction word generalizing i with
  | nil => rfl
  | cons d word ih =>
    have hd := (separates_false_iff.mp (hword d List.mem_cons_self)).1
    have hlength : i + (d :: word).length = i + 1 + word.length := by rw [List.length_cons]; omega
    rw [List.cons_append, trim, hd, if_neg Bool.false_ne_true, hlength,
      ih fun c hc => hword c (List.mem_cons_of_mem _ hc), List.cons_append]

theorem trim_head (hlast : lastwhite + 1 < i) (hends : ∀ c, g.head? = some c → separates c = true) :
    ∀ c, (trim i lastwhite g).head? = some c → [32, 44].contains c = true := by
  intro c hc
  cases g with
  | nil => cases hc
  | cons d g =>
    rw [trim] at hc
    split_ifs at hc with hwhite hfirst
    · obtain rfl := Option.some.inj hc
      rfl
    · exact absurd hlast (by omega)
    · obtain rfl := Option.some.inj hc
      have hd := hends d rfl
      rw [separates, Bool.eq_false_iff.mpr hwhite, Bool.false_or] at hd
      obtain rfl := of_decide_eq_true hd
      rfl

theorem listed_trim {names : List Octets} (h : Listed separates names g) (hlast : lastwhite < i) :
    Listed [32, 44].contains names (trim i lastwhite g) := by
  induction h generalizing i lastwhite with
  | none hblanks => exact .none (trim_separates hblanks)
  | @word before word rest more hblanks hnonempty hplain hends _ ih =>
    obtain ⟨lastwhite', hlast', heq⟩ := trim_append before (word ++ rest) hlast
    have hlength := List.length_pos_of_ne_nil hnonempty
    rw [heq, trim_word hplain]
    refine .word (trim_separates hblanks) hnonempty (fun c hc => ?_) (trim_head (by omega) hends)
      (ih (by omega))
    obtain ⟨hwhite, hcomma⟩ := separates_false_iff.mp (hplain c hc)
    have hblank : c ≠ 32 := by
      rintro rfl
      exact absurd hwhite (by decide)
    simp [hblank, hcomma]

theorem trim_takeWhile (g : Octets) : (trim i lastwhite g).takeWhile (· ≠ 0) = trim i lastwhite
    (g.takeWhile (· ≠ 0)) := by
  induction g generalizing i lastwhite with
  | nil => rfl
  | cons d g ih =>
    by_cases hnul : d = 0
    · subst hnul
      rfl
    · rw [List.takeWhile_cons_of_pos (by simpa using hnul), trim, trim]
      split_ifs
      · rw [List.takeWhile_cons_of_pos (by decide), ih]
      · exact ih
      · rw [List.takeWhile_cons_of_pos (by simpa using hnul), ih]

theorem MatchGroups_listed {names : List Octets} (h : Listed separates names (g.takeWhile (· ≠ 0)))
    (pattern : CString) (exactmatch : Bool) :
    MatchGroups g pattern exactmatch = matchTokens pattern exactmatch false names := by
  have hstart : (-1 : Int) < (0 : Nat) := by decide
  have hlisted := listed_trim h hstart
  rw [← trim_takeWhile] at hlisted
  rw [MatchGroups, strtok, cstring, words_listed hlisted hlisted.length_le]

end Splitting

section Wanted

variable {pattern : CString} {exactmatch : Bool}

/-- Some group matches, none is poisoned, and all match if they must. -/
structure Wanted (pattern : CString) (exactmatch : Bool) (names : List Octets) : Prop where
  unpoisoned : ∀ name ∈ names, judged pattern name ≠ .poison
  matching : ∃ name ∈ names, judged pattern name = .match
  exact : exactmatch = true → ∀ name ∈ names, judged pattern name = .match

theorem Wanted.perm {names names' : List Octets} (hperm : names.Perm names')
    (h : Wanted pattern exactmatch names) :
    Wanted pattern exactmatch names' := by
  obtain ⟨name, hname, hmatch⟩ := h.matching
  exact ⟨fun name hname => h.unpoisoned name (hperm.mem_iff.mpr hname),
    ⟨name, hperm.mem_iff.mp hname, hmatch⟩,
    fun hexact name hname => h.exact hexact name (hperm.mem_iff.mpr hname)⟩

theorem matchTokens_iff {wanted : Bool} {tokens : List Octets} :
    matchTokens pattern exactmatch wanted tokens = true ↔
      (∀ token ∈ tokens, ¬(judged pattern token = .poison ∨
        (exactmatch = true ∧ judged pattern token = .fail))) ∧
        (wanted = true ∨ ∃ token ∈ tokens, judged pattern token = .match) := by
  induction tokens generalizing wanted with
  | nil => simp [matchTokens]
  | cons token tokens ih =>
    rw [matchTokens, List.forall_mem_cons, List.exists_mem_cons_iff]
    split_ifs with hstop
    · exact ⟨fun h => h.elim, fun h => absurd hstop h.1.1⟩
    · rw [ih, Bool.or_eq_true, decide_eq_true_eq, or_assoc, and_iff_right hstop]

theorem matchTokens_wanted {names : List Octets} :
    matchTokens pattern exactmatch false names = true ↔ Wanted pattern exactmatch names := by
  rw [matchTokens_iff, or_iff_right Bool.false_ne_true]
  constructor
  · rintro ⟨hstops, hmatching⟩
    refine ⟨fun name hname hpoison => hstops name hname (.inl hpoison), hmatching,
      fun hexact name hname => ?_⟩
    cases hjudged : judged pattern name with
    | fail => exact absurd (.inr ⟨hexact, hjudged⟩) (hstops name hname)
    | «match» => rfl
    | poison => exact absurd (.inl hjudged) (hstops name hname)
  · rintro ⟨hunpoisoned, hmatching, hexact⟩
    refine ⟨fun name hname hstop => ?_, hmatching⟩
    rcases hstop with hpoison | ⟨hflag, hfail⟩
    · exact hunpoisoned name hname hpoison
    · exact absurd ((hexact hflag name hname).symm.trans hfail) nofun

/-- A storage class takes an article by the groups that its header lists, in whatever order and
however the header is folded. -/
theorem MatchGroups_iff (pattern : CString) (exactmatch : Bool) (g : Octets) :
    (∃ names, Listed separates names (g.takeWhile (· ≠ 0))) ∧
      ∀ names, Listed separates names (g.takeWhile (· ≠ 0)) →
        (MatchGroups g pattern exactmatch = true ↔ Wanted pattern exactmatch names) ∧
          ∀ names' g', Listed separates names' (g'.takeWhile (· ≠ 0)) → names.Perm names' →
            MatchGroups g' pattern exactmatch = MatchGroups g pattern exactmatch := by
  refine ⟨exists_listed separates _, fun names hlisted => ⟨?_, fun names' g' hlisted' hperm => ?_⟩⟩
  · rw [MatchGroups_listed hlisted, matchTokens_wanted]
  · rw [Bool.eq_iff_iff, MatchGroups_listed hlisted, MatchGroups_listed hlisted',
      matchTokens_wanted, matchTokens_wanted]
    exact ⟨Wanted.perm hperm.symm, Wanted.perm hperm⟩

end Wanted

end Inn.Storage.Classes
