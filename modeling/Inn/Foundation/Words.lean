import Mathlib

/-!
# Words and decimal numbers in a text

A text in which words stand between blanks is taken apart into its words again,
whatever blanks they are. A number that is written in decimal digits is read
back up to the first octet that is not a digit.
-/

namespace Inn.Foundation.Words

open List (mem_cons_self cons_append append_nil)

section Words

variable {α : Type*} (blank : α → Bool)

def words : Nat → List α → List (List α)
  | 0, _ => []
  | _ + 1, [] => []
  | fuel + 1, c :: text =>
    (c :: text).takeWhile (fun c => !blank c) ::
      words fuel (((c :: text).dropWhile fun c => !blank c).dropWhile blank)

def joined (entries : List (List α × List α)) : List α :=
    entries.flatMap fun entry => entry.1 ++ entry.2

/-- Blanks with a word behind them. -/
structure Entry (entry : List α × List α) : Prop where
  separated : entry.1 ≠ []
  blanks : ∀ c ∈ entry.1, blank c
  nonempty : entry.2 ≠ []
  word : ∀ c ∈ entry.2, !blank c

variable {blank}

theorem dropWhile_joined {entry : List α × List α} {entries : List (List α × List α)}
    (hentry : Entry blank entry) :
    (joined (entry :: entries)).dropWhile blank = entry.2 ++ joined entries := by
  rw [joined, List.flatMap_cons, List.append_assoc, List.dropWhile_append_of_pos hentry.blanks]
  obtain ⟨c, word, hword⟩ := List.exists_cons_of_ne_nil hentry.nonempty
  have hfirst := hentry.word c (by rw [hword]; exact mem_cons_self)
  rw [hword, cons_append, List.dropWhile_cons_of_neg (by simpa using hfirst)]
  rfl

theorem takeWhile_joined {word : List α} {entries : List (List α × List α)}
    (hword : ∀ c ∈ word, !blank c) (hentries : ∀ entry ∈ entries, Entry blank entry) :
    (word ++ joined entries).takeWhile (fun c => !blank c) = word ∧
      (word ++ joined entries).dropWhile (fun c => !blank c) = joined entries := by
  rw [List.takeWhile_append_of_pos hword, List.dropWhile_append_of_pos hword]
  cases entries with
  | nil => exact ⟨append_nil word, rfl⟩
  | cons entry entries =>
    have hentry := hentries entry mem_cons_self
    obtain ⟨c, blanks, hblanks⟩ := List.exists_cons_of_ne_nil hentry.separated
    have hblank := hentry.blanks c (by rw [hblanks]; exact mem_cons_self)
    rw [joined, List.flatMap_cons, hblanks, cons_append, cons_append,
      List.takeWhile_cons_of_neg (by simpa using hblank),
        List.dropWhile_cons_of_neg (by simpa using hblank),
      append_nil]
    exact ⟨rfl, rfl⟩

theorem length_le_joined {entries : List (List α × List α)}
    (hentries : ∀ entry ∈ entries, entry.2 ≠ []) :
    entries.length ≤ (joined entries).length := by
  induction entries with
  | nil => exact Nat.zero_le _
  | cons entry entries ih =>
    have hword := List.length_pos_of_ne_nil (hentries entry mem_cons_self)
    have hrest := ih fun entry hmem => hentries entry (List.mem_cons_of_mem _ hmem)
    rw [joined, List.flatMap_cons, List.length_append, List.length_append, List.length_cons]
    rw [joined] at hrest
    omega

theorem words_joined {entries : List (List α × List α)}
    (hentries : ∀ entry ∈ entries, Entry blank entry) {fuel : Nat} (hfuel : entries.length ≤ fuel) :
    words blank fuel ((joined entries).dropWhile blank) = entries.map Prod.snd := by
  induction entries generalizing fuel with
  | nil => cases fuel <;> rfl
  | cons entry entries ih =>
    have hentry := hentries entry mem_cons_self
    have hrest : ∀ entry ∈ entries, Entry blank entry := fun entry hmem =>
      hentries entry (List.mem_cons_of_mem _ hmem)
    obtain ⟨htake, hdrop⟩ := takeWhile_joined hentry.word hrest
    rw [dropWhile_joined hentry]
    obtain ⟨c, word, hword⟩ := List.exists_cons_of_ne_nil hentry.nonempty
    cases fuel with
    | zero => exact absurd hfuel (Nat.not_succ_le_zero _)
    | succ fuel =>
      have hcons : entry.2 ++ joined entries = c :: (word ++ joined entries) := by
        rw [hword, cons_append]
      rw [hcons, words, ← hcons, htake, hdrop, ih hrest (Nat.le_of_succ_le_succ hfuel),
        List.map_cons]

end Words

section Listed

variable {α : Type*}

inductive Listed (blank : α → Bool) : List (List α) → List α → Prop
  | none {text : List α} (blanks : ∀ c ∈ text, blank c = true) : Listed blank [] text
  | word {before word rest : List α} {more : List (List α)} (blanks : ∀ c ∈ before, blank c = true)
      (nonempty : word ≠ []) (plain : ∀ c ∈ word, blank c = false)
      (ends : ∀ c, rest.head? = some c → blank c = true) (listed : Listed blank more rest) :
      Listed blank (word :: more) (before ++ (word ++ rest))

variable {blank : α → Bool} {ws : List (List α)} {text : List α}

theorem listed_cons {c : α} (hc : blank c = true) :
    Listed blank ws (c :: text) ↔ Listed blank ws text := by
  constructor
  · intro h
    generalize htext : c :: text = full at h
    cases h with
    | none hblanks => exact .none fun d hd => hblanks d (htext ▸ List.mem_cons_of_mem c hd)
    | @word before word rest more hblanks hnonempty hplain hends hlisted =>
      cases before with
      | nil =>
        obtain ⟨d, letters, rfl⟩ := List.exists_cons_of_ne_nil hnonempty
        have hfirst := hplain d mem_cons_self
        rw [← (List.cons.inj htext).1, hc] at hfirst
        exact absurd hfirst (by decide)
      | cons d before =>
        rw [(List.cons.inj htext).2]
        exact .word (fun c hc => hblanks c (List.mem_cons_of_mem d hc)) hnonempty
          hplain hends hlisted
  · intro h
    cases h with
    | none hblanks => exact .none (List.forall_mem_cons.mpr ⟨hc, hblanks⟩)
    | word hblanks hnonempty hplain hends hlisted =>
      have hword :=
        Listed.word (List.forall_mem_cons.mpr ⟨hc, hblanks⟩) hnonempty hplain hends hlisted
      exact hword

theorem Listed.length_le (h : Listed blank ws text) : ws.length ≤ text.length := by
  induction h with
  | none => exact Nat.zero_le _
  | word _ hnonempty _ _ _ ih =>
    have hlength := List.length_pos_of_ne_nil hnonempty
    rw [List.length_cons, List.length_append, List.length_append]
    omega

theorem takeWhile_word {word rest : List α} (hplain : ∀ c ∈ word, blank c = false)
    (hends : ∀ c, rest.head? = some c → blank c = true) :
    (word ++ rest).takeWhile (fun c => !blank c) = word ∧ (word ++ rest).dropWhile
    (fun c => !blank c) = rest := by
  have hword : ∀ c ∈ word, (!blank c) = true := fun c hc => by rw [hplain c hc, Bool.not_false]
  rw [List.takeWhile_append_of_pos hword, List.dropWhile_append_of_pos hword]
  cases rest with
  | nil => exact ⟨append_nil word, rfl⟩
  | cons c rest =>
    have hblank : blank c = true := hends c rfl
    rw [List.takeWhile_cons_of_neg (by simpa using hblank),
      List.dropWhile_cons_of_neg (by simpa using hblank),
      append_nil]
    exact ⟨rfl, rfl⟩

theorem words_listed (h : Listed blank ws text) {fuel : Nat} (hfuel : ws.length ≤ fuel) :
    words blank fuel (text.dropWhile blank) = ws := by
  induction h generalizing fuel with
  | none hblanks =>
    rw [List.dropWhile_eq_nil_iff.mpr hblanks]
    cases fuel <;> rfl
  | @word before word rest more hblanks hnonempty hplain hends _ ih =>
    obtain ⟨fuel, rfl⟩ : ∃ n, fuel = n + 1 :=
      Nat.exists_eq_add_one.mpr (Nat.lt_of_lt_of_le (Nat.succ_pos _) hfuel)
    obtain ⟨c, letters, rfl⟩ := List.exists_cons_of_ne_nil hnonempty
    have hfirst : ¬blank c = true := by rw [hplain c mem_cons_self]; decide
    obtain ⟨htake, hdrop⟩ := takeWhile_word hplain hends
    rw [cons_append] at htake hdrop
    rw [List.dropWhile_append_of_pos hblanks, cons_append, List.dropWhile_cons_of_neg hfirst,
      words, htake, hdrop,
      ih (Nat.le_of_succ_le_succ hfuel)]

theorem exists_listed (blank : α → Bool) (text : List α) : ∃ ws, Listed blank ws text := by
  induction hlength : text.length using Nat.strongRecOn generalizing text with
  | ind n ih =>
    have hblanks : ∀ c ∈ text.takeWhile blank, blank c = true :=
      fun c hc => List.mem_takeWhile_imp hc
    rw [← List.takeWhile_append_dropWhile (p := blank) (l := text)]
    cases hword : text.dropWhile blank with
    | nil => exact ⟨[], .none (by rwa [append_nil])⟩
    | cons c rest =>
      have hc : ¬blank c = true := by
        have := List.head?_dropWhile_not blank text
        rw [hword] at this
        simpa using this
      have hshort : ((c :: rest).dropWhile fun c => !blank c).length < n := by
        rw [List.dropWhile_cons_of_pos (by simpa using hc)]
        have := List.length_dropWhile_le (fun c => !blank c) rest
        have := List.length_dropWhile_le blank text
        rw [hword, List.length_cons] at this
        omega
      obtain ⟨more, hmore⟩ := ih _ hshort _ rfl
      rw [← List.takeWhile_append_dropWhile (p := fun c => !blank c) (l := c :: rest)]
      refine ⟨_, .word hblanks ?_ (fun d hd => ?_) (fun d hd => ?_) hmore⟩
      · rw [List.takeWhile_cons_of_pos (by simpa using hc)]
        nofun
      · simpa using List.mem_takeWhile_imp hd
      · have := List.head?_dropWhile_not (fun c => !blank c) (c :: rest)
        rw [hd] at this
        simpa using this

theorem filter_splitOnP_cons {c : α} (hc : blank c = true) :
    ((c :: text).splitOnP blank).filter (· ≠ []) = (text.splitOnP blank).filter (· ≠ []) := by
  have hcut : ([] ++ c :: text).splitOnP blank = [] :: text.splitOnP blank :=
    List.splitOnP_append_cons_of_forall_mem nofun c hc text
  rw [List.nil_append] at hcut
  rw [hcut, List.filter_cons_of_neg (by simp)]

theorem filter_splitOnP_append {before : List α} (hblanks : ∀ c ∈ before, blank c = true) :
    ((before ++ text).splitOnP blank).filter (· ≠ []) = (text.splitOnP blank).filter (· ≠ []) := by
  induction before with
  | nil => rfl
  | cons c before ih =>
    obtain ⟨hc, hblanks⟩ := List.forall_mem_cons.mp hblanks
    rw [cons_append, filter_splitOnP_cons hc, ih hblanks]

theorem Listed.filter_splitOnP (h : Listed blank ws text) :
    (text.splitOnP blank).filter (· ≠ []) = ws := by
  induction h with
  | @none text hblanks =>
    rw [← append_nil text, filter_splitOnP_append hblanks]
    rfl
  | @word before word rest more hblanks hnonempty hplain hends _ ih =>
    rw [filter_splitOnP_append hblanks, ← ih]
    cases rest with
    | nil =>
      rw [append_nil, List.splitOnP_eq_singleton hplain,
        List.filter_cons_of_pos (by simpa using hnonempty)]
      rfl
    | cons c rest =>
      have hc : blank c = true := hends c rfl
      rw [List.splitOnP_append_cons_of_forall_mem hplain c hc,
        List.filter_cons_of_pos (by simpa using hnonempty), filter_splitOnP_cons hc]

/-- The words of a text are its nonempty pieces. -/
theorem words_eq_splitOnP (blank : α → Bool) (text : List α) :
    words blank text.length (text.dropWhile blank) = (text.splitOnP blank).filter (· ≠ []) := by
  obtain ⟨ws, hlisted⟩ := exists_listed blank text
  rw [words_listed hlisted hlisted.length_le, hlisted.filter_splitOnP]

theorem exists_first (blank : α → Bool) (text : List α) : (∀ c ∈ text, blank c = false) ∨
    ∃ before c rest, text = before ++ c :: rest ∧ (∀ d ∈ before, blank d = false) ∧
      blank c = true := by
  induction text with
  | nil => exact .inl nofun
  | cons c text ih =>
    cases hc : blank c with
    | true => exact .inr ⟨[], c, text, rfl, nofun, hc⟩
    | false =>
      rcases ih with hplain | ⟨before, d, rest, rfl, hplain, hd⟩
      · exact .inl (List.forall_mem_cons.mpr ⟨hc, hplain⟩)
      · exact .inr ⟨c :: before, d, rest, rfl, List.forall_mem_cons.mpr ⟨hc, hplain⟩, hd⟩

theorem takeWhile_mem (blank : α → Bool) (text : List α) :
    text.takeWhile (fun c => !blank c) ∈ text.splitOnP blank := by
  rcases exists_first blank text with hplain | ⟨before, c, rest, rfl, hplain, hc⟩
  · have hends : ∀ c, ([] : List α).head? = some c → blank c = true := nofun
    have htake := (takeWhile_word hplain hends).1
    rw [append_nil] at htake
    rw [htake, List.splitOnP_eq_singleton hplain]
    exact mem_cons_self
  · have hends : ∀ d, (c :: rest).head? = some d → blank d = true :=
      fun d hd => Option.some.inj hd ▸ hc
    rw [(takeWhile_word hplain hends).1, List.splitOnP_append_cons_of_forall_mem hplain c hc]
    exact mem_cons_self

/-- A piece begins with a piece of the text that is split at more octets. -/
theorem takeWhile_mem_splitOnP {sep : α → Bool} (hsep : ∀ c, sep c = true → blank c = true)
    {piece : List α} (hpiece : piece ∈ text.splitOnP sep) :
    piece.takeWhile (fun c => !blank c) ∈ text.splitOnP blank := by
  induction hlength : text.length using Nat.strongRecOn generalizing text with
  | ind n ih =>
    rcases exists_first sep text with hplain | ⟨before, c, rest, rfl, hplain, hc⟩
    · rw [List.splitOnP_eq_singleton hplain] at hpiece
      obtain rfl := List.mem_singleton.mp hpiece
      exact takeWhile_mem blank piece
    · rw [List.splitOnP_append_cons_of_forall_mem hplain c hc] at hpiece
      rw [List.splitOnP_append_cons before rest (hsep c hc), List.mem_append]
      rcases List.mem_cons.mp hpiece with rfl | hrest
      · exact .inl (takeWhile_mem blank piece)
      · rw [List.length_append, List.length_cons] at hlength
        exact .inr (ih rest.length (by omega) hrest rfl)

end Listed

def isdigit (c : UInt8) : Bool := 48 ≤ c && c ≤ 57

def digits (n : Nat) : List Nat := if n = 0 then [0] else Nat.digits 10 n

def decimal (n : Nat) : List UInt8 := (digits n).reverse.map fun d => (48 + d).toUInt8

def readDigits (text : List UInt8) : Nat := text.foldl (fun n c => 10 * n + (c.toNat - 48)) 0

theorem digits_lt (n : Nat) : ∀ d ∈ digits n, d < 10 := by
  intro d hd
  rw [digits] at hd
  split at hd
  · obtain rfl := List.mem_singleton.mp hd
    decide
  · exact Nat.digits_lt_base (by decide) hd

theorem ofDigits_digits (n : Nat) : Nat.ofDigits 10 (digits n) = n := by
  rw [digits]
  split
  next hzero => rw [hzero]; rfl
  · exact Nat.ofDigits_digits 10 n

theorem digit_toNat {d : Nat} (hd : d < 10) : (48 + d).toUInt8.toNat = 48 + d := by
  rw [Nat.toUInt8_eq, UInt8.toNat_ofNat']
  exact Nat.mod_eq_of_lt (by omega)

theorem isdigit_of_digit {d : Nat} (hd : d < 10) : isdigit (48 + d).toUInt8 := by
  have hvalue := digit_toNat hd
  rw [isdigit, Bool.and_eq_true, decide_eq_true_eq, decide_eq_true_eq, UInt8.le_iff_toNat_le,
    UInt8.le_iff_toNat_le, hvalue]
  exact ⟨by change 48 ≤ 48 + d; omega, by change 48 + d ≤ 57; omega⟩

theorem decimal_isdigit (n : Nat) : ∀ c ∈ decimal n, isdigit c := by
  intro c hc
  obtain ⟨d, hd, rfl⟩ := List.mem_map.mp hc
  exact isdigit_of_digit (digits_lt n d (List.mem_reverse.mp hd))

theorem decimal_ne_nil (n : Nat) : decimal n ≠ [] := by
  rw [decimal, ne_eq, List.map_eq_nil_iff, List.reverse_eq_nil_iff, digits]
  split
  · nofun
  next hzero => exact Nat.digits_ne_nil_iff_ne_zero.mpr hzero

theorem readDigits_decimal (n : Nat) : readDigits (decimal n) = n := by
  rw [readDigits, decimal, List.foldl_map, List.foldl_reverse]
  have hfold : ∀ ds : List Nat, (∀ d ∈ ds, d < 10) →
      ds.foldr (fun d n => 10 * n + ((48 + d).toUInt8.toNat - 48)) 0 = Nat.ofDigits 10 ds := by
    intro ds hds
    induction ds with
    | nil => rfl
    | cons d ds ih =>
      rw [List.foldr_cons, ih fun d hd => hds d (List.mem_cons_of_mem _ hd), Nat.ofDigits_cons,
        digit_toNat (hds d mem_cons_self), Nat.add_sub_cancel_left]
      omega
  rw [hfold _ (digits_lt n), ofDigits_digits]

end Inn.Foundation.Words
