import Inn.Innd.Active

/-!
# The tables of the active file

The active file is the text of a list of entries, and the tables say where in the text the parts of
each entry are. Reading a well-formed file gives the tables of its entries.
-/

namespace Inn.Innd.Active

open Foundation.Sorting
open Foundation.Words
open Innd.Numbering (atol atol_digits)
open List (drop_left length_append length_cons)

structure Entry where
  name : Octets
  hi : Octets
  lo : Octets
  rest : Octets
  deriving DecidableEq

def Entry.line (entry : Entry) : Octets :=
  entry.name ++ 32 :: (entry.hi ++ 32 :: (entry.lo ++ 32 :: (entry.rest ++ [10])))

def Entry.high (entry : Entry) : Int := min (2 ^ 63 - 1) (readDigits entry.hi : Int)

def Entry.low (entry : Entry) : Int := min (2 ^ 63 - 1) (readDigits entry.lo : Int)

def NameOctet (c : UInt8) : Prop := c ≠ 32 ∧ c ≠ 10 ∧ c ≠ 0

def FlagOctet (c : UInt8) : Prop := c ≠ 10 ∧ c ≠ 0

instance (c : UInt8) : Decidable (NameOctet c) := inferInstanceAs (Decidable (_ ∧ _))

instance (c : UInt8) : Decidable (FlagOctet c) := inferInstanceAs (Decidable (_ ∧ _))

structure Entry.Valid (entry : Entry) : Prop where
  name : ∀ c ∈ entry.name, NameOctet c
  hi : ∀ c ∈ entry.hi, isdigit c
  hiNonempty : entry.hi ≠ []
  lo : ∀ c ∈ entry.lo, isdigit c
  loNonempty : entry.lo ≠ []
  rest : ∀ c ∈ entry.rest, FlagOctet c

def text (entries : List Entry) : Octets := entries.flatMap Entry.line

def NEWSGROUP.of (start : Nat) (entry : Entry) : NEWSGROUP where
  Start := start
  Name := entry.name
  LastString := start + entry.name.length + 1
  Lastwidth := entry.hi.length
  Rest := start + entry.name.length + 1 + entry.hi.length + 1 + entry.lo.length + 1
  Last := entry.high

def placed : Nat → List Entry → List NEWSGROUP
  | _, [] => []
  | start, entry :: entries => .of start entry :: placed (start + entry.line.length) entries

/-- The groups in memory are those of `entries`. -/
structure Tables.Of (tables : Tables) (entries : List Entry) : Prop where
  groups : tables.Groups = placed 0 entries
  table : ∀ place i, i ∈ tables.NGHtable place ↔ ∃ entry, entries[i]? = some entry ∧
    bucket entry.name = place

section Texts

variable {active before after field : Octets} {c : UInt8} {entry : Entry}
    {front back entries : List Entry}

theorem isdigit_plain {c : UInt8} (hdigit : isdigit c) : c ≠ 32 ∧ c ≠ 10 ∧ c ≠ 0 := by
  refine ⟨?_, ?_, ?_⟩ <;>
    · rintro rfl
      exact absurd hdigit (by decide)

theorem strchr_field (hfield : ∀ d ∈ field, d ≠ c ∧ d ≠ 0) (hc : c ≠ 0) {p : Nat}
    (hp : before.length = p) :
    strchr (before ++ (field ++ c :: after)) p c = some (p + field.length) := by
  have htake : (field ++ c :: after).takeWhile (· ≠ 0) = field ++ c :: after.takeWhile (· ≠ 0) := by
    rw [List.takeWhile_append_of_pos fun d hd => decide_eq_true (hfield d hd).2,
      List.takeWhile_cons_of_pos (by simpa using hc)]
  have hnot : c ∉ field := fun h => (hfield c h).1 rfl
  rw [strchr, ← hp, drop_left, htake, if_pos (List.mem_append_right _ List.mem_cons_self),
    List.idxOf_append_of_notMem hnot, List.idxOf_cons_self,
    Nat.add_zero]

theorem text_append (front back : List Entry) : text (front ++ back) = text front ++ text back :=
    List.flatMap_append

theorem text_cons (entry : Entry) (back : List Entry) :
    text (entry :: back) = entry.line ++ text back := List.flatMap_cons

theorem line_length (entry : Entry) : entry.line.length =
    entry.name.length + 1 + entry.hi.length + 1 + entry.lo.length + 1 + entry.rest.length + 1 := by
  simp only [Entry.line, length_append, length_cons, List.length_nil]
  omega

theorem placed_append (start : Nat) (front back : List Entry) :
    placed start (front ++ back) =
      placed start front ++ placed (start + (text front).length) back := by
  induction front generalizing start with
  | nil => rfl
  | cons entry front ih =>
    rw [List.cons_append, placed, ih, placed, text_cons, length_append, Nat.add_assoc]
    rfl

theorem placed_length (start : Nat) (entries : List Entry) :
    (placed start entries).length = entries.length := by
  induction entries generalizing start with
  | nil => rfl
  | cons entry entries ih => rw [placed, length_cons, length_cons, ih]

theorem split_at {i : Nat} (hentry : entries[i]? = some entry) :
    entries = entries.take i ++ entry :: entries.drop (i + 1) ∧ (entries.take i).length = i := by
  obtain ⟨hlt, rfl⟩ := List.getElem?_eq_some_iff.mp hentry
  refine ⟨?_, List.length_take_of_le (Nat.le_of_lt hlt)⟩
  rw [← List.drop_eq_getElem_cons hlt, List.take_append_drop]

theorem getElem?_placed (front : List Entry) (entry : Entry) (back : List Entry) :
    (placed 0 (front ++ entry :: back))[front.length]? = some (.of (text front).length entry) := by
  rw [placed_append, List.getElem?_append_right (by rw [placed_length]), placed_length,
    Nat.sub_self, Nat.zero_add]
  rfl

theorem placed_name (start : Nat) (entries : List Entry) (i : Nat) :
    (placed start entries)[i]?.map NEWSGROUP.Name = entries[i]?.map Entry.name := by
  induction entries generalizing start i with
  | nil => rfl
  | cons entry entries ih =>
    cases i with
    | zero => rfl
    | succ i => exact ih _ i

theorem count_newlines (hvalid : ∀ entry ∈ entries, entry.Valid) :
    (text entries).count 10 = entries.length := by
  induction entries with
  | nil => rfl
  | cons entry entries ih =>
    obtain ⟨hentry, hvalid⟩ := List.forall_mem_cons.mp hvalid
    have hname : entry.name.count 10 = 0 :=
      List.count_eq_zero.mpr fun h => (hentry.name 10 h).2.1 rfl
    have hhi : entry.hi.count 10 = 0 :=
      List.count_eq_zero.mpr fun h => (isdigit_plain (hentry.hi 10 h)).2.1 rfl
    have hlo : entry.lo.count 10 = 0 :=
      List.count_eq_zero.mpr fun h => (isdigit_plain (hentry.lo 10 h)).2.1 rfl
    have hrest : entry.rest.count 10 = 0 := List.count_eq_zero.mpr fun h => (hentry.rest 10 h).1 rfl
    rw [text_cons, List.count_append, ih hvalid, Entry.line]
    simp [List.count_append, hname, hhi, hlo, hrest]
    omega

structure Separated (active : Octets) (p : Nat) (entry : Entry) : Prop where
  space : strchr active p 32 = some (p + entry.name.length)
  high : strchr active (p + entry.name.length + 1) 32 =
    some (p + entry.name.length + 1 + entry.hi.length)
  again : strchr active (p + entry.name.length + 1 + entry.hi.length) 32 =
    some (p + entry.name.length + 1 + entry.hi.length)
  low : strchr active (p + entry.name.length + 1 + entry.hi.length + 1) 32 =
    some (p + entry.name.length + 1 + entry.hi.length + 1 + entry.lo.length)
  newline : strchr active p 10 = some (p + (entry.line.length - 1))
  highText : ∃ more, active.drop (p + entry.name.length + 1) = entry.hi ++ 32 :: more
  lowText :
    ∃ more, active.drop (p + entry.name.length + 1 + entry.hi.length + 1) = entry.lo ++ 32 :: more

theorem separated (hvalid : entry.Valid) {p : Nat} (hp : before.length = p) (after : Octets) :
    Separated (before ++ (entry.line ++ after)) p entry := by
  have hname : ∀ d ∈ entry.name, d ≠ 32 ∧ d ≠ 0 :=
    fun d hd => ⟨(hvalid.name d hd).1, (hvalid.name d hd).2.2⟩
  have hhi : ∀ d ∈ entry.hi, d ≠ 32 ∧ d ≠ 0 := fun d hd =>
    ⟨(isdigit_plain (hvalid.hi d hd)).1, (isdigit_plain (hvalid.hi d hd)).2.2⟩
  have hlo : ∀ d ∈ entry.lo, d ≠ 32 ∧ d ≠ 0 := fun d hd =>
    ⟨(isdigit_plain (hvalid.lo d hd)).1, (isdigit_plain (hvalid.lo d hd)).2.2⟩
  -- the text behind each separator
  let behindLow : Octets := entry.rest ++ 10 :: after
  let behindHigh : Octets := entry.lo ++ 32 :: behindLow
  let behindName : Octets := entry.hi ++ 32 :: behindHigh
  have hactive : before ++ (entry.line ++ after) = before ++ (entry.name ++ 32 :: behindName) := by
    simp [Entry.line, behindName, behindHigh, behindLow]
  have hactive₁ :
      before ++ (entry.line ++ after) = (before ++ entry.name ++ [32]) ++ behindName := by
    simp [hactive]
  have hactive₂ : before ++ (entry.line ++ after) = (before ++ entry.name ++ [32] ++ entry.hi) ++
      ([] ++ 32 :: behindHigh) := by
    simp [hactive, behindName]
  have hactive₃ : before ++ (entry.line ++ after) =
      (before ++ entry.name ++ [32] ++ entry.hi ++ [32]) ++ behindHigh := by
    simp [hactive, behindName]
  have hlength₁ : (before ++ entry.name ++ [32]).length = p + entry.name.length + 1 := by
    simp only [length_append, List.length_singleton, hp]
  have hlength₂ : (before ++ entry.name ++ [32] ++ entry.hi).length =
      p + entry.name.length + 1 + entry.hi.length := by
    rw [length_append, hlength₁]
  have hlength₃ : (before ++ entry.name ++ [32] ++ entry.hi ++ [32]).length =
      p + entry.name.length + 1 + entry.hi.length + 1 := by
    rw [length_append, hlength₂, List.length_singleton]
  refine ⟨?_, ?_, ?_, ?_, ?_, ⟨behindHigh, ?_⟩, ⟨behindLow, ?_⟩⟩
  · rw [hactive]
    exact strchr_field hname (by decide) hp
  · rw [hactive₁]
    exact strchr_field hhi (by decide) hlength₁
  · rw [hactive₂]
    exact strchr_field (List.forall_mem_nil _) (by decide) hlength₂
  · rw [hactive₃]
    exact strchr_field hlo (by decide) hlength₃
  · have hline : before ++ (entry.line ++ after) =
        before ++ ((entry.name ++ 32 :: (entry.hi ++ 32 :: (entry.lo ++ 32 :: entry.rest))) ++
          10 :: after) := by
      simp [Entry.line]
    have hplain : ∀ d ∈ entry.name ++ 32 :: (entry.hi ++ 32 :: (entry.lo ++ 32 :: entry.rest)),
        d ≠ 10 ∧ d ≠ 0 := by
      intro d hd
      simp only [List.mem_append, List.mem_cons] at hd
      obtain hd | rfl | hd | rfl | hd | rfl | hd := hd
      · exact (hvalid.name d hd).2
      · decide
      · exact (isdigit_plain (hvalid.hi d hd)).2
      · decide
      · exact (isdigit_plain (hvalid.lo d hd)).2
      · decide
      · exact hvalid.rest d hd
    rw [hline, strchr_field hplain (by decide) hp, line_length]
    simp only [length_append, length_cons]
    congr 1
    omega
  · rw [hactive₁, ← hlength₁, drop_left]
  · rw [hactive₃, ← hlength₃, drop_left]

theorem atol_mark {digits more : Octets} (hdigits : ∀ c ∈ digits, isdigit c) (hne : digits ≠ []) :
    atol (digits ++ 32 :: more) = min (2 ^ 63 - 1) (readDigits digits : Int) :=
  atol_digits hdigits hne (by intro c hc; cases hc; rfl)

theorem Separated.atol_high {p : Nat} (h : Separated active p entry) (hvalid : entry.Valid) :
    atol (active.drop (p + entry.name.length + 1)) = entry.high := by
  obtain ⟨more, hmore⟩ := h.highText
  rw [hmore, atol_mark hvalid.hi hvalid.hiNonempty, Entry.high]

theorem Separated.atol_low {p : Nat} (h : Separated active p entry) (hvalid : entry.Valid) :
    atol (active.drop (p + entry.name.length + 1 + entry.hi.length + 1)) = entry.low := by
  obtain ⟨more, hmore⟩ := h.lowText
  rw [hmore, atol_mark hvalid.lo hvalid.loNonempty, Entry.low]

theorem NGparseentry_line (hvalid : entry.Valid) {p : Nat} (hp : before.length = p)
    (after : Octets) :
    NGparseentry (before ++ (entry.line ++ after)) p (p + (entry.line.length - 1)) =
      some (.of p entry) := by
  have h := separated hvalid hp after
  have hlength := line_length entry
  have hhigh := h.atol_high hvalid
  have hname : ((before ++ (entry.line ++ after)).drop p).take entry.name.length = entry.name := by
    rw [← hp, drop_left, Entry.line, List.append_assoc, List.take_left]
  simp only [NGparseentry, h.space, h.high, h.again, h.low, Option.bind_eq_bind, Option.bind_some]
  rw [if_neg (by omega), if_neg (by omega), if_neg (by omega), hhigh]
  simp only [NEWSGROUP.of, Nat.add_sub_cancel_left, hname]

end Texts

section Reading

variable {tables : Tables} {front back entries : List Entry} {entry : Entry}

theorem Tables.Of.name (h : tables.Of entries) (i : Nat) :
    tables.Groups[i]?.map NEWSGROUP.Name = entries[i]?.map Entry.name := by
  rw [h.groups, placed_name]

theorem Tables.Of.named_iff (h : tables.Of entries) (i : Nat) (name : Octets) :
    (tables.Groups[i]?.any fun ngp => ngp.Name = name) = true ↔ ∃ entry, entries[i]? = some entry ∧
      entry.name = name := by
  have hname := h.name i
  cases hgroup : tables.Groups[i]? with
  | none =>
    rw [hgroup, Option.map_none, eq_comm, Option.map_eq_none_iff] at hname
    simp [hname]
  | some ngp =>
    rw [hgroup, Option.map_some, eq_comm, Option.map_eq_some_iff] at hname
    obtain ⟨entry, hentry, hsame⟩ := hname
    simp [hentry, hsame]

theorem getElem?_snoc_iff {i : Nat} {other : Entry} :
    (front ++ [entry])[i]? = some other ↔ front[i]? = some other ∨
      (i = front.length ∧ entry = other) := by
  rcases Nat.lt_trichotomy i front.length with hlt | rfl | hgt
  · rw [List.getElem?_append_left hlt]
    exact ⟨.inl, fun h => h.resolve_right fun h => Nat.ne_of_lt hlt h.1⟩
  · rw [List.getElem?_append_right (Nat.le_refl _), Nat.sub_self]
    simp
  · rw [List.getElem?_eq_none (by rw [length_append, List.length_singleton]; omega),
      List.getElem?_eq_none (Nat.le_of_lt hgt)]
    simp only [reduceCtorEq, false_or, false_iff, not_and]
    omega

theorem Tables.Of.enter (h : tables.Of front) (hnew : ∀ other ∈ front, other.name ≠ entry.name) :
    ∃ tables', tables.enter (.of (text front).length entry) = some tables' ∧
      tables'.Of (front ++ [entry]) := by
  have hlength : tables.Groups.length = front.length := by rw [h.groups, placed_length]
  have habsent : ¬((tables.NGHtable (bucket entry.name)).any fun i =>
      tables.Groups[i]?.any fun other => other.Name = entry.name) = true := by
    intro hany
    obtain ⟨i, -, hi⟩ := List.any_eq_true.mp hany
    obtain ⟨other, hother, hsame⟩ := (h.named_iff i entry.name).mp hi
    exact hnew other (List.mem_of_getElem? hother) hsame
  refine ⟨_, if_neg habsent, ?_, fun place i => ?_⟩
  · rw [placed_append, ← h.groups, Nat.zero_add]
    rfl
  · simp only [getElem?_snoc_iff]
    by_cases hplace : place = bucket entry.name
    · rw [hplace, show (NEWSGROUP.of (text front).length entry).Name = entry.name from rfl,
        Function.update_self,
        List.mem_append, List.mem_singleton, h.table, hlength]
      constructor
      · rintro (⟨other, hother, hbucket⟩ | rfl)
        · exact ⟨other, .inl hother, hbucket⟩
        · exact ⟨entry, .inr ⟨rfl, rfl⟩, rfl⟩
      · rintro ⟨other, hother | ⟨rfl, rfl⟩, hbucket⟩
        · exact .inl ⟨other, hother, hbucket⟩
        · exact .inr rfl
    · rw [show (NEWSGROUP.of (text front).length entry).Name = entry.name from rfl,
        Function.update_of_ne hplace, h.table]
      constructor
      · rintro ⟨other, hother, hbucket⟩
        exact ⟨other, .inl hother, hbucket⟩
      · rintro ⟨other, hother | ⟨-, rfl⟩, hbucket⟩
        · exact ⟨other, hother, hbucket⟩
        · exact absurd hbucket.symm hplace

theorem parseLines_text (hvalid : ∀ entry ∈ back, entry.Valid)
    (hnames : ((front ++ back).map Entry.name).Nodup) (h : tables.Of front) :
    ∃ tables', parseLines (text (front ++ back)) back.length (text front).length tables =
      some tables' ∧
      tables'.Of (front ++ back) := by
  induction back generalizing front tables with
  | nil => exact ⟨tables, rfl, by rwa [List.append_nil]⟩
  | cons entry back ih =>
    obtain ⟨hentry, hvalid⟩ := List.forall_mem_cons.mp hvalid
    have hactive : text (front ++ entry :: back) = text front ++ (entry.line ++ text back) := by
      rw [text_append, text_cons]
    have hnew : ∀ other ∈ front, other.name ≠ entry.name := by
      intro other hother hsame
      rw [List.map_append, List.nodup_append] at hnames
      exact hnames.2.2 _ (List.mem_map_of_mem hother) _
        (List.mem_map_of_mem List.mem_cons_self) hsame
    obtain ⟨tables₁, henter, h₁⟩ := h.enter hnew
    have hnext :
        (text front).length + (entry.line.length - 1) + 1 = (text (front ++ [entry])).length := by
      rw [text_append, text_cons, length_append, length_append]
      have hline := line_length entry
      have hnil : (text []).length = 0 := rfl
      omega
    have hmore : front ++ entry :: back = (front ++ [entry]) ++ back := by simp
    obtain ⟨tables', hparse, h'⟩ := ih hvalid (hmore ▸ hnames) h₁
    refine ⟨tables', ?_, hmore ▸ h'⟩
    rw [length_cons, parseLines, hactive, (separated hentry rfl (text back)).newline]
    simp only [Option.bind_eq_bind, Option.bind_some, NGparseentry_line hentry rfl (text back),
      henter, hnext]
    rw [← hactive, hmore]
    exact hparse

variable (sorter : ∀ Groups : List NEWSGROUP, Sorter (NGcompare Groups))

theorem NGparsefile_text (hne : entries ≠ []) (hvalid : ∀ entry ∈ entries, entry.Valid)
    (hnames : (entries.map Entry.name).Nodup) :
    ∃ tables, NGparsefile sorter (text entries) = some tables ∧ tables.Of entries := by
  have hempty : Tables.Of ⟨[], fun _ => []⟩ [] := ⟨rfl, fun place i => by simp⟩
  obtain ⟨tables, hparse, h⟩ := @parseLines_text ⟨[], fun _ => []⟩ [] entries hvalid hnames hempty
  have hparse : parseLines (text entries) entries.length 0 ⟨[], fun _ => []⟩ = some tables := hparse
  refine ⟨{ tables with NGHtable := fun place =>
    (sorter tables.Groups).qsort (tables.NGHtable place) }, ?_,
    ⟨h.groups, fun place i => ?_⟩⟩
  · rw [NGparsefile, count_newlines hvalid, if_neg (by simpa using hne), hparse]
    rfl
  · exact ((sorter tables.Groups).sorted (tables.NGHtable place)).perm.mem_iff.trans
      (h.table place i)

theorem Tables.NGfind_named {name : Octets} {i : Nat} (hfind : tables.NGfind name = some i) :
    (tables.Groups[i]?.any fun ngp => ngp.Name = name) = true := by
  rw [Tables.NGfind] at hfind
  have hfound := List.find?_some hfind
  exact hfound

theorem Tables.Of.NGfind_eq (h : tables.Of entries) (hnames : (entries.map Entry.name).Nodup)
    (name : Octets) (i : Nat) :
    tables.NGfind name = some i ↔ ∃ entry, entries[i]? = some entry ∧ entry.name = name := by
  constructor
  · intro hfind
    exact (h.named_iff i name).mp (tables.NGfind_named hfind)
  · rintro ⟨entry, hentry, rfl⟩
    have hmem : i ∈ tables.NGHtable (bucket entry.name) := (h.table _ i).mpr ⟨entry, hentry, rfl⟩
    have hhere := (h.named_iff i entry.name).mpr ⟨entry, hentry, rfl⟩
    cases hfind : tables.NGfind entry.name with
    | none => exact absurd hhere (List.find?_eq_none.mp hfind i hmem)
    | some j =>
      obtain ⟨other, hother, hsame⟩ := (h.named_iff j entry.name).mp (tables.NGfind_named hfind)
      obtain ⟨hlt, -⟩ := List.getElem?_eq_some_iff.mp hother
      refine congrArg some ((List.getElem?_inj (by simpa using hlt) hnames).mp ?_)
      rw [List.getElem?_map, List.getElem?_map, hother, hentry, Option.map_some,
        Option.map_some, hsame]

theorem Tables.Of.NGfind_none (h : tables.Of entries) (hnames : (entries.map Entry.name).Nodup)
    (name : Octets) :
    tables.NGfind name = none ↔ ∀ entry ∈ entries, entry.name ≠ name := by
  constructor
  · intro hnone entry hentry hname
    obtain ⟨i, hi, rfl⟩ := List.mem_iff_getElem.mp hentry
    have hfound := (h.NGfind_eq hnames name i).mpr ⟨_, List.getElem?_eq_getElem hi, hname⟩
    rw [hnone] at hfound
    cases hfound
  · intro habsent
    cases hfind : tables.NGfind name with
    | none => rfl
    | some i =>
      obtain ⟨entry, hentry, hname⟩ := (h.NGfind_eq hnames name i).mp hfind
      exact absurd hname (habsent entry (List.mem_of_getElem? hentry))

end Reading

end Inn.Innd.Active
