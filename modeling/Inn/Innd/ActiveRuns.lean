import Inn.Innd.ActiveTables

/-!
# Operations on the active file

An operation appends an entry to the active file, removes one, or changes the flag or the marks of
one. The other lines stay as they are, and the tables go on saying where everything is. This needs
marks that fit into their fields, and a new line that fits into its buffer.
-/

namespace Inn.Innd.Active

open Foundation.Files (overwrite overwrite_eq)
open Foundation.Runs
open Foundation.Sorting
open Foundation.Words
open Innd.Numbering (atol)
open List (length_append mem_append drop_left append_assoc mem_cons_self all_eq_true map_append
    mem_append_right)

structure WellFormed (cfg : Config) (entries : List Entry) : Prop where
  valid : ∀ entry ∈ entries, entry.Valid
  names : (entries.map Entry.name).Nodup
  required : ∀ name ∈ cfg.required, name ∈ entries.map Entry.name

/-- The file, the groups and the hash table are all those of `entries`. -/
structure State.Agrees (s : State) (cfg : Config) (entries : List Entry) : Prop where
  wellFormed : WellFormed cfg entries
  file : s.active = text entries
  tables : s.toTables.Of entries
  setup : s.running = true → s.ICDneedsetup = false

def padded (width : Nat) (value : Int) : Octets := (digitsOf width (value % 2 ^ 64).toNat).1

def Entry.setHigh (entry : Entry) (himark : Int) : Entry :=
    { entry with hi := padded entry.hi.length himark }

def Entry.setLow (entry : Entry) (lomark : Int) : Entry :=
    { entry with lo := padded entry.lo.length lomark }

def Entry.setMarks (entry : Entry) (raised : Option Int) (lomark : Int) : Entry :=
  let entry := raised.elim entry entry.setHigh
  if lomark = entry.low then entry else entry.setLow lomark

def Entry.renumber (entry : Entry) (stats : Stats) : Entry :=
  entry.setMarks (if entry.high < stats.himark then some stats.himark else none) stats.lomark

def Entry.lowmark (entry : Entry) (lomark : Int64) : Entry :=
  entry.setMarks (if entry.high + 1 < lomark.toInt then some (lomark.toInt - 1)
    else none) lomark.toInt

def Entry.new (Name Rest : Octets) : Entry := ⟨Name, octets "0000000000", octets "0000000001", Rest⟩

def changeEntry (Name : Octets) (change : Entry → Entry) (entries : List Entry) : List Entry :=
  entries.map fun entry => if entry.name = Name then change entry else entry

def Operation.apply (cfg : Config) (entries : List Entry) : Operation → List Entry
  | .ICDnewgroup Name Rest => entries ++ [.new Name Rest]
  | .ICDrmgroup Name => entries.filter fun entry => entry.name ≠ Name
  | .ICDchangegroup Name Rest => changeEntry Name (fun entry => { entry with rest := Rest }) entries
  | .NGrenumber Name stats =>
    if cfg.enableoverview then changeEntry Name (fun entry => stats.elim entry entry.renumber)
      entries else entries
  | .NGlowmark Name lomark => changeEntry Name (fun entry => entry.lowmark lomark) entries
  | .pause | .CCgo => entries

def outcome (cfg : Config) : List Entry → List (Operation × Bool) → List Entry
  | entries, [] => entries
  | entries, (operation, replied) :: more =>
    outcome cfg (if replied then operation.apply cfg entries else entries) more

def FitsIn (width : Nat) (value : Int) : Prop := (value % 2 ^ 64).toNat < 10 ^ width

/-- The new marks have room in the fields of their line. -/
def State.Fits (s : State) (ngp : NEWSGROUP) (raised : Int → Option Int) (lomark : Int) : Prop :=
  ∀ f2 f3 f4, markFields s.active ngp.Start = some (f2, f3, f4) →
    (∀ himark ∈ raised (atol (s.active.drop f2)), FitsIn (f3 - f2 - 1) himark) ∧
      (lomark ≠ atol (s.active.drop f3) → FitsIn (f4 - f3) lomark)

def State.FitsGroup (s : State) (Name : Octets) (raised : Int → Option Int) (lomark : Int) : Prop :=
  ∀ i ∈ s.NGfind Name, ∀ ngp ∈ s.Groups[i]?, s.Fits ngp raised lomark

def State.Allows (cfg : Config) (s : State) : Operation → Prop
  | .ICDnewgroup Name Rest =>
    s.NGfind Name = none ∧ (∀ c ∈ Name, NameOctet c) ∧ (∀ c ∈ Rest, FlagOctet c) ∧
      Name.length + Rest.length ≠ SMBUF - 24
  | .ICDchangegroup _ Rest => ∀ c ∈ Rest, FlagOctet c
  | .NGrenumber Name (some stats) => cfg.enableoverview = true → s.ICDneedsetup = false →
      s.FitsGroup Name (fun hi =>
        if hi < stats.himark then some stats.himark else none) stats.lomark
  | .NGlowmark Name lomark =>
    s.FitsGroup Name (fun hi => if hi + 1 < lomark.toInt then some (lomark.toInt - 1)
      else none) lomark.toInt
  | .NGrenumber _ none | .ICDrmgroup _ | .pause | .CCgo => True

theorem digitsOf_length (width value : Nat) : (digitsOf width value).1.length = width := by
  induction width generalizing value with
  | zero => rfl
  | succ width ih => rw [digitsOf, length_append, ih, List.length_singleton]

theorem digitsOf_isdigit (width value : Nat) : ∀ c ∈ (digitsOf width value).1, isdigit c := by
  induction width generalizing value with
  | zero => nofun
  | succ width ih =>
    intro c hc
    rw [digitsOf, mem_append, List.mem_singleton] at hc
    obtain hc | rfl := hc
    · exact ih _ c hc
    · exact isdigit_of_digit (Nat.mod_lt _ (by decide))

theorem digitsOf_fits (width value : Nat) : (digitsOf width value).2 = true ↔
    value < 10 ^ width := by
  induction width generalizing value with
  | zero => simp [digitsOf]
  | succ width ih =>
    rw [digitsOf, ih, Nat.pow_succ]
    omega

theorem readDigits_digitsOf {width value : Nat} (hfits : value < 10 ^ width) :
    readDigits (digitsOf width value).1 = value := by
  induction width generalizing value with
  | zero =>
    rw [Nat.pow_zero, Nat.lt_one_iff] at hfits
    rw [hfits]
    rfl
  | succ width ih =>
    have hhigher := @ih (value / 10) (by rw [Nat.pow_succ] at hfits; omega)
    have hdigit := digit_toNat (Nat.mod_lt value (show 0 < 10 by decide))
    rw [readDigits] at hhigher
    rw [digitsOf, readDigits, List.foldl_append, hhigher, List.foldl_cons, List.foldl_nil, hdigit]
    omega

theorem FormatLong_field {before field after : Octets} {p width : Nat} (value : Int)
    (hp : before.length = p) (hwidth : field.length = width) :
    (FormatLong (before ++ (field ++ after)) p value width).1 = before ++
    (padded width value ++ after) := by
  have hlength : (digitsOf width (value % 2 ^ 64).toNat).1.length = width := digitsOf_length ..
  rw [FormatLong, overwrite_eq _ (by rw [length_append]; omega), ← hp, List.take_left, hlength,
    List.drop_length_add_append, ← hwidth, drop_left, append_assoc, padded]

theorem FormatLong_fits (active : Octets) (p : Nat) {value : Int} {width : Nat}
    (hfits : FitsIn width value) :
    (FormatLong active p value width).2 = true := (digitsOf_fits _ _).mpr hfits

section Writing

variable {cfg : Config} {s : State} {entries front back : List Entry} {entry : Entry}
    {name : Octets}
variable (sorter : ∀ Groups : List NEWSGROUP, Sorter (NGcompare Groups))

theorem required_ne_nil (cfg : Config) : octets "control" ∈ cfg.required :=
    List.mem_append_left _ mem_cons_self

theorem WellFormed.nonempty (h : WellFormed cfg entries) : entries ≠ [] := by
  rintro rfl
  exact absurd (h.required _ (required_ne_nil cfg)) List.not_mem_nil

theorem found_required (h : WellFormed cfg entries) {tables : Tables} (hof : tables.Of entries) :
    (cfg.required.all fun name => (tables.NGfind name).isSome) = true := by
  refine all_eq_true.mpr fun name hname => ?_
  obtain ⟨entry, hentry, hsame⟩ := List.mem_map.mp (h.required name hname)
  obtain ⟨i, hi, rfl⟩ := List.mem_iff_getElem.mp hentry
  rw [(hof.NGfind_eq h.names name i).mpr ⟨_, List.getElem?_eq_getElem hi, hsame⟩]
  rfl

theorem parse_agrees (h : WellFormed cfg entries) (hfile : s.active = text entries)
    (hsetup : s.running = true → s.ICDneedsetup = false) :
    ∃ s', s.parse sorter = .ok s' ∧ s'.Agrees cfg entries := by
  obtain ⟨tables, hparse, hof⟩ := NGparsefile_text sorter h.nonempty h.valid h.names
  refine ⟨{ s with toTables := tables }, ?_, ⟨h, hfile, hof, hsetup⟩⟩
  rw [State.parse, hfile, hparse]

theorem setup_agrees (h : WellFormed cfg entries) (hfile : s.active = text entries)
    (hneed : s.ICDneedsetup = false) :
    ∃ s', s.ICDsetup sorter cfg = .ok s' ∧ s'.Agrees cfg entries := by
  obtain ⟨s', hparse, hagrees⟩ := parse_agrees sorter h hfile fun _ => hneed
  refine ⟨s', ?_, hagrees⟩
  rw [State.ICDsetup, hneed, if_neg Bool.false_ne_true, hparse]
  exact if_pos (found_required h hagrees.tables)

theorem write_agrees (hagrees : s.Agrees cfg entries) {entries' : List Entry}
    (h : WellFormed cfg entries') {content : Octets} (hcontent : content = text entries') :
    ∃ s', s.ICDwritevactive sorter cfg content = .ok s' ∧ s'.Agrees cfg entries' := by
  rw [State.ICDwritevactive]
  split
  next hrunning => exact setup_agrees sorter h hcontent (hagrees.setup hrunning)
  next hpaused => exact parse_agrees sorter h hcontent fun hrunning => absurd hrunning hpaused

theorem withGroup_cases (hagrees : s.Agrees cfg entries) (name : Octets)
    (act : Nat → NEWSGROUP → Except Fault (State × Bool)) :
    ((∀ entry ∈ entries, entry.name ≠ name) ∧ s.withGroup name act = .ok (s, false)) ∨
      ∃ front entry back, entries = front ++ entry :: back ∧ entry.name = name ∧
        s.NGfind name = some front.length ∧
          s.Groups[front.length]? = some (.of (text front).length entry) ∧
        s.withGroup name act = act front.length (.of (text front).length entry) := by
  cases hfind : s.NGfind name with
  | none =>
    refine .inl ⟨(hagrees.tables.NGfind_none hagrees.wellFormed.names name).mp hfind, ?_⟩
    rw [State.withGroup, hfind]
  | some i =>
    obtain ⟨entry, hentry, hname⟩ :=
      (hagrees.tables.NGfind_eq hagrees.wellFormed.names name i).mp hfind
    obtain ⟨hsplit, hlength⟩ := split_at hentry
    have hgroup : s.Groups[i]? = some (.of (text (entries.take i)).length entry) := by
      have hplaced := getElem?_placed (entries.take i) entry (entries.drop (i + 1))
      rwa [← hsplit, hlength, ← hagrees.tables.groups] at hplaced
    refine .inr ⟨entries.take i, entry, entries.drop (i + 1), hsplit, hname,
      by rw [hlength], by rw [hlength, hgroup], ?_⟩
    rw [State.withGroup, hfind, hlength]
    dsimp only
    rw [hgroup]

theorem next_group (hagrees : s.Agrees cfg (front ++ entry :: back)) :
    s.Groups[front.length + 1]? =
      back.head?.map (NEWSGROUP.of (text (front ++ [entry])).length) := by
  cases back with
  | nil =>
    rw [List.getElem?_eq_none, List.head?_nil, Option.map_none]
    rw [hagrees.tables.groups, placed_length, length_append]
    exact Nat.le_refl _
  | cons next back =>
    have hplaced := getElem?_placed (front ++ [entry]) next back
    rwa [append_assoc, length_append, List.singleton_append, ← hagrees.tables.groups] at hplaced

theorem name_ne_of_mem (hnames : ((front ++ entry :: back).map Entry.name).Nodup) :
    ∀ other ∈ front ++ back, other.name ≠ entry.name := by
  intro other hother hsame
  rw [map_append, List.map_cons, List.nodup_middle, List.nodup_cons, ← map_append] at hnames
  exact hnames.1 (hsame ▸ List.mem_map_of_mem hother)

theorem WellFormed.replace (h : WellFormed cfg (front ++ entry :: back)) {other : Entry}
    (hname : other.name = entry.name)
    (hvalid : other.Valid) : WellFormed cfg (front ++ other :: back) := by
  have hnames : (front ++ other :: back).map Entry.name =
      (front ++ entry :: back).map Entry.name := by simp [hname]
  refine ⟨fun e he => ?_, hnames ▸ h.names, hnames ▸ h.required⟩
  obtain he | he := mem_append.mp he
  · exact h.valid e (List.mem_append_left _ he)
  · obtain rfl | he := List.mem_cons.mp he
    · exact hvalid
    · exact h.valid e (mem_append_right _ (List.mem_cons_of_mem _ he))

theorem changeEntry_eq (hnames : ((front ++ entry :: back).map Entry.name).Nodup)
    (change : Entry → Entry) :
    changeEntry entry.name change (front ++ entry :: back) = front ++ change entry :: back := by
  have hother := name_ne_of_mem hnames
  have hsame (part : List Entry) (hpart : ∀ other ∈ part, other ∈ front ++ back) :
      changeEntry entry.name change part = part := by
    refine (List.map_congr_left fun other hmem => ?_).trans (List.map_id part)
    exact if_neg (hother other (hpart other hmem))
  have hfront := hsame front fun other hmem => List.mem_append_left _ hmem
  have hback := hsame back fun other hmem => mem_append_right _ hmem
  rw [changeEntry] at hfront hback ⊢
  rw [map_append, List.map_cons, hfront, hback, if_pos rfl]

theorem filter_name_eq (hnames : ((front ++ entry :: back).map Entry.name).Nodup) :
    (front ++ entry :: back).filter (fun other => other.name ≠ entry.name) = front ++ back := by
  have hother := name_ne_of_mem hnames
  rw [List.filter_append, List.filter_cons_of_neg (by simp), ← List.filter_append]
  exact List.filter_eq_self.mpr fun other hmem => decide_eq_true (hother other hmem)

end Writing

section Splicing

variable {cfg : Config} {s : State} {entries front back : List Entry} {entry : Entry}
variable (sorter : ∀ Groups : List NEWSGROUP, Sorter (NGcompare Groups))

theorem new_valid {Name Rest : Octets} (hname : ∀ c ∈ Name, NameOctet c)
    (hrest : ∀ c ∈ Rest, FlagOctet c) :
    (Entry.new Name Rest).Valid where
  name := hname
  hi c hc := all_eq_true.mp (show (octets "0000000000").all isdigit = true by decide) c hc
  hiNonempty := by simp [Entry.new, octets]
  lo c hc := all_eq_true.mp (show (octets "0000000001").all isdigit = true by decide) c hc
  loNonempty := by simp [Entry.new, octets]
  rest := hrest

theorem newLine_take (Name Rest : Octets) : newLine Name Rest = (Entry.new Name Rest).line.take
    (SMBUF - 1) := by
  simp [newLine, Entry.line, Entry.new, octets]

theorem new_line_length (Name Rest : Octets) :
    (Entry.new Name Rest).line.length = Name.length + Rest.length + 24 := by
  rw [line_length]
  simp [Entry.new, octets]
  omega

theorem newLine_eq {Name Rest : Octets} (hshort : Name.length + Rest.length < SMBUF - 24) :
    newLine Name Rest = (Entry.new Name Rest).line := by
  rw [newLine_take, List.take_of_length_le]
  rw [new_line_length]
  rw [SMBUF] at hshort ⊢
  omega

theorem ICDnewgroup_agrees (hagrees : s.Agrees cfg entries) {Name Rest : Octets}
    (hnew : s.NGfind Name = none)
    (hname : ∀ c ∈ Name, NameOctet c) (hrest : ∀ c ∈ Rest, FlagOctet c)
    (hlength : Name.length + Rest.length ≠ SMBUF - 24) :
    ∃ s' replied, s.ICDnewgroup sorter cfg Name Rest = .ok (s', replied) ∧
      s'.Agrees cfg (if replied then entries ++ [.new Name Rest] else entries) ∧
        (replied = false → s' = s) := by
  rw [State.ICDnewgroup]
  split
  next hlong => exact ⟨s, false, rfl, hagrees, fun _ => rfl⟩
  next hshort =>
    have habsent := (hagrees.tables.NGfind_none hagrees.wellFormed.names Name).mp hnew
    have hwell : WellFormed cfg (entries ++ [.new Name Rest]) := by
      refine ⟨fun entry hentry => ?_, ?_, fun name hreq => ?_⟩
      · obtain hentry | hentry := mem_append.mp hentry
        · exact hagrees.wellFormed.valid entry hentry
        · exact List.mem_singleton.mp hentry ▸ new_valid hname hrest
      · rw [map_append, List.nodup_append]
        refine ⟨hagrees.wellFormed.names, List.nodup_singleton _, fun a ha b hb hab => ?_⟩
        obtain ⟨entry, hentry, rfl⟩ := List.mem_map.mp ha
        exact habsent entry hentry (hab.trans (List.mem_singleton.mp hb))
      · rw [map_append]
        exact List.mem_append_left _ (hagrees.wellFormed.required name hreq)
    have hcontent : s.active ++ newLine Name Rest = text (entries ++ [.new Name Rest]) := by
      rw [newLine_eq (by omega), hagrees.file, text_append, text_cons]
      exact congrArg _ (List.append_nil _).symm
    obtain ⟨s', hwrite, hagrees'⟩ := write_agrees sorter hagrees hwell hcontent
    exact ⟨s', true, by rw [hwrite]; rfl, hagrees', nofun⟩

section Agreeing

variable (hagrees : s.Agrees cfg (front ++ entry :: back))

include hagrees

theorem State.Agrees.rest :
    (match s.Groups[front.length + 1]? with
      | some next => s.active.drop next.Start
      | none => []) = text back := by
  rw [next_group hagrees]
  cases back with
  | nil => rfl
  | cons next back =>
    change s.active.drop (text (front ++ [entry])).length = _
    have hmore : front ++ entry :: next :: back = (front ++ [entry]) ++ next :: back := by simp
    rw [hagrees.file, hmore, text_append (front ++ [entry]), drop_left]

theorem ICDrmgroup_agrees :
    ∃ s' replied, s.ICDrmgroup sorter cfg front.length (.of (text front).length entry) =
      .ok (s', replied) ∧
      s'.Agrees cfg (if replied then front ++ back else front ++ entry :: back) ∧
        (replied = false → s' = s) := by
  rw [State.ICDrmgroup]
  split
  next hprotected => exact ⟨s, false, rfl, hagrees, fun _ => rfl⟩
  next hallowed =>
    have hsublist : List.Sublist (front ++ back) (front ++ entry :: back) :=
      (List.Sublist.refl front).append (List.sublist_cons_self entry back)
    have hwell : WellFormed cfg (front ++ back) := by
      refine ⟨fun other hother => hagrees.wellFormed.valid other (hsublist.mem hother),
        hagrees.wellFormed.names.sublist (hsublist.map _), fun name hreq => ?_⟩
      have hin := hagrees.wellFormed.required name hreq
      rw [map_append, List.map_cons, mem_append, List.mem_cons] at hin
      rw [map_append, mem_append]
      obtain hin | rfl | hin := hin
      · exact .inl hin
      · exact absurd hreq hallowed
      · exact .inr hin
    have hfront :
        (if front.length = 0 then [] else s.active.take (text front).length) = text front := by
      rw [hagrees.file, text_append, List.take_left]
      split
      next hempty =>
        rw [List.length_eq_zero_iff.mp hempty]
        rfl
      · rfl
    obtain ⟨s', hwrite, hagrees'⟩ := write_agrees sorter hagrees hwell rfl
    refine ⟨s', true, ?_, hagrees', by rintro ⟨⟩⟩
    have hcontent := congrArg₂ (· ++ ·) hfront hagrees.rest
    rw [← text_append] at hcontent
    refine (congrArg (fun content => s.ICDwritevactive sorter cfg content >>= fun s =>
      .ok (s, true)) hcontent).trans ?_
    rw [hwrite]
    rfl

omit hagrees in
theorem text_flag (front : List Entry) (entry : Entry) :
    ∃ lead : Octets, lead.length = (NEWSGROUP.of (text front).length entry).Rest ∧
      ∀ rest back, text (front ++ { entry with rest } :: back) =
        lead ++ (rest ++ 10 :: text back) := by
  refine ⟨text front ++ (entry.name ++ 32 :: (entry.hi ++ 32 :: (entry.lo ++ [32]))), ?_,
    fun rest back => ?_⟩
  · simp only [NEWSGROUP.of, length_append, List.length_cons, List.length_nil]
    omega
  · rw [text_append, text_cons]
    simp [Entry.line]

theorem State.Agrees.tail :
    (match s.Groups[front.length + 1]? with
      | some next => s.active.drop (next.Start - 1)
      | none => [10]) = 10 :: text back := by
  obtain ⟨lead, -, hlead⟩ := text_flag front entry
  have hfile : s.active = lead ++ (entry.rest ++ 10 :: text back) := by rw [hagrees.file, ← hlead]
  rw [next_group hagrees]
  cases back with
  | nil => rfl
  | cons next back =>
    change s.active.drop ((text (front ++ [entry])).length - 1) = _
    have hline : text (front ++ [entry]) = lead ++ (entry.rest ++ [10]) := hlead entry.rest []
    have hstart : (text (front ++ [entry])).length - 1 = (lead ++ entry.rest).length := by
      rw [hline, ← append_assoc, length_append, List.length_singleton, Nat.add_sub_cancel]
    rw [hstart, hfile, ← append_assoc, drop_left]

theorem ICDchangegroup_agrees {Rest : Octets} (hrest : ∀ c ∈ Rest, FlagOctet c) :
    ∃ s', s.ICDchangegroup sorter cfg front.length (.of (text front).length entry) Rest =
      .ok (s', true) ∧
      s'.Agrees cfg (front ++ { entry with rest := Rest } :: back) := by
  have hentry := hagrees.wellFormed.valid entry (mem_append_right _ mem_cons_self)
  have hwell : WellFormed cfg (front ++ { entry with rest := Rest } :: back) :=
    hagrees.wellFormed.replace rfl { hentry with rest := hrest }
  obtain ⟨lead, hplace, hlead⟩ := text_flag front entry
  have hfile : s.active = lead ++ (entry.rest ++ 10 :: text back) := by rw [hagrees.file, ← hlead]
  obtain ⟨s', hwrite, hagrees'⟩ := write_agrees sorter hagrees hwell rfl
  refine ⟨s', ?_, hagrees'⟩
  have hcontent :
      s.active.take (NEWSGROUP.of (text front).length entry).Rest ++ Rest ++ 10 :: text back =
      text (front ++ { entry with rest := Rest } :: back) := by
    rw [← hplace, hfile, List.take_left, hlead, append_assoc]
  have hwritten :=
    (congrArg (s.active.take (NEWSGROUP.of (text front).length entry).Rest ++ Rest ++ ·)
      hagrees.tail).trans hcontent
  refine (congrArg (fun content => s.ICDwritevactive sorter cfg content >>= fun s =>
    .ok (s, true)) hwritten).trans ?_
  rw [hwrite]
  rfl

end Agreeing

end Splicing

section Setting

variable {cfg : Config} {s : State} {front back : List Entry} {entry : Entry}

theorem padded_isdigit (width : Nat) (value : Int) : ∀ c ∈ padded width value, isdigit c :=
    fun c hc => digitsOf_isdigit _ _ c hc

theorem padded_length (width : Nat) (value : Int) : (padded width value).length = width :=
    digitsOf_length ..

theorem padded_ne_nil {field : Octets} (hfield : field ≠ []) (value : Int) :
    padded field.length value ≠ [] := by
  rw [ne_eq, ← List.length_eq_zero_iff, padded_length]
  exact fun h => hfield (List.length_eq_zero_iff.mp h)

theorem Entry.Valid.setHigh (h : entry.Valid) (himark : Int) : (entry.setHigh himark).Valid :=
  { h with
    hi := padded_isdigit _ _
    hiNonempty := padded_ne_nil h.hiNonempty himark }

theorem Entry.Valid.setLow (h : entry.Valid) (lomark : Int) : (entry.setLow lomark).Valid :=
  { h with
    lo := padded_isdigit _ _
    loNonempty := padded_ne_nil h.loNonempty lomark }

theorem high_setHigh {himark : Int} (hpositive : 0 ≤ himark) (hsmall : himark < 2 ^ 63)
    (hfits : FitsIn entry.hi.length himark) : (entry.setHigh himark).high = himark := by
  rw [Entry.high, Entry.setHigh, padded, readDigits_digitsOf hfits]
  omega

theorem Tables.Of.replace {tables : Tables} (h : tables.Of (front ++ entry :: back)) {other : Entry}
    (hname : other.name = entry.name) (hlength : other.line.length = entry.line.length)
    {Groups : List NEWSGROUP} (hGroups : Groups = placed 0 front ++ .of (text front).length other ::
      placed ((text front).length + entry.line.length) back) :
    Tables.Of { tables with Groups } (front ++ other :: back) := by
  refine ⟨?_, fun place i => (h.table place i).trans ?_⟩
  · rw [hGroups, placed_append, Nat.zero_add, placed, hlength]
  · have hnames : (front ++ other :: back).map Entry.name =
        (front ++ entry :: back).map Entry.name := by simp [hname]
    have hplace (entries : List Entry) : (∃ e, entries[i]? = some e ∧ bucket e.name = place) ↔
        ∃ name, (entries.map Entry.name)[i]? = some name ∧ bucket name = place := by
      simp [List.getElem?_map]
    rw [hplace, hplace, hnames]

section Agreeing2

variable (hagrees : s.Agrees cfg (front ++ entry :: back))

include hagrees

theorem markFields_line :
    ∃ f2 f3 f4, markFields s.active (NEWSGROUP.of (text front).length entry).Start =
      some (f2, f3, f4) ∧
      f2 = (text front).length + entry.name.length + 1 ∧ f3 = f2 + entry.hi.length + 1 ∧
        f4 = f3 + entry.lo.length ∧
      atol (s.active.drop f2) = entry.high ∧ atol (s.active.drop f3) = entry.low := by
  have hvalid := hagrees.wellFormed.valid entry (mem_append_right _ mem_cons_self)
  have hline := separated hvalid (Eq.refl (text front).length) (text back)
  rw [← text_cons, ← text_append, ← hagrees.file] at hline
  refine ⟨_, _, _, ?_, rfl, rfl, rfl, hline.atol_high hvalid, hline.atol_low hvalid⟩
  simp only [markFields, NEWSGROUP.of, hline.space, hline.high, hline.low, Option.bind_eq_bind,
    Option.bind_some]

omit hagrees in
theorem modify_middle {α : Type} (front : List α) (a : α) (back : List α) (f : α → α) :
    (front ++ a :: back).modify front.length f = front ++ f a :: back := by
  induction front with
  | nil => rfl
  | cons b front ih => rw [List.cons_append, List.length_cons, List.modify_succ_cons, ih,
      List.cons_append]

theorem setHigh_agrees {f2 f3 : Nat} {himark : Int}
    (hf2 : f2 = (text front).length + entry.name.length + 1) (hf3 : f3 = f2 + entry.hi.length + 1)
    (hpositive : 0 ≤ himark) (hsmall : himark < 2 ^ 63) (hfits : FitsIn entry.hi.length himark) :
    ∃ s', s.setHigh front.length f2 f3 himark = (s', true) ∧
      s'.Agrees cfg (front ++ entry.setHigh himark :: back) := by
  have hvalid := hagrees.wellFormed.valid entry (mem_append_right _ mem_cons_self)
  have hwidth : f3 - f2 - 1 = entry.hi.length := by omega
  have hline (e : Entry) (hname : e.name = entry.name) :
      text (front ++ e :: back) = (text front ++ entry.name ++ [32]) ++
      (e.hi ++ (32 :: (e.lo ++ 32 :: (e.rest ++ 10 :: text back)))) := by
    simp [text_append, text_cons, Entry.line, hname]
  have hplace : (text front ++ entry.name ++ [32]).length = f2 := by
    rw [length_append, length_append, List.length_singleton, hf2]
  have hwritten : (FormatLong s.active f2 himark (f3 - f2 - 1)).1 =
      text (front ++ entry.setHigh himark :: back) := by
    rw [hagrees.file, hline entry rfl, hwidth, FormatLong_field himark hplace rfl,
      hline (entry.setHigh himark) rfl]
    rfl
  have hfit : (FormatLong s.active f2 himark (f3 - f2 - 1)).2 = true := by
    rw [hwidth]
    exact FormatLong_fits _ _ hfits
  have hlength : (entry.setHigh himark).line.length = entry.line.length := by
    rw [line_length, line_length]
    simp [Entry.setHigh, padded_length]
  have hgroups : s.Groups.modify front.length (fun ngp => { ngp with Last := himark }) =
      placed 0 front ++ .of (text front).length (entry.setHigh himark) ::
        placed ((text front).length + entry.line.length) back := by
    have hmiddle := modify_middle (placed 0 front) (.of (text front).length entry)
      (placed ((text front).length + entry.line.length) back) fun ngp => { ngp with Last := himark }
    rw [placed_length] at hmiddle
    have hsame : NEWSGROUP.of (text front).length (entry.setHigh himark) =
        { NEWSGROUP.of (text front).length entry with Last := himark } := by
      simp only [NEWSGROUP.of, high_setHigh hpositive hsmall hfits]
      simp [Entry.setHigh, padded_length]
    rw [hagrees.tables.groups, placed_append, Nat.zero_add, placed, hmiddle, hsame]
  refine ⟨_, by rw [State.setHigh, if_pos hfit], ?_⟩
  have hname : (entry.setHigh himark).name = entry.name := rfl
  exact ⟨hagrees.wellFormed.replace hname (hvalid.setHigh himark), hwritten,
    hagrees.tables.replace hname hlength hgroups, hagrees.setup⟩

theorem setLow_agrees {f3 f4 : Nat} {lomark : Int}
    (hf3 : f3 = (text front).length + entry.name.length + 1 + entry.hi.length + 1)
    (hf4 : f4 = f3 + entry.lo.length) :
    State.Agrees { s with active := (FormatLong s.active f3 lomark (f4 - f3)).1 } cfg
      (front ++ entry.setLow lomark :: back) := by
  have hvalid := hagrees.wellFormed.valid entry (mem_append_right _ mem_cons_self)
  have hwidth : f4 - f3 = entry.lo.length := by omega
  have hline (e : Entry) (hname : e.name = entry.name) (hhi : e.hi = entry.hi) :
      text (front ++ e :: back) =
      (text front ++ entry.name ++ 32 :: entry.hi ++ [32]) ++
        (e.lo ++ (32 :: (e.rest ++ 10 :: text back))) := by
    simp [text_append, text_cons, Entry.line, hname, hhi]
  have hplace : (text front ++ entry.name ++ 32 :: entry.hi ++ [32]).length = f3 := by
    simp only [length_append, List.length_cons, List.length_nil]
    omega
  have hwritten : (FormatLong s.active f3 lomark (f4 - f3)).1 =
      text (front ++ entry.setLow lomark :: back) := by
    rw [hagrees.file, hline entry rfl rfl, hwidth, FormatLong_field lomark hplace rfl,
      hline (entry.setLow lomark) rfl rfl]
    rfl
  have hlength : (entry.setLow lomark).line.length = entry.line.length := by
    rw [line_length, line_length]
    simp [Entry.setLow, padded_length]
  have hgroups : s.Groups = placed 0 front ++ .of (text front).length (entry.setLow lomark) ::
      placed ((text front).length + entry.line.length) back := by
    rw [hagrees.tables.groups, placed_append, Nat.zero_add, placed]
    simp [NEWSGROUP.of, padded_length, Entry.setLow, Entry.high]
  have hname : (entry.setLow lomark).name = entry.name := rfl
  exact ⟨hagrees.wellFormed.replace hname (hvalid.setLow lomark), hwritten,
    hagrees.tables.replace hname hlength hgroups, hagrees.setup⟩

theorem setMarks_agrees {f2 f3 f4 : Nat} {raised : Option Int}
    {lomark : Int} (hf2 : f2 = (text front).length + entry.name.length + 1)
    (hf3 : f3 = f2 + entry.hi.length + 1) (hf4 : f4 = f3 + entry.lo.length)
    (hraised : ∀ himark ∈ raised, 0 ≤ himark ∧ himark < 2 ^ 63 ∧ FitsIn entry.hi.length himark)
    (hlow : lomark ≠ entry.low → FitsIn entry.lo.length lomark) :
    ∃ s', s.setMarks front.length f2 f3 f4 raised lomark = (s', true) ∧
      s'.Agrees cfg (front ++ entry.setMarks raised lomark :: back) := by
  obtain ⟨t, e, hhigh, hset, hagrees', hname, hlo, hlength, hsame⟩ : ∃ t e,
      raised.elim (s, true) (s.setHigh front.length f2 f3) = (t, true) ∧
      raised.elim entry entry.setHigh = e ∧ t.Agrees cfg (front ++ e :: back) ∧
        e.name = entry.name ∧
      e.lo = entry.lo ∧ e.hi.length = entry.hi.length ∧ e.low = entry.low := by
    cases raised with
    | none => exact ⟨s, entry, rfl, rfl, hagrees, rfl, rfl, rfl, rfl⟩
    | some himark =>
      obtain ⟨hpositive, hsmall, hfits⟩ := hraised himark rfl
      obtain ⟨t, hhigh, hagrees'⟩ := setHigh_agrees hagrees hf2 hf3 hpositive hsmall hfits
      exact ⟨t, _, hhigh, rfl, hagrees', rfl, rfl, padded_length _ _, rfl⟩
  obtain ⟨g2, g3, g4, -, hg2, hg3, -, -, hread⟩ := markFields_line hagrees'
  have hplace : g3 = f3 := by rw [hg3, hg2, hname, hlength, hf3, hf2]
  rw [hplace] at hread
  have hmarks :
      entry.setMarks raised lomark = if lomark = entry.low then e else e.setLow lomark := by
    rw [Entry.setMarks, hset, hsame]
  have hperform : s.setMarks front.length f2 f3 f4 raised lomark =
      if lomark = entry.low then (t, true)
      else ({ t with active := (FormatLong t.active f3 lomark (f4 - f3)).1 },
        (FormatLong t.active f3 lomark (f4 - f3)).2) := by
    rw [State.setMarks, hhigh]
    rw [if_neg (by simp), hread, hsame]
  rw [hmarks, hperform]
  split
  · exact ⟨t, rfl, hagrees'⟩
  next hdiffers =>
    have hwidth : f4 - f3 = entry.lo.length := by omega
    refine ⟨{ t with active := (FormatLong t.active f3 lomark (f4 - f3)).1 }, ?_,
      setLow_agrees hagrees' (by rw [hname, hlength, hf3, hf2]) (by rw [hlo, hf4])⟩
    rw [hwidth]
    exact Prod.ext rfl (FormatLong_fits t.active f3 (hlow hdiffers))

end Agreeing2

end Setting

section Steps

variable {cfg : Config} {s : State} {entries front back : List Entry} {entry : Entry}
variable (sorter : ∀ Groups : List NEWSGROUP, Sorter (NGcompare Groups))

theorem Entry.high_nonneg (entry : Entry) : 0 ≤ entry.high := by
  rw [Entry.high]
  omega

theorem fits_agrees (hagrees : s.Agrees cfg (front ++ entry :: back)) {raised : Int → Option Int}
    {lomark : Int} (hraised : ∀ hi, 0 ≤ hi → ∀ himark ∈ raised hi, 0 ≤ himark ∧ himark < 2 ^ 63)
    (hfits : s.Fits (.of (text front).length entry) raised lomark) :
    ∃ f2 f3 f4 s', markFields s.active (NEWSGROUP.of (text front).length entry).Start =
      some (f2, f3, f4) ∧
      atol (s.active.drop f2) = entry.high ∧
      s.setMarks front.length f2 f3 f4 (raised entry.high) lomark = (s', true) ∧
      s'.Agrees cfg (front ++ entry.setMarks (raised entry.high) lomark :: back) := by
  obtain ⟨f2, f3, f4, hfields, hf2, hf3, hf4, hhigh, hlow⟩ := markFields_line hagrees
  obtain ⟨hfitsHigh, hfitsLow⟩ := hfits f2 f3 f4 hfields
  rw [hhigh, show f3 - f2 - 1 = entry.hi.length by omega] at hfitsHigh
  rw [hlow, show f4 - f3 = entry.lo.length by omega] at hfitsLow
  obtain ⟨s', hset, hagrees'⟩ := setMarks_agrees hagrees hf2 hf3 hf4
    (fun himark hmem => ⟨(hraised _ entry.high_nonneg himark hmem).1,
      (hraised _ entry.high_nonneg himark hmem).2,
      hfitsHigh himark hmem⟩) hfitsLow
  exact ⟨f2, f3, f4, s', hfields, hhigh, hset, hagrees'⟩

theorem NGlowmark_agrees (hagrees : s.Agrees cfg (front ++ entry :: back)) {lomark : Int64}
    (hfits : s.Fits (.of (text front).length entry)
      (fun hi => if hi + 1 < lomark.toInt then some (lomark.toInt - 1) else none) lomark.toInt) :
    ∃ s', s.NGlowmark front.length (.of (text front).length entry) lomark = (s', true) ∧
      s'.Agrees cfg (front ++ entry.lowmark lomark :: back) := by
  have hlong := lomark.toInt_lt
  obtain ⟨f2, f3, f4, s', hfields, hhigh, hset, hagrees'⟩ := fits_agrees hagrees (by
    intro hi hpositive himark hmem
    rw [Option.mem_def, Option.ite_none_right_eq_some, Option.some.injEq] at hmem
    obtain ⟨hless, rfl⟩ := hmem
    omega) hfits
  refine ⟨s', ?_, hagrees'⟩
  rw [State.NGlowmark, hfields]
  dsimp only
  rw [hhigh, hset]

theorem NGrenumber_agrees (hagrees : s.Agrees cfg (front ++ entry :: back)) (stats : Option Stats)
    (hfits : cfg.enableoverview = true → s.ICDneedsetup = false → ∀ stats' ∈ stats,
      s.Fits (.of (text front).length entry)
        (fun hi => if hi < stats'.himark then some stats'.himark else none) stats'.lomark) :
    ∃ s' replied, s.NGrenumber cfg front.length (.of (text front).length entry) stats =
      (s', replied) ∧
      s'.Agrees cfg (if replied && cfg.enableoverview then front ++
        stats.elim entry entry.renumber :: back
        else front ++ entry :: back) ∧ (replied = false → s' = s) := by
  by_cases hdisabled : cfg.enableoverview = false
  · exact ⟨s, true, if_pos hdisabled, by rw [hdisabled]; exact hagrees, fun _ => rfl⟩
  have henabled : cfg.enableoverview = true := by simpa using hdisabled
  by_cases hneed : s.ICDneedsetup = true
  · exact ⟨s, false, (if_neg hdisabled).trans (if_pos hneed), hagrees, fun _ => rfl⟩
  cases stats with
  | none =>
    refine ⟨s, false, ?_, hagrees, fun _ => rfl⟩
    unfold State.NGrenumber
    rw [if_neg hdisabled, if_neg hneed]
    cases markFields s.active (NEWSGROUP.of (text front).length entry).Start <;> rfl
  | some stats =>
    have hint := stats.high.toInt_lt
    obtain ⟨f2, f3, f4, s', hfields, hhigh, hset, hagrees'⟩ := fits_agrees hagrees (by
      intro hi hpositive himark hmem
      rw [Option.mem_def, Option.ite_none_right_eq_some, Option.some.injEq] at hmem
      obtain ⟨hless, rfl⟩ := hmem
      rw [Stats.himark] at hless ⊢
      omega) (hfits henabled (by simpa using hneed) stats rfl)
    refine ⟨s', true, ?_, by rw [henabled]; exact hagrees', nofun⟩
    unfold State.NGrenumber
    rw [if_neg hdisabled, if_neg hneed, hfields]
    dsimp only
    rw [hhigh, hset]

theorem perform_agrees (hagrees : s.Agrees cfg entries) {operation : Operation}
    (hallowed : s.Allows cfg operation) :
    ∃ s' replied, s.perform sorter cfg operation = .ok (s', replied) ∧
      s'.Agrees cfg (if replied then operation.apply cfg entries else entries) ∧
        (replied = false → s' = s) := by
  have hnames := hagrees.wellFormed.names
  cases operation with
  | ICDnewgroup Name Rest =>
    obtain ⟨hnew, hname, hrest, hlength⟩ := hallowed
    exact ICDnewgroup_agrees sorter hagrees hnew hname hrest hlength
  | ICDrmgroup Name =>
    obtain ⟨-, hgroup⟩ | ⟨front, entry, back, rfl, rfl, -, -, hgroup⟩ :=
      withGroup_cases hagrees Name (s.ICDrmgroup sorter cfg)
    · exact ⟨s, false, hgroup, hagrees, fun _ => rfl⟩
    · obtain ⟨s', replied, hremove, hagrees', hfailed⟩ := ICDrmgroup_agrees sorter hagrees
      refine ⟨s', replied, hgroup.trans hremove, ?_, hfailed⟩
      rwa [Operation.apply, filter_name_eq hnames]
  | ICDchangegroup Name Rest =>
    obtain ⟨-, hgroup⟩ | ⟨front, entry, back, rfl, rfl, -, -, hgroup⟩ :=
      withGroup_cases hagrees Name fun i ngp => s.ICDchangegroup sorter cfg i ngp Rest
    · exact ⟨s, false, hgroup, hagrees, fun _ => rfl⟩
    · obtain ⟨s', hchange, hagrees'⟩ := ICDchangegroup_agrees sorter hagrees hallowed
      refine ⟨s', true, hgroup.trans hchange, ?_, nofun⟩
      rwa [Operation.apply, changeEntry_eq hnames]
  | NGrenumber Name stats =>
    obtain ⟨-, hgroup⟩ | ⟨front, entry, back, rfl, rfl, hfind, hplace, hgroup⟩ :=
      withGroup_cases hagrees Name fun i ngp => .ok (s.NGrenumber cfg i ngp stats)
    · exact ⟨s, false, hgroup, hagrees, fun _ => rfl⟩
    · obtain ⟨s', replied, hrenumber, hagrees', hfailed⟩ := NGrenumber_agrees hagrees stats (by
        intro henabled hneed stats' hstats
        obtain rfl : stats = some stats' := hstats
        exact hallowed henabled hneed _ hfind _ hplace)
      refine ⟨s', replied, hgroup.trans (congrArg Except.ok hrenumber), ?_, hfailed⟩
      rw [Operation.apply, changeEntry_eq hnames]
      cases replied with
      | false => exact hagrees'
      | true => exact hagrees'
  | NGlowmark Name lomark =>
    obtain ⟨-, hgroup⟩ | ⟨front, entry, back, rfl, rfl, hfind, hplace, hgroup⟩ :=
      withGroup_cases hagrees Name fun i ngp => .ok (s.NGlowmark i ngp lomark)
    · exact ⟨s, false, hgroup, hagrees, fun _ => rfl⟩
    · obtain ⟨s', hlowmark, hagrees'⟩ := NGlowmark_agrees hagrees (hallowed _ hfind _ hplace)
      refine ⟨s', true, hgroup.trans (congrArg Except.ok hlowmark), ?_, nofun⟩
      rwa [Operation.apply, changeEntry_eq hnames]
  | pause =>
    exact ⟨_, true, rfl, ⟨hagrees.wellFormed, hagrees.file, hagrees.tables, nofun⟩, nofun⟩
  | CCgo =>
    rw [State.perform]
    split
    next hrunning => exact ⟨s, false, rfl, hagrees, fun _ => rfl⟩
    next hpaused =>
      by_cases hneed : s.ICDneedsetup = true
      · refine ⟨{ s with running := true, ICDneedsetup := false }, true, ?_,
          ⟨hagrees.wellFormed, hagrees.file, hagrees.tables, fun _ => rfl⟩, nofun⟩
        have hsetup : State.ICDsetup sorter cfg { s with running := true } =
            .ok { s with running := true, ICDneedsetup := false } := by
          rw [State.ICDsetup, if_pos hneed]
          exact if_pos (found_required hagrees.wellFormed hagrees.tables)
        rw [if_pos hneed, hsetup]
        rfl
      · refine ⟨{ s with running := true }, true, ?_,
          ⟨hagrees.wellFormed, hagrees.file, hagrees.tables, fun _ => by simpa using hneed⟩, nofun⟩
        rw [if_neg hneed]
        rfl

theorem run_agrees (operations : List Operation) {session : Session}
    (hagrees : session.server.Agrees cfg entries)
    (hmeets : Meets (Session.step sorter cfg) (fun session =>
      session.server.Allows cfg) operations session) :
    ∃ session' replies, run (Session.step sorter cfg) operations session = .ok session' ∧
      session'.replies = session.replies ++ replies ∧ replies.length = operations.length ∧
      session'.server.Agrees cfg (outcome cfg entries (operations.zip replies)) := by
  induction operations generalizing session entries with
  | nil => exact ⟨session, [], rfl, (List.append_nil _).symm, rfl, hagrees⟩
  | cons operation operations ih =>
    obtain ⟨s', replied, hperform, hagrees', -⟩ := perform_agrees sorter hagrees hmeets.1
    have hstep : session.step sorter cfg operation = .ok ⟨s', session.replies ++ [replied]⟩ := by
      rw [Session.step, hperform]
      rfl
    obtain ⟨session', replies, hrun, hreplies, hlength, hfinal⟩ := ih hagrees' (hmeets.2 _ hstep)
    refine ⟨session', replied :: replies,
      by rw [run_cons hstep, hrun], ?_, by rw [List.length_cons, hlength]; rfl, hfinal⟩
    rw [hreplies, append_assoc, List.singleton_append]

end Steps

section Active

variable (sorter : ∀ Groups : List NEWSGROUP, Sorter (NGcompare Groups)) (cfg : Config)

def State.Finds (s : State) (entries : List Entry) : Prop :=
  ∀ name i, s.NGfind name = some i ↔ ∃ entry, entries[i]? = some entry ∧ entry.name = name ∧
    ∃ ngp, s.Groups[i]? = some ngp ∧ ngp.Name = name ∧ ngp.Last = entry.high ∧
      ∃ more, s.active.drop ngp.Rest = entry.rest ++ 10 :: more

variable {cfg} in
theorem State.Agrees.finds {s : State} {entries : List Entry} (hagrees : s.Agrees cfg entries) :
    s.Finds entries := by
  intro name i
  rw [hagrees.tables.NGfind_eq hagrees.wellFormed.names]
  constructor
  · rintro ⟨entry, hentry, hname⟩
    obtain ⟨hsplit, hlength⟩ := split_at hentry
    have hplaced := getElem?_placed (entries.take i) entry (entries.drop (i + 1))
    rw [← hsplit, hlength, ← hagrees.tables.groups] at hplaced
    refine ⟨entry, hentry, hname, _, hplaced, hname, rfl, text (entries.drop (i + 1)), ?_⟩
    obtain ⟨lead, hplace, hlead⟩ := text_flag (entries.take i) entry
    have hfile : s.active = lead ++ (entry.rest ++ 10 :: text (entries.drop (i + 1))) := by
      rw [hagrees.file, ← hlead, ← hsplit]
    rw [← hplace, hfile, drop_left]
  · rintro ⟨entry, hentry, hname, -⟩
    exact ⟨entry, hentry, hname⟩

/-- After every run of operations that are allowed the file has the lines of what the operations
that have not failed have made of the entries, the server finds just these, and an operation that
has failed has changed nothing. -/
theorem active_agrees {entries : List Entry} (hwell : WellFormed cfg entries) :
    ∃ s, State.start sorter cfg (text entries) = .ok s ∧
      ∀ operations, Meets (Session.step sorter cfg) (fun session =>
        session.server.Allows cfg) operations ⟨s, []⟩ →
        ∃ session, run (Session.step sorter cfg) operations ⟨s, []⟩ = .ok session ∧
          session.replies.length = operations.length ∧
          WellFormed cfg (outcome cfg entries (operations.zip session.replies)) ∧
          session.server.active = text (outcome cfg entries (operations.zip session.replies)) ∧
          session.server.Finds (outcome cfg entries (operations.zip session.replies)) ∧
          ∀ operation, session.server.Allows cfg operation → ∀ s',
            session.server.perform sorter cfg operation = .ok (s', false) →
              s' = session.server := by
  obtain ⟨s, hstart, hagrees⟩ :=
    setup_agrees sorter (s := ⟨⟨[], fun _ => []⟩, text entries, true, false⟩) hwell rfl rfl
  refine ⟨s, hstart, fun operations hmeets => ?_⟩
  obtain ⟨session, replies, hrun, hreplies, hlength, hfinal⟩ :=
    run_agrees sorter operations hagrees hmeets
  rw [List.nil_append] at hreplies
  rw [← hreplies] at hlength hfinal
  refine ⟨session, hrun, hlength, hfinal.wellFormed, hfinal.file, hfinal.finds,
    fun operation hallowed s' hfails => ?_⟩
  obtain ⟨t, replied, hperform, -, hsame⟩ := perform_agrees sorter hfinal hallowed
  rw [hperform] at hfails
  cases hfails
  exact hsame rfl

def fourGroups : List Entry :=
  ["control", "junk", "control.cancel", "misc.test"].map fun name => .new (octets name) (octets "y")

theorem fourGroups_wellFormed : WellFormed ⟨false, true⟩ fourGroups := by
  refine ⟨fun entry hentry => ?_, by decide, by decide⟩
  obtain ⟨name, hname, rfl⟩ := List.mem_map.mp hentry
  have hplain : (["control", "junk", "control.cancel", "misc.test"].all fun name =>
      (octets name).all fun c => NameOctet c) = true := by decide
  have hflag : ((octets "y").all fun c => FlagOctet c) = true := by decide
  exact new_valid (fun c hc =>
    of_decide_eq_true (all_eq_true.mp (all_eq_true.mp hplain name hname) c hc))
    fun c hc => of_decide_eq_true (all_eq_true.mp hflag c hc)

def changedRemoved : List Operation :=
  [.ICDchangegroup (octets "misc.test") (octets "n"), .pause,
    .ICDrmgroup (octets "misc.test"), .CCgo]

theorem active_agrees_changed : ∃ s session, State.start (fun _ => inserting _) ⟨false, true⟩
    (text fourGroups) = .ok s ∧
    run (Session.step (fun _ => inserting _) ⟨false, true⟩) changedRemoved ⟨s, []⟩ = .ok session ∧
    session.server.Finds (outcome ⟨false,
      true⟩ fourGroups (changedRemoved.zip session.replies)) := by
  obtain ⟨s, hstart, hruns⟩ :=
    active_agrees (fun _ => inserting _) ⟨false, true⟩ fourGroups_wellFormed
  have hflag : ∀ c ∈ octets "n", FlagOctet c := by
    intro c hc
    obtain rfl : c = 110 := List.mem_singleton.mp hc
    decide
  obtain ⟨session, hrun, -, -, -, hfinds, -⟩ := hruns changedRemoved
    ⟨hflag, fun _ _ => ⟨trivial, fun _ _ => ⟨trivial, fun _ _ => ⟨trivial, fun _ _ => trivial⟩⟩⟩⟩
  exact ⟨s, session, hstart, hrun, hfinds⟩

/-- A low water mark of 20000000000 needs a high one with a digit more than the field has, and the
call fails once it has written the others. -/
theorem not_unchanged : ¬∀ (entries : List Entry) (s : State) (operation : Operation) (s' : State),
    WellFormed ⟨false, true⟩ entries →
      State.start (fun _ => inserting _) ⟨false, true⟩ (text entries) = .ok s →
      s.perform (fun _ => inserting _) ⟨false, true⟩ operation = .ok (s', false) →
        s'.active = s.active := by
  intro hunchanged
  have hrun : ((do
      let s ← State.start (fun _ => inserting _) ⟨false, true⟩ (text fourGroups)
      let result ← s.perform (fun _ => inserting _) ⟨false,
        true⟩ (.NGlowmark (octets "misc.test") 20000000000)
      .ok (result.2, decide (result.1.active = s.active)) : Except Fault (Bool × Bool))).toOption =
        some (false, false) := by
    decide +kernel
  cases hstart : State.start (fun _ => inserting _) ⟨false, true⟩ (text fourGroups) with
  | error fault =>
    rw [hstart] at hrun
    cases hrun
  | ok s =>
    rw [hstart] at hrun
    cases hperform : s.perform (fun _ => inserting _) ⟨false,
      true⟩ (.NGlowmark (octets "misc.test") 20000000000) with
    | error fault =>
      simp only [bind, Except.bind, hperform] at hrun
      cases hrun
    | ok result =>
      simp only [bind, Except.bind, hperform] at hrun
      obtain ⟨hfails, hdiffers⟩ := Prod.mk.inj (Option.some.inj hrun)
      obtain ⟨s', replied⟩ := result
      obtain rfl : replied = false := hfails
      exact of_decide_eq_false hdiffers (hunchanged _ s _ s' fourGroups_wellFormed hstart hperform)

end Active

end Inn.Innd.Active
