import Inn.History.RoundTrip
import Inn.Storage.OverdataHeaders

/-!
# The overview line and back

The fields of an overview line have no octet that would end them. So the line passes its check, it
is split where it was put together, and each field is read as it was built.
-/

namespace Inn.Storage.Overdata

open Inn.Foundation.Lines (cut cut_first cut_of_notMem)
open Inn.Foundation.Words
open Inn.History (strtoul strtoul_decimal)
open Inn.Lib.WireText
open List (append_assoc mem_append forall_mem_cons cons_append length_cons)

def Clean (field : Octets) : Prop := ∀ c ∈ field, c ≠ 0 ∧ c ≠ TAB ∧ c ≠ CR ∧ c ≠ LF

def tabbed (fs : List Octets) : Octets := fs.flatMap (TAB :: ·) ++ [CR, LF]

section Building

variable {article header name : Octets} {extra : List Octets}

theorem tabbed_cons (f : Octets) (fs : List Octets) :
    tabbed (f :: fs) = TAB :: (f ++ tabbed fs) := by
  rw [tabbed, List.flatMap_cons, append_assoc]
  rfl

theorem clean_append {before after : Octets} (hbefore : Clean before) (hafter : Clean after) :
    Clean (before ++ after) := fun c hc => (mem_append.mp hc).elim (hbefore c) (hafter c)

theorem clean_decimal (n : Nat) : Clean (decimal n) := fun c hc =>
  Inn.Wildmat.forall_octet (P := fun c => isdigit c = true → c ≠ 0 ∧ c ≠ TAB ∧ c ≠ CR ∧
    c ≠ LF) (by decide +kernel) c
    (decimal_isdigit n c hc)

theorem clean_name (hname : HeaderName name) : Clean name := fun c hc =>
  Inn.Wildmat.forall_octet (P := fun c => NameOctet c → c ≠ 0 ∧ c ≠ TAB ∧ c ≠ CR ∧
    c ≠ LF) (by decide +kernel) c
    (hname c hc)

theorem clean_copyHeader (value : Octets) : Clean (copyHeader value) := by
  have hblank : ∀ c, blank c ≠ 0 ∧ blank c ≠ TAB ∧ blank c ≠ CR ∧ blank c ≠ LF :=
    Inn.Wildmat.forall_octet (by decide +kernel)
  induction value using copyHeader.induct with
  | case1 => nofun
  | case2 c =>
    intro d hd
    rw [copyHeader, List.mem_singleton] at hd
    exact hd ▸ hblank c
  | case3 c d rest hterminator ih =>
    rw [copyHeader, if_pos hterminator]
    exact ih
  | case4 c d rest hterminator ih =>
    rw [copyHeader, if_neg hterminator]
    exact forall_mem_cons.mpr ⟨hblank c, ih⟩

theorem clean_buildHeader (article header : Octets) : Clean (buildHeader article header) := by
  rw [buildHeader]
  generalize (wireFindheader header false article.length article >>= _) = value
  cases value with
  | none => rintro _ ⟨⟩
  | some value => exact clean_copyHeader value

def standardField (article : Octets) (field : Octets × Nat) : Octets :=
  if field.2 = 5 then decimal article.length else buildHeader article field.1

def extraField (article header : Octets) : Octets :=
    header ++ 58 :: 32 :: buildHeader article header

def lineFields (article : Octets) (extra : List Octets) : List Octets :=
  fields.zipIdx.map (standardField article) ++ extra.map (extraField article)

theorem overviewBuild_eq (number : UInt64) (article : Octets) (extra : List Octets) :
    overviewBuild number article extra =
      decimal number.toNat ++ tabbed (lineFields article extra) := by
  have hextra : buildExtra article = fun name => TAB :: extraField article name := by
    funext name
    rw [buildExtra, extraField, append_assoc]
    rfl
  rw [overviewBuild, hextra, tabbed, lineFields, List.flatMap_append, List.flatMap_map,
    List.flatMap_map,
    append_assoc, append_assoc, append_assoc]
  rfl

theorem clean_extraField (hname : HeaderName name) : Clean (extraField article name) := by
  refine clean_append (clean_name hname) ?_
  refine forall_mem_cons.mpr ⟨by decide, forall_mem_cons.mpr ⟨by decide, ?_⟩⟩
  exact clean_buildHeader article name

theorem clean_lineFields (hextra : ∀ name ∈ extra, HeaderName name) :
    ∀ field ∈ lineFields article extra, Clean field := by
  intro field hfield
  obtain hfield | hfield := mem_append.mp hfield
  · obtain ⟨entry, -, rfl⟩ := List.mem_map.mp hfield
    rw [standardField]
    split
    · exact clean_decimal _
    · exact clean_buildHeader _ _
  · obtain ⟨name, hname, rfl⟩ := List.mem_map.mp hfield
    exact clean_extraField (hextra name hname)

end Building

section SameName

variable {name header : Octets} (hsame : sameName name header)

include hsame

theorem sameName_length : name.length = header.length := by
  have hmap := congrArg List.length (of_decide_eq_true hsame)
  rwa [List.length_map, List.length_map] at hmap

theorem sameName_right (other : Octets) : sameName other name = sameName other header := by
  rw [sameName, sameName, of_decide_eq_true hsame]

theorem sameName_left (other : Octets) : sameName name other = sameName header other := by
  rw [sameName, sameName, of_decide_eq_true hsame]

theorem isheader_same (line : Octets) : isheader line name = isheader line header := by
  rw [isheader, isheader, startsWith, startsWith, sameName_length hsame, sameName_right hsame]

theorem wireFindheader_same (stripspaces : Bool) (bound : Nat) (p : Octets) :
    wireFindheader name stripspaces bound p = wireFindheader header stripspaces bound p := by
  induction bound generalizing p with
  | zero => rfl
  | succ bound ih =>
    have hrec : wireFindheader name stripspaces bound = wireFindheader header stripspaces bound :=
      funext ih
    rw [wireFindheader, wireFindheader, isheader_same hsame, sameName_length hsame, hrec]

theorem lastHeader_same (bound : Nat) (next value : Octets) :
    lastHeader name bound next value = lastHeader header bound next value := by
  induction bound generalizing next value with
  | zero => rfl
  | succ bound ih =>
    have hrec : lastHeader name bound = lastHeader header bound := funext₂ ih
    rw [lastHeader, lastHeader, wireFindheader_same hsame, hrec]

theorem buildHeader_same (article : Octets) :
    buildHeader article name = buildHeader article header := by
  rw [buildHeader, buildHeader, wireFindheader_same hsame, sameName_left hsame]
  simp only [lastHeader_same hsame]

end SameName

section Checking

variable {f name : Octets} {fs : List Octets}

def ending (fs : List Octets) : Octets := memory TAB (tabbed fs)

theorem memory_field (hf : Clean f) (fs : List Octets) :
    memory TAB (f ++ tabbed fs) = f ++ ending fs := by
  have hmap : f.map (fun c => if c = TAB then 0 else c) = f := by
    refine (List.map_congr_left fun c hc => ?_).trans (List.map_id f)
    exact if_neg (hf c hc).2.1
  rw [memory, List.map_append, hmap, append_assoc]
  rfl

theorem ending_cons (f : Octets) (fs : List Octets) (hf : Clean f) :
    ending (f :: fs) = 0 :: (f ++ ending fs) := by
  rw [← memory_field hf, ending, tabbed_cons]
  rfl

theorem stringsBehind_field (hf : Clean f) (rest : Octets) :
    stringsBehind TAB (f ++ rest) = stringsBehind TAB rest := by
  induction f with
  | nil => rfl
  | cons c f ih =>
    obtain ⟨hc, hf⟩ := forall_mem_cons.mp hf
    rw [cons_append, stringsBehind, if_neg hc.2.1, ih hf]

def strings : List Octets → List Octets
  | [] => []
  | f :: fs => (f ++ ending fs) :: strings fs

theorem stringsBehind_tabbed (hfs : ∀ f ∈ fs, Clean f) :
    stringsBehind TAB (tabbed fs) = strings fs := by
  induction fs with
  | nil => rfl
  | cons f fs ih =>
    obtain ⟨hf, hfs⟩ := forall_mem_cons.mp hfs
    rw [tabbed_cons, stringsBehind, if_pos rfl, stringsBehind_field hf, ih hfs,
      memory_field hf, strings]

theorem validContents_field (hf : Clean f) (hfs : ∀ f ∈ fs, Clean f) :
    validContents (f ++ ending fs) = true := by
  induction f with
  | nil =>
    cases fs with
    | nil => rfl
    | cons g fs => rw [List.nil_append, ending_cons g fs (hfs g List.mem_cons_self)]; rfl
  | cons c f ih =>
    obtain ⟨hc, hf⟩ := forall_mem_cons.mp hf
    rw [cons_append, validContents]
    split
    · rfl
    · rw [if_neg (by simp [hc.2.2]), ih hf]

theorem valid_standard (hf : Clean f) {next : Octets} (hnext : Clean next)
    (hfs : ∀ f ∈ fs, Clean f) :
    validOverviewString (f ++ ending (next :: fs)) false = true := by
  rw [validOverviewString, if_neg Bool.false_ne_true]
  cases f with
  | nil =>
    rw [ending_cons next fs hnext]
    exact validContents_field hnext hfs
  | cons c f =>
    exact validContents_field (fun d hd => hf d (List.mem_cons_of_mem _ hd))
      (forall_mem_cons.mpr ⟨hnext, hfs⟩)

theorem skipName_name (hname : HeaderName name) (rest : Octets) :
    skipName (name ++ 58 :: rest) = some (58 :: rest) := by
  induction name with
  | nil => rfl
  | cons c name ih =>
    obtain ⟨hc, hrest⟩ := forall_mem_cons.mp hname
    have hzero : c ≠ 0 := (clean_name hname c List.mem_cons_self).1
    rw [cons_append, skipName, if_neg (by simp [hzero, hc.2]), if_pos hc.1, ih hrest]

theorem valid_extra {article : Octets} (hname : HeaderName name) (hfs : ∀ f ∈ fs, Clean f) :
    validOverviewString (extraField article name ++ ending fs) true = true := by
  rw [validOverviewString, if_pos rfl]
  split
  · rfl
  · rw [extraField, append_assoc, cons_append, skipName_name hname]
    exact validContents_field (clean_buildHeader article name) hfs

theorem validNumber_digits {digits : Octets} (hdigits : ∀ c ∈ digits, isdigit c) (rest : Octets) :
    validNumber (digits ++ 0 :: rest) = true := by
  have hzero : ∀ c ∈ digits, decide (c ≠ 0) = true := by
    intro c hc
    refine decide_eq_true ?_
    rintro rfl
    exact absurd (hdigits 0 hc) (by decide)
  rw [validNumber, List.takeWhile_append_of_pos hzero, List.takeWhile_cons_of_neg (by simp),
    List.append_nil,
    List.all_eq_true]
  exact hdigits

theorem tabbed_ne_zero (hfs : ∀ f ∈ fs, Clean f) : ∀ c ∈ tabbed fs, c ≠ 0 := by
  induction fs with
  | nil => exact forall_mem_cons.mpr ⟨by decide, forall_mem_cons.mpr ⟨by decide, nofun⟩⟩
  | cons f fs ih =>
    obtain ⟨hf, hfs⟩ := forall_mem_cons.mp hfs
    rw [tabbed_cons]
    refine forall_mem_cons.mpr ⟨by decide, fun c hc => ?_⟩
    exact (mem_append.mp hc).elim (fun hc => (hf c hc).1) (ih hfs c)

theorem lineFields_standard (article : Octets) (extra : List Octets) :
    ∃ subject sender date messageId references lines, lineFields article extra =
      subject :: sender :: date :: messageId :: references :: decimal article.length :: lines ::
        extra.map (extraField article) := ⟨_, _, _, _, _, _, rfl⟩

theorem valid_extras {article : Octets} {extra : List Octets}
    (hextra : ∀ name ∈ extra, HeaderName name) :
    (strings (extra.map (extraField article))).all (validOverviewString · true) = true := by
  induction extra with
  | nil => rfl
  | cons name extra ih =>
    obtain ⟨hname, hextra⟩ := forall_mem_cons.mp hextra
    have hmore : ∀ f ∈ extra.map (extraField article), Clean f := by
      intro f hf
      obtain ⟨name, hmem, rfl⟩ := List.mem_map.mp hf
      exact clean_extraField (hextra name hmem)
    rw [List.map_cons, strings, List.all_cons, valid_extra hname hmore, ih hextra]
    rfl

theorem overviewCheck_build (number : UInt64) (article : Octets) {extra : List Octets}
    (hextra : ∀ name ∈ extra, HeaderName name) :
    overviewCheck (overviewBuild number article extra) number = true := by
  have hclean := @clean_lineFields article extra hextra
  have hnumber := clean_decimal number.toNat
  have hline :
      ∀ c ∈ decimal number.toNat ++ tabbed (lineFields article extra), decide (c ≠ 0) = true := by
    intro c hc
    exact decide_eq_true ((mem_append.mp hc).elim (fun hc => (hnumber c hc).1)
      (tabbed_ne_zero hclean c))
  rw [overviewBuild_eq, overviewCheck, List.takeWhile_eq_self_iff.mpr hline, cvectorSplit,
    stringsBehind_field hnumber, stringsBehind_tabbed hclean, memory_field hnumber]
  obtain ⟨subject, sender, date, messageId, references, lines, hfields⟩ :=
    lineFields_standard article extra
  rw [hfields] at hclean ⊢
  simp only [forall_mem_cons] at hclean
  obtain ⟨hsubject, hsender, hdate, hmessageId, hreferences, hbytes, hlines, hextras⟩ := hclean
  have hnumeric (n : Nat) {next : Octets} (hnext : Clean next) (fs : List Octets) :
      validNumber (decimal n ++ ending (next :: fs)) = true := by
    rw [ending_cons next fs hnext]
    exact validNumber_digits (decimal_isdigit n) _
  have hread (fs : List Octets) :
      (strtoul (decimal number.toNat ++ ending (subject :: fs))).1 = number := by
    rw [ending_cons subject fs hsubject, strtoul_decimal number (by intro c hc; cases hc; rfl)]
  refine (if_neg ?_).trans ?_
  · simp only [strings, length_cons]
    omega
  simp only [strings, List.getD_cons_zero, List.getD_cons_succ, List.take_succ_cons, List.take_zero,
    List.drop_succ_cons, List.drop_zero, List.all_cons, List.all_nil, Bool.and_eq_true,
      decide_eq_true_eq]
  have hfrom5 : ∀ f ∈ lines :: extra.map (extraField article), Clean f :=
    forall_mem_cons.mpr ⟨hlines, hextras⟩
  have hfrom4 := forall_mem_cons.mpr ⟨hbytes, hfrom5⟩
  have hfrom3 := forall_mem_cons.mpr ⟨hreferences, hfrom4⟩
  have hfrom2 := forall_mem_cons.mpr ⟨hmessageId, hfrom3⟩
  have hfrom1 := forall_mem_cons.mpr ⟨hdate, hfrom2⟩
  exact ⟨⟨⟨⟨hnumeric _ hsubject _, hread _⟩, hnumeric _ hlines _⟩,
    valid_standard hsubject hsender hfrom1,
    valid_standard hsender hdate hfrom2, valid_standard hdate hmessageId hfrom3,
    valid_standard hmessageId hreferences hfrom4, valid_standard hreferences hbytes hfrom5,
      trivial⟩, valid_extras hextra⟩

end Checking

section Splitting

variable {f name header : Octets} {fs : List Octets}

def pointers : List Octets → List Octets
  | [] => [[LF]]
  | f :: fs => (f ++ tabbed fs) :: pointers fs

theorem pointers_length (fs : List Octets) : (pointers fs).length = fs.length + 1 := by
  induction fs with
  | nil => rfl
  | cons f fs ih => rw [pointers, length_cons, length_cons, ih]

theorem splitFrom_fields (hf : Clean f) (hfs : ∀ f ∈ fs, Clean f) {bound : Nat}
    (hbound : fs.length < bound) :
    splitFrom bound (f ++ tabbed fs) = pointers fs := by
  have htab : TAB ∉ f := fun h => (hf TAB h).2.1 rfl
  induction fs generalizing f bound with
  | nil =>
    obtain ⟨bound, rfl⟩ := Nat.exists_eq_succ_of_ne_zero (Nat.ne_zero_of_lt hbound)
    have hend : TAB ∉ f ++ tabbed [] := by
      intro hmem
      obtain hmem | hmem := mem_append.mp hmem
      · exact htab hmem
      · revert hmem
        decide
    rw [splitFrom, cut_of_notMem hend]
    have hlast : f ++ tabbed [] = (f ++ [CR]) ++ [LF] := by
      rw [append_assoc]
      rfl
    dsimp only
    rw [hlast, List.length_append, List.length_singleton, Nat.add_sub_cancel, List.drop_left]
    rfl
  | cons g fs ih =>
    obtain ⟨hg, hfs⟩ := forall_mem_cons.mp hfs
    obtain ⟨bound, rfl⟩ := Nat.exists_eq_succ_of_ne_zero (Nat.ne_zero_of_lt hbound)
    rw [tabbed_cons, splitFrom, cut_first htab]
    dsimp only
    rw [ih hg hfs (Nat.lt_of_succ_lt_succ hbound) (fun h => (hg TAB h).2.1 rfl)]
    rfl

theorem length_le_tabbed (fs : List Octets) : fs.length ≤ (tabbed fs).length := by
  induction fs with
  | nil => exact Nat.zero_le _
  | cons f fs ih =>
    rw [tabbed_cons, length_cons, length_cons, List.length_append]
    omega

theorem overviewSplit_build (number : UInt64) (article : Octets) {extra : List Octets}
    (hextra : ∀ name ∈ extra, HeaderName name) :
    overviewSplit (overviewBuild number article extra) = pointers (lineFields article extra) := by
  rw [overviewBuild_eq, overviewSplit]
  refine splitFrom_fields (clean_decimal _) (clean_lineFields hextra) ?_
  have hlength := length_le_tabbed (lineFields article extra)
  rw [List.length_append]
  omega

theorem drop_pointers {n : Nat} (hn : n ≤ fs.length) :
    (pointers fs).drop n = pointers (fs.drop n) := by
  induction n generalizing fs with
  | zero => rfl
  | succ n ih =>
    cases fs with
    | nil => exact absurd hn (Nat.not_succ_le_zero n)
    | cons f fs => exact ih (Nat.le_of_succ_le_succ hn)

theorem getD_pointers {n : Nat} (hn : n ≤ fs.length) :
    (pointers fs).getD n [] = (pointers (fs.drop n)).headD [] := by
  rw [← drop_pointers hn, List.headD_eq_head?_getD, List.head?_drop, List.getD_eq_getElem?_getD]

theorem member_field (hf : Clean f) (fs : List Octets) :
    member (f ++ tabbed fs) ((pointers fs).headD []) = f := by
  have hlength : (tabbed fs).length = ((pointers fs).headD []).length + 1 := by
    cases fs with
    | nil => rfl
    | cons g fs =>
      rw [tabbed_cons, length_cons]
      rfl
  have hzero : ∀ c ∈ f, decide (c ≠ 0) = true := fun c hc => decide_eq_true (hf c hc).1
  rw [member, List.length_append, hlength, show f.length + (((pointers fs).headD []).length + 1) -
    ((pointers fs).headD []).length - 1 =
      f.length by omega, List.take_left, List.takeWhile_eq_self_iff.mpr hzero]

theorem drop_eq_cons {n : Nat} (hn : fs[n]? = some f) : fs.drop n = f :: fs.drop (n + 1) := by
  obtain ⟨hlt, rfl⟩ := List.getElem?_eq_some_iff.mp hn
  exact List.drop_eq_getElem_cons hlt

theorem getD_pointers_some {n : Nat} (hn : fs[n]? = some f) :
    (pointers fs).getD n [] = f ++ tabbed (fs.drop (n + 1)) ∧
      (pointers fs).getD (n + 1) [] = (pointers (fs.drop (n + 1))).headD [] := by
  obtain ⟨hlt, -⟩ := List.getElem?_eq_some_iff.mp hn
  refine ⟨?_, getD_pointers hlt⟩
  rw [getD_pointers (Nat.le_of_lt hlt), drop_eq_cons hn]
  rfl

theorem overviewGetStandardHeader_build (number : UInt64) (article : Octets) {extra : List Octets}
    (hextra : ∀ name ∈ extra, HeaderName name) {element : Nat}
    (helement : fields[element]? = some header) :
    overviewGetStandardHeader (overviewSplit (overviewBuild number article extra)) element =
      some (standardField article (header, element)) := by
  have hfield :
      (lineFields article extra)[element]? = some (standardField article (header, element)) := by
    obtain ⟨hlt, -⟩ := List.getElem?_eq_some_iff.mp helement
    rw [lineFields, List.getElem?_append_left (by simpa using hlt), List.getElem?_map,
      List.getElem?_zipIdx, helement]
    simp
  obtain ⟨hlt, -⟩ := List.getElem?_eq_some_iff.mp helement
  obtain ⟨hlong, -⟩ := List.getElem?_eq_some_iff.mp hfield
  obtain ⟨hthis, hnext⟩ := getD_pointers_some hfield
  have hclean := clean_lineFields hextra _ (List.mem_of_getElem? hfield)
  rw [overviewSplit_build number article hextra, overviewGetStandardHeader, hthis, hnext,
    member_field hclean, if_neg]
  rw [pointers_length]
  omega

theorem tolower_colon {c : UInt8} : NameOctet c → tolower c ≠ 58 :=
  Inn.Wildmat.forall_octet (P := fun c => NameOctet c → tolower c ≠ 58) (by decide +kernel) c

theorem labelled_iff (hname : HeaderName name) (hheader : HeaderName header) (rest : Octets) :
    (startsWith (name ++ 58 :: 32 :: rest) header &&
      (name ++ 58 :: 32 :: rest).getD header.length 0 = 58 &&
      (name ++ 58 :: 32 :: rest).getD (header.length + 1) 0 = 32) = sameName name header := by
  have hstep (a b : UInt8) (p header : Octets) :
      (startsWith (a :: p) (b :: header) && (a :: p).getD (b :: header).length 0 = 58 &&
        (a :: p).getD ((b :: header).length + 1) 0 = 32) =
      (decide (tolower a = tolower b) &&
        (startsWith p header && p.getD header.length 0 =
          58 && p.getD (header.length + 1) 0 = 32)) := by
    simp [startsWith, sameName, Bool.and_assoc]
  induction name generalizing header with
  | nil =>
    cases header with
    | nil => rfl
    | cons b header =>
      have hcolon : tolower 58 ≠ tolower b :=
        fun h => tolower_colon (hheader b List.mem_cons_self) h.symm
      rw [List.nil_append, hstep, decide_eq_false hcolon]
      rfl
  | cons a name ih =>
    obtain ⟨ha, hname⟩ := forall_mem_cons.mp hname
    cases header with
    | nil =>
      have hcolon : a ≠ 58 := ha.2
      simp [startsWith, sameName, hcolon]
    | cons b header =>
      rw [cons_append, hstep, ih hname fun c hc => hheader c (List.mem_cons_of_mem _ hc)]
      simp [sameName]

theorem extraMember_field {article : Octets} (hname : HeaderName name) (hheader : HeaderName header)
    (fs : List Octets) :
    extraMember header (extraField article name ++ tabbed fs) ((pointers fs).headD []) =
      if sameName name header then some (buildHeader article name) else none := by
  have hlabel := labelled_iff hname hheader (buildHeader article name ++ tabbed fs)
  have happend : extraField article name ++ tabbed fs =
      name ++ 58 :: 32 :: (buildHeader article name ++ tabbed fs) := by
    rw [extraField, append_assoc]
    rfl
  rw [extraMember, happend, hlabel]
  split
  next hsame =>
    have hdrop :
        (name ++ 58 :: 32 :: (buildHeader article name ++ tabbed fs)).drop (header.length + 2) =
        buildHeader article name ++ tabbed fs := by
      rw [← sameName_length hsame, List.drop_length_add_append]
      rfl
    rw [hdrop, member_field (clean_buildHeader article name)]
  · rfl

theorem findSome?_of_forall {ι α : Type} {g : ι → Option α} {a : α} {l : List ι}
    (hall : ∀ i ∈ l, g i = none ∨ g i = some a)
    (hsome : ∃ i ∈ l, g i = some a) : l.findSome? g = some a := by
  induction l with
  | nil => obtain ⟨i, hi, -⟩ := hsome; cases hi
  | cons i l ih =>
    obtain ⟨hi, hall⟩ := forall_mem_cons.mp hall
    rw [List.findSome?_cons]
    obtain hi | hi := hi
    · rw [hi]
      obtain ⟨j, hj, hfound⟩ := hsome
      obtain rfl | hj := List.mem_cons.mp hj
      · rw [hi] at hfound
        cases hfound
      · exact ih hall ⟨j, hj, hfound⟩
    · rw [hi]

theorem extra_places (article : Octets) (extra : List Octets) :
    ((List.range (pointers (lineFields article extra)).length).drop fields.length).dropLast =
      (List.range extra.length).map (fields.length + ·) := by
  have hlength : (lineFields article extra).length = fields.length + extra.length := by
    simp [lineFields]
  rw [pointers_length, hlength, Nat.add_assoc, List.range_add, List.drop_left' (List.length_range),
    List.range_succ,
    List.map_append, List.map_singleton, List.dropLast_concat]

theorem overviewGetExtraHeader_build (number : UInt64) (article : Octets) {extra : List Octets}
    (hextra : ∀ name ∈ extra, HeaderName name) (hheader : header ∈ extra) :
    overviewGetExtraHeader (overviewSplit (overviewBuild number article extra)) header =
      some (buildHeader article header) := by
  have hplace {i : Nat} {name : Octets} (hi : extra[i]? = some name) :
      extraMember header ((pointers (lineFields article extra)).getD (fields.length + i) [])
          ((pointers (lineFields article extra)).getD (fields.length + i + 1) []) =
        if sameName name header then some (buildHeader article header) else none := by
    have hfield :
        (lineFields article extra)[fields.length + i]? = some (extraField article name) := by
      rw [lineFields, List.getElem?_append_right (by simp), List.getElem?_map]
      simp [hi]
    obtain ⟨hthis, hnext⟩ := getD_pointers_some hfield
    rw [hthis, hnext, extraMember_field (hextra name (List.mem_of_getElem? hi))
      (hextra header hheader)]
    exact ite_congr rfl (fun hsame => congrArg some (buildHeader_same hsame article)) fun _ => rfl
  rw [overviewSplit_build number article hextra, overviewGetExtraHeader, extra_places,
    List.findSome?_map]
  refine findSome?_of_forall (fun i hi => ?_) ?_
  · obtain ⟨name, hi⟩ : ∃ name, extra[i]? = some name :=
      ⟨_, List.getElem?_eq_getElem (List.mem_range.mp hi)⟩
    rw [Function.comp, hplace hi]
    split
    · exact .inr rfl
    · exact .inl rfl
  · obtain ⟨i, hi, rfl⟩ := List.mem_iff_getElem.mp hheader
    exact ⟨i, List.mem_range.mpr hi,
      by rw [Function.comp, hplace (List.getElem?_eq_getElem hi), if_pos (by simp [sameName])]⟩

end Splitting

theorem fields_names : ∀ header ∈ fields, HeaderName header := by decide

/-- For every article in wire format the line that is built passes its check, and the fields that
are read back from it are the values of the headers; Bytes is the length of the article. -/
theorem overview_round_trip (number : UInt64) (article : Octets) (extra : List Octets)
    (hwire : WireFormat article) (hextra : ∀ name ∈ extra, HeaderName name) :
    overviewCheck (overviewBuild number article extra) number = true ∧
      (∀ element header, fields[element]? = some header → header ≠ octets "Bytes" →
        Regular article header →
        overviewGetStandardHeader (overviewSplit (overviewBuild number article extra)) element =
          some (overviewValue article header)) ∧
      overviewGetStandardHeader (overviewSplit (overviewBuild number article extra)) 5 =
        some (decimal article.length) ∧
      ∀ header ∈ extra, Regular article header →
        overviewGetExtraHeader (overviewSplit (overviewBuild number article extra)) header =
          some (overviewValue article header) := by
  refine ⟨overviewCheck_build number article hextra,
    fun element header helement hbytes hregular => ?_, ?_, ?_⟩
  · have hname := fields_names header (List.mem_of_getElem? helement)
    rw [overviewGetStandardHeader_build number article hextra helement, standardField, if_neg,
      buildHeader_eq hwire hname hregular]
    rintro rfl
    exact hbytes (Option.some.inj helement).symm
  · have hbytes : fields[5]? = some (octets "Bytes") := rfl
    exact overviewGetStandardHeader_build number article hextra hbytes
  · intro header hheader hregular
    rw [overviewGetExtraHeader_build number article hextra hheader,
      buildHeader_eq hwire (hextra header hheader) hregular]

def foldedSubject : Octets := octets "Subject: a\r\n b\r\nXref: c\r\n\r\n"

theorem overview_round_trip_folded :
    overviewCheck (overviewBuild 7 foldedSubject [octets "Xref"]) 7 = true ∧
      overviewGetStandardHeader (overviewSplit (overviewBuild 7 foldedSubject [octets "Xref"])) 0 =
        some (octets "a b") ∧
      overviewGetExtraHeader (overviewSplit (overviewBuild 7 foldedSubject [octets "Xref"]))
        (octets "Xref") =
        some (octets "c") := by
  have hround := overview_round_trip 7 foldedSubject [octets "Xref"] (.inr (by decide)) (by decide)
  have hsubject := hround.2.1 0 (octets "Subject") rfl (by decide) ⟨by decide, by decide⟩
  have hxref := hround.2.2.2 (octets "Xref") List.mem_cons_self ⟨by decide, by decide⟩
  exact ⟨hround.1, hsubject, hxref⟩

/-- Bytes is not read from a header. -/
theorem not_header_values : ¬∀ (number : UInt64) (article : Octets), WireFormat article →
    ∀ element header, fields[element]? = some header →
      overviewGetStandardHeader (overviewSplit (overviewBuild number article [])) element =
        some (overviewValue article header) := by
  intro hvalues
  have hbytes := hvalues 7 foldedSubject (.inr (by decide)) 5 (octets "Bytes") rfl
  revert hbytes
  decide

end Inn.Storage.Overdata
