import Inn.Storage.Overdata
import Inn.Wildmat.Utf8

/-!
# From the headers to the overview data

The headers of an article are its lines up to the first empty one, each with the lines that go on
from it. What goes into the overview data is the value of the header, unfolded, and without the
octets that would end a field.
-/

namespace Inn.Storage.Overdata

open Inn.Foundation.Terminated
open Inn.Lib.WireText
open List (length_cons length_append forall_mem_cons append_assoc)
open Option (map_some getD_some)

def NameOctet (c : UInt8) : Prop := isgraph c = true ∧ c ≠ 58

instance (c : UInt8) : Decidable (NameOctet c) := inferInstanceAs (Decidable (_ ∧ _))

def HeaderName (header : Octets) : Prop := ∀ c ∈ header, NameOctet c

instance (header : Octets) : Decidable (HeaderName header) := List.decidableBAll NameOctet header

def WireFormat (article : Octets) : Prop := article = [] ∨ [CR, LF] <:+ article

def folded (line : Octets) : Bool := ISWHITE (line.headD 0)

def headers : List Octets → List (Octets × List Octets)
  | [] => []
  | line :: rest =>
    if line = [] then []
    else if folded line then headers rest
    else (line, rest.takeWhile folded) :: headers rest

def values (header : Octets) (lines : List Octets) : List (Octets × List Octets) :=
  (headers lines).filterMap fun found =>
    if isheader found.1 header then some (found.1.drop (header.length + 2), found.2) else none

def headerValue (article header : Octets) : Option Octets :=
  let found :=
    ((values header (lines CR LF article)).map fun value =>
      value.1 ++ value.2.flatten).filter (· ≠ [])
  if sameName header (octets "xref") then found.getLast? else found.head?

def overviewValue (article header : Octets) : Octets :=
    ((headerValue article header).getD []).map blank

section Lines

variable {line rest header : Octets}

theorem CR_ne_LF : CR ≠ LF := by decide

theorem wireNextline_line (hline : Unbroken CR LF line) (hrest : rest = [] ∨ 2 ≤ rest.length) :
    wireNextline (line ++ CR :: LF :: rest) = if rest = [] then none else some rest := by
  induction line with
  | nil =>
    rw [List.nil_append, wireNextline, length_cons]
    obtain rfl | hlong := hrest
    · rfl
    · rw [if_neg (by omega), if_pos ⟨rfl, rfl⟩, if_neg (by rintro rfl; simp at hlong)]
      rfl
  | cons c line ih =>
    have hnot : ¬(c = 13 ∧ (line ++ CR :: LF :: rest).headD 0 = 10) := by
      rintro ⟨hc, hnext⟩
      refine hline.not_terminator CR_ne_LF (LF :: rest) ⟨hc, ?_⟩
      cases line with
      | nil => exact absurd hnext CR_ne_LF
      | cons d line => exact congrArg some hnext
    rw [List.cons_append, wireNextline, if_neg hnot, ih hline.2]
    split
    next hshort =>
      rw [length_append, length_cons, length_cons] at hshort
      rw [if_pos (hrest.resolve_right (by omega))]
    · rfl

theorem at_terminator_iff (hline : Unbroken CR LF line) :
    (line ++ CR :: LF :: rest).headD 0 = CR ∧ (line ++ CR :: LF :: rest).getD 1 0 = LF ↔
      line = [] := by
  match line with
  | [] => exact ⟨fun _ => rfl, fun _ => ⟨rfl, rfl⟩⟩
  | [c] => exact ⟨fun h => absurd h.2 CR_ne_LF, nofun⟩
  | c :: d :: line => exact ⟨fun h => absurd ⟨h.1, congrArg some h.2⟩ hline.1, nofun⟩

theorem has_contents_iff (hline : Unbroken CR LF line) :
    ((line ++ CR :: LF :: rest).length ≤ 1 ∨ (line ++ CR :: LF :: rest).headD 0 ≠ CR ∨
      (line ++ CR :: LF :: rest).getD 1 0 ≠ LF) ↔ line ≠ [] := by
  rw [← not_and_or, at_terminator_iff hline, or_iff_right]
  rw [length_append, length_cons, length_cons]
  omega

theorem text_length (ls : List Octets) : text CR LF ls = [] ∨ 2 ≤ (text CR LF ls).length := by
  cases ls with
  | nil => exact .inl rfl
  | cons line ls =>
    refine .inr (Nat.le_trans ?_ (length_le_text _))
    rw [length_cons]
    omega

theorem text_eq_nil_iff (ls : List Octets) : text CR LF ls = [] ↔ ls = [] := by
  cases ls with
  | nil => simp [text_nil]
  | cons line ls => simp [text_cons]

theorem wireNextline_text {ls : List Octets} (hline : Unbroken CR LF line) :
    wireNextline (text CR LF (line :: ls)) = if ls = [] then none else some (text CR LF ls) := by
  rw [text_cons, wireNextline_line hline (text_length ls)]
  exact if_congr (text_eq_nil_iff ls) rfl rfl

theorem tolower_name {b : UInt8} : NameOctet b → tolower b ≠ 32 ∧ tolower b ≠ 9 ∧ tolower b ≠ 13 :=
  Inn.Wildmat.forall_octet (P := fun b => NameOctet b → tolower b ≠ 32 ∧ tolower b ≠ 9 ∧
    tolower b ≠ 13)
    (by decide +kernel) b

theorem isheader_cons (a b : UInt8) : isheader (a :: line) (b :: header) =
    (decide (tolower a = tolower b) && isheader line header) := by
  simp [isheader, startsWith, sameName, Bool.and_left_comm]

theorem isheader_line (hheader : HeaderName header) :
    isheader (line ++ CR :: rest) header = isheader line header := by
  induction header generalizing line with
  | nil =>
    match line with
    | [] => rfl
    | [c] => simp [isheader, show ISWHITE CR = false from rfl, show ISWHITE 0 = false from rfl]
    | c :: d :: line => rfl
  | cons b header ih =>
    obtain ⟨hb, hheader⟩ := forall_mem_cons.mp hheader
    cases line with
    | nil =>
      have hcr : tolower CR ≠ tolower b := fun h => (tolower_name hb).2.2 h.symm
      rw [List.nil_append, isheader_cons, decide_eq_false hcr]
      rfl
    | cons a line => rw [List.cons_append, isheader_cons, isheader_cons, ih hheader]

theorem isheader_length (hfound : isheader line header) : header.length + 2 ≤ line.length := by
  rw [isheader, Bool.and_eq_true, Bool.and_eq_true] at hfound
  by_contra hshort
  have hbeyond : line.getD (header.length + 1) 0 = 0 := by
    rw [List.getD_eq_getElem?_getD, List.getElem?_eq_none (by omega)]
    rfl
  rw [hbeyond] at hfound
  exact absurd hfound.1.2 (by decide)

theorem not_folded (hheader : HeaderName header) (hfound : isheader line header) :
    folded line = false := by
  cases line with
  | nil => rfl
  | cons a line =>
    cases header with
    | nil =>
      rw [isheader, Bool.and_eq_true, Bool.and_eq_true, decide_eq_true_eq] at hfound
      have ha : a = 58 := hfound.1.1
      rw [ha]
      rfl
    | cons b header =>
      rw [isheader_cons, Bool.and_eq_true, decide_eq_true_eq] at hfound
      obtain ⟨hspace, htab, -⟩ := tolower_name (hheader b List.mem_cons_self)
      rw [← hfound.1] at hspace htab
      rw [folded, List.headD_cons, ISWHITE, Bool.or_eq_false_iff, decide_eq_false_iff_not,
        decide_eq_false_iff_not]
      exact ⟨fun h => hspace (by rw [h]; rfl), fun h => htab (by rw [h]; rfl)⟩

end Lines

section Scanners

variable {header line : Octets} {ls : List Octets}

def found (header : Octets) : List Octets → Option (List Octets)
  | [] => none
  | line :: rest =>
    if line = [] then none
    else if isheader line header ∧ line.drop (header.length + 2) ≠ [] then
      some (line.drop (header.length + 2) :: rest)
    else found header rest

theorem found_length {from_ : List Octets} (hfound : found header ls = some from_) :
    header.length + 3 < (text CR LF ls).length := by
  induction ls with
  | nil => cases hfound
  | cons line rest ih =>
    rw [text_cons, length_append, length_cons, length_cons]
    rw [found] at hfound
    split at hfound
    · cases hfound
    · split at hfound
      next hhere =>
        have hlong := isheader_length hhere.1
        omega
      · have hrest := ih hfound
        omega

theorem wireFindheader_text (hheader : HeaderName header)
    (hls : ∀ line ∈ ls, Unbroken CR LF line) {bound : Nat} (hbound : ls.length < bound) :
    wireFindheader header false bound (text CR LF ls) = (found header ls).map (text CR LF) := by
  induction bound generalizing ls with
  | zero => exact absurd hbound (Nat.not_lt_zero _)
  | succ bound ih =>
    rw [wireFindheader]
    split
    next hshort =>
      cases hfound : found header ls with
      | none => rfl
      | some from_ => exact absurd (found_length hfound) (Nat.not_lt.mpr hshort)
    next hlong =>
      cases ls with
      | nil => exact absurd (Nat.zero_le _) hlong
      | cons line rest =>
        obtain ⟨hline, hrest⟩ := forall_mem_cons.mp hls
        have hnext (line' : Octets) (hline' : Unbroken CR LF line') :
            (wireNextline (text CR LF (line' :: rest))).bind (wireFindheader header false bound) =
              (found header rest).map (text CR LF) := by
          rw [wireNextline_text hline']
          split
          next hempty => rw [hempty]; rfl
          · exact ih hrest (Nat.lt_of_succ_lt_succ hbound)
        have hvalue := hline.drop (header.length + 2)
        rw [text_cons, isheader_line hheader, if_congr (at_terminator_iff hline) rfl rfl, found]
        split
        · rfl
        · by_cases hfound : isheader line header
          · rw [if_pos hfound, List.drop_append_of_le_length (isheader_length hfound)]
            dsimp only
            rw [if_neg (by simp)]
            dsimp only
            rw [if_congr (has_contents_iff hvalue) rfl rfl]
            by_cases hcontents : line.drop (header.length + 2) = []
            · rw [if_neg (not_not.mpr hcontents), if_neg (fun h => h.2 hcontents), ← text_cons,
                hnext _ hvalue]
            · rw [if_pos hcontents, if_pos ⟨hfound, hcontents⟩, map_some, text_cons]
          · rw [if_neg hfound, if_neg (fun h => hfound h.1), ← text_cons, hnext _ hline]

theorem wireEndheader_text {bound : Nat} (hline : Unbroken CR LF line)
    (hls : ∀ line ∈ ls, Unbroken CR LF line) (hbound : ls.length < bound) (before : Octets) :
    wireEndheader (before ++ text CR LF (line :: ls)) bound (text CR LF (line :: ls)) =
      some (before ++ text CR LF (line :: ls.takeWhile folded)) := by
  induction ls generalizing bound line before with
  | nil =>
    obtain ⟨bound, rfl⟩ := Nat.exists_eq_succ_of_ne_zero (Nat.ne_zero_of_lt hbound)
    rw [wireEndheader, wireNextline_text hline, if_pos rfl]
    dsimp only
    rw [if_pos]
    · rfl
    · rw [text_cons, text_nil, ← append_assoc, length_append, length_cons, length_cons,
        List.length_nil, Nat.add_sub_cancel, List.drop_left]
      rfl
  | cons next ls ih =>
    obtain ⟨hnext, hls⟩ := forall_mem_cons.mp hls
    obtain ⟨bound, rfl⟩ := Nat.exists_eq_succ_of_ne_zero (Nat.ne_zero_of_lt hbound)
    have hhead : ISWHITE ((text CR LF (next :: ls)).headD 0) = folded next := by
      rw [text_cons]
      cases next <;> rfl
    have hmore : before ++ text CR LF (line :: next :: ls) =
        (before ++ text CR LF [line]) ++ text CR LF (next :: ls) := by
      rw [text_cons, text_cons line [], text_nil, append_assoc, append_assoc]
      rfl
    rw [wireEndheader, wireNextline_text hline, if_neg (List.cons_ne_nil _ _)]
    dsimp only
    rw [hhead]
    cases hfolded : folded next with
    | true =>
      rw [if_pos rfl, hmore, ih hnext hls (Nat.lt_of_succ_lt_succ hbound),
        List.takeWhile_cons_of_pos hfolded]
      rw [text_cons line (next :: _), text_cons line [], text_nil, append_assoc, append_assoc]
      rfl
    | false =>
      rw [if_neg Bool.false_ne_true, hmore, length_append, Nat.add_sub_cancel, List.take_left,
        List.takeWhile_cons_of_neg (by simp [hfolded])]

theorem copyHeader_text (hls : ∀ line ∈ ls, Unbroken CR LF line) :
    copyHeader (text CR LF ls) = ls.flatten.map blank := by
  induction ls with
  | nil => rfl
  | cons line ls ih =>
    rw [forall_mem_cons] at hls
    obtain ⟨hline, hls⟩ := hls
    rw [text_cons, List.flatten_cons, List.map_append, ← ih hls]
    induction line with
    | nil => exact if_pos ⟨rfl, rfl⟩
    | cons c line ihl =>
      obtain ⟨d, rest, hrest⟩ : ∃ d rest, line ++ CR :: LF :: text CR LF ls = d :: rest := by
        cases line <;> exact ⟨_, _, rfl⟩
      have hnot : ¬(c = CR ∧ d = LF) := by
        rintro ⟨hc, hd⟩
        exact hline.not_terminator CR_ne_LF _ ⟨hc, by rw [hrest, hd]; rfl⟩
      rw [List.cons_append, hrest, copyHeader, if_neg hnot, ← hrest, ihl hline.2]
      rfl

end Scanners

section Contents

variable {header line : Octets} {ls : List Octets}

def contents (header : Octets) (ls : List Octets) : List (Octets × List Octets) :=
  (values header ls).filter (·.1 ≠ [])

theorem contents_header (hheader : HeaderName header) (hfound : isheader line header)
    (hcontents : line.drop (header.length + 2) ≠ []) (ls : List Octets) :
    contents header (line :: ls) = (line.drop (header.length + 2), ls.takeWhile folded) ::
      contents header ls := by
  have hne : line ≠ [] := by
    rintro rfl
    exact hcontents List.drop_nil
  rw [contents, values, headers, if_neg hne, not_folded hheader hfound, if_neg Bool.false_ne_true,
    List.filterMap_cons_some (by rw [if_pos hfound]),
      List.filter_cons_of_pos (by simpa using hcontents)]
  rfl

theorem contents_other (hne : line ≠ [])
    (hother : isheader line header → line.drop (header.length + 2) = [])
    (ls : List Octets) : contents header (line :: ls) = contents header ls := by
  rw [contents, values, headers, if_neg hne]
  split
  · rfl
  · by_cases hfound : isheader line header
    · rw [List.filterMap_cons_some (by rw [if_pos hfound]),
        List.filter_cons_of_neg (by simpa using hother hfound)]
      rfl
    · rw [List.filterMap_cons_none (by rw [if_neg hfound])]
      rfl

theorem contents_dropWhile (hheader : HeaderName header) (ls : List Octets) :
    contents header (ls.dropWhile folded) = contents header ls := by
  induction ls with
  | nil => rfl
  | cons line ls ih =>
    cases hfolded : folded line with
    | false => rw [List.dropWhile_cons_of_neg (by simp [hfolded])]
    | true =>
      have hne : line ≠ [] := by
        rintro rfl
        cases hfolded
      rw [List.dropWhile_cons_of_pos hfolded, ih, contents_other hne]
      intro hfound
      rw [not_folded hheader hfound] at hfolded
      cases hfolded

theorem found_cases (hheader : HeaderName header) (hls : ∀ line ∈ ls, Unbroken CR LF line) :
    (found header ls = none ∧ contents header ls = []) ∨
      ∃ value rest, found header ls = some (value :: rest) ∧ value ≠ [] ∧ Unbroken CR LF value ∧
        (∀ line ∈ rest, Unbroken CR LF line) ∧ rest.length < ls.length ∧
        contents header ls = (value, rest.takeWhile folded) :: contents header rest := by
  induction ls with
  | nil => exact .inl ⟨rfl, rfl⟩
  | cons line ls ih =>
    obtain ⟨hline, hrest⟩ := forall_mem_cons.mp hls
    rw [found]
    split
    next hempty => exact .inl ⟨rfl, by rw [hempty]; rfl⟩
    next hne =>
      split
      next hfound =>
        exact .inr ⟨_, ls, rfl, hfound.2, hline.drop _, hrest, Nat.lt_succ_self _,
          contents_header hheader hfound.1 hfound.2 ls⟩
      next hfound =>
        have hother : contents header (line :: ls) = contents header ls := by
          refine contents_other hne (fun h => ?_) ls
          by_contra hcontents
          exact hfound ⟨h, hcontents⟩
        rw [hother]
        obtain hnone | ⟨value, rest, hsome, hvalue, hunbroken, hmore, hshort, hcontents⟩ := ih hrest
        · exact .inl hnone
        · exact .inr ⟨value, rest, hsome, hvalue, hunbroken, hmore,
            Nat.lt_succ_of_lt hshort, hcontents⟩

theorem wireFindheader_whole (hheader : HeaderName header)
    (hls : ∀ line ∈ ls, Unbroken CR LF line) :
    wireFindheader header false (text CR LF ls).length (text CR LF ls) =
      (found header ls).map (text CR LF) := by
  cases ls with
  | nil => rfl
  | cons line ls =>
    refine wireFindheader_text hheader hls ?_
    have hlength := @length_le_text _ CR LF (line :: ls)
    rw [length_cons] at hlength ⊢
    omega

def valueText (value : Octets × List Octets) : Octets := text CR LF (value.1 :: value.2)

theorem wireEndheader_found (hline : Unbroken CR LF line) (hls : ∀ line ∈ ls, Unbroken CR LF line) :
    wireEndheader (text CR LF (line :: ls)) (text CR LF (line :: ls)).length
      (text CR LF (line :: ls)) =
      some (valueText (line, ls.takeWhile folded)) := by
  have hbound : ls.length < (text CR LF (line :: ls)).length := by
    have hlength := @length_le_text _ CR LF (line :: ls)
    rw [length_cons] at hlength
    omega
  exact wireEndheader_text hline hls hbound []

theorem lastHeader_text (hheader : HeaderName header) {bound : Nat}
    (hls : ∀ line ∈ ls, Unbroken CR LF line)
    (hapart : ∀ value ∈ contents header ls, isheader value.1 header = false)
    (hbound : (contents header ls).length < bound) (value : Octets × List Octets) :
    lastHeader header bound (text CR LF ls) (valueText value) =
      some (valueText ((contents header ls).getLast?.getD value)) := by
  induction bound generalizing ls value with
  | zero => exact absurd hbound (Nat.not_lt_zero _)
  | succ bound ih =>
    rw [lastHeader, wireFindheader_whole hheader hls]
    obtain ⟨hnone, hcontents⟩ | ⟨data, rest, hsome, hdata, hunbroken, hrest, -, hcontents⟩ :=
      found_cases hheader hls
    · rw [hnone, hcontents]
      rfl
    · rw [hcontents, length_cons] at hbound
      rw [hcontents, forall_mem_cons] at hapart
      -- the search goes on from the value itself, which is not taken for a header
      have hother : contents header (data :: rest) = contents header rest := by
        refine contents_other hdata (fun h => ?_) rest
        rw [hapart.1] at h
        cases h
      have hnext := @ih (data :: rest) (forall_mem_cons.mpr ⟨hunbroken, hrest⟩) (hother ▸ hapart.2)
        (hother ▸ Nat.lt_of_succ_lt_succ hbound) (data, rest.takeWhile folded)
      rw [hsome, map_some]
      dsimp only
      rw [wireEndheader_found hunbroken hrest, Option.bind_some, hnext, hother, hcontents,
        List.getLast?_cons,
        getD_some]

structure Regular (article header : Octets) : Prop where
  started : ∀ value ∈ values header (lines CR LF article), value.1 = [] → value.2 = []
  apart : sameName header (octets "xref") →
    ∀ value ∈ (contents header (lines CR LF article)).tail, isheader value.1 header = false

theorem headerValue_eq {article : Octets} (hregular : Regular article header) :
    headerValue article header =
      if sameName header (octets "xref") then
        ((contents header (lines CR LF article)).map fun value =>
          value.1 ++ value.2.flatten).getLast?
      else ((contents header (lines CR LF article)).map fun value =>
        value.1 ++ value.2.flatten).head? := by
  have hfilter :
      ((values header (lines CR LF article)).map fun value =>
        value.1 ++ value.2.flatten).filter (· ≠ []) =
      (contents header (lines CR LF article)).map fun value => value.1 ++ value.2.flatten := by
    rw [List.filter_map, contents]
    refine congrArg (List.map _) (List.filter_congr fun value hvalue => ?_)
    have hstarted := hregular.started value hvalue
    by_cases hempty : value.1 = []
    · simp [hempty, hstarted hempty]
    · simp [hempty]
  rw [headerValue, hfilter]

theorem mem_headers {entry : Octets × List Octets} (hentry : entry ∈ headers ls) :
    entry.1 ∈ ls ∧ ∀ line ∈ entry.2, line ∈ ls := by
  induction ls with
  | nil => cases hentry
  | cons line ls ih =>
    have hmore (hentry : entry ∈ headers ls) :
        entry.1 ∈ line :: ls ∧ ∀ l ∈ entry.2, l ∈ line :: ls :=
      ⟨List.mem_cons_of_mem _ (ih hentry).1,
        fun l hl => List.mem_cons_of_mem _ ((ih hentry).2 l hl)⟩
    rw [headers] at hentry
    split at hentry
    · cases hentry
    · split at hentry
      · exact hmore hentry
      · obtain rfl | hentry := List.mem_cons.mp hentry
        · exact ⟨List.mem_cons_self,
            fun l hl => List.mem_cons_of_mem _ ((List.takeWhile_sublist _).mem hl)⟩
        · exact hmore hentry

theorem unbroken_of_mem_contents (hls : ∀ line ∈ ls, Unbroken CR LF line)
    {value : Octets × List Octets}
    (hvalue : value ∈ contents header ls) : ∀ line ∈ value.1 :: value.2, Unbroken CR LF line := by
  obtain ⟨entry, hentry, hmapped⟩ := List.mem_filterMap.mp (List.mem_filter.mp hvalue).1
  obtain ⟨hfirst, hfolds⟩ := mem_headers hentry
  split at hmapped
  · cases hmapped
    exact forall_mem_cons.mpr ⟨(hls _ hfirst).drop _,
      fun line hline => hls line (hfolds line hline)⟩
  · cases hmapped

theorem headers_length_le (ls : List Octets) : (headers ls).length ≤ ls.length := by
  induction ls with
  | nil => exact Nat.le_refl 0
  | cons line ls ih =>
    rw [headers]
    split
    · exact Nat.zero_le _
    · split
      · exact Nat.le_succ_of_le ih
      · exact Nat.succ_le_succ ih

theorem contents_length_le (ls : List Octets) :
    (contents header ls).length ≤ (text CR LF ls).length := by
  have hvalues : (values header ls).length ≤ (headers ls).length := List.length_filterMap_le ..
  have hcontents : (contents header ls).length ≤ (values header ls).length :=
    List.length_filter_le ..
  have htext := @length_le_text _ CR LF ls
  have hheaders := headers_length_le ls
  omega

theorem buildHeader_eq {article : Octets} (hwire : WireFormat article) (hheader : HeaderName header)
    (hregular : Regular article header) :
    buildHeader article header = overviewValue article header := by
  have htext : text CR LF (lines CR LF article) = article := text_lines CR_ne_LF hwire
  have hls : ∀ line ∈ lines CR LF article, Unbroken CR LF line :=
    fun line hline => unbroken_of_mem_lines hline
  have hfound := @wireFindheader_whole header _ hheader hls
  have hlength := @contents_length_le header (lines CR LF article)
  have hcopy (value : Octets × List Octets)
      (hvalue : value ∈ contents header (lines CR LF article)) :
      copyHeader (valueText value) = (value.1 ++ value.2.flatten).map blank :=
    copyHeader_text (unbroken_of_mem_contents hls hvalue)
  have hapart := hregular.apart
  rw [htext] at hfound hlength
  rw [overviewValue, headerValue_eq hregular, buildHeader, hfound]
  obtain ⟨hnone, hcontents⟩ | ⟨data, rest, hsome, hdata, hunbroken, hrest, -, hcontents⟩ :=
    found_cases hheader hls
  · rw [hnone, hcontents]
    split <;> rfl
  · have hsplit : text CR LF (data :: rest) =
        valueText (data, rest.takeWhile folded) ++ text CR LF (rest.dropWhile folded) := by
      rw [valueText, ← text_append, List.cons_append, List.takeWhile_append_dropWhile]
    rw [hcontents] at hcopy hapart hlength
    have hdropped := contents_dropWhile hheader rest
    rw [hsome, hcontents]
    simp only [map_some, Option.bind_eq_bind, Option.bind_some, wireEndheader_found hunbroken hrest]
    split
    next hxref =>
      have hlast := @lastHeader_text header (rest.dropWhile folded) hheader (article.length + 1)
        (fun line hline => hrest line ((List.dropWhile_sublist _).mem hline))
          (hdropped ▸ hapart hxref)
        (by rw [hdropped]; rw [length_cons] at hlength; omega) (data, rest.takeWhile folded)
      rw [hsplit, List.drop_left, hlast, hdropped, map_some, getD_some, List.getLast?_map,
        List.getLast?_cons, map_some, getD_some]
      refine hcopy _ ?_
      cases hmore : (contents header rest).getLast? with
      | none => exact List.mem_cons_self
      | some value => exact List.mem_cons_of_mem _ (List.mem_of_getLast? hmore)
    · rw [map_some, getD_some, List.map_cons, List.head?_cons, getD_some]
      exact hcopy _ List.mem_cons_self

end Contents

end Inn.Storage.Overdata
