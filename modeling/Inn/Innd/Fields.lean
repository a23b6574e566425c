import Inn.Innd.Receive

/-!
# The header fields of an article

What the parser knows of an article once it is through with it, if nothing is
wrong: the header is a sequence of fields up to an empty line, and the table of
system headers says where the values of the fields are.
-/

namespace Inn.Innd

open Foundation.Scanning Relation
open List (flatten_cons append_assoc)

def fieldHeader (field : Octets) : Option Nat :=
  (field.findIdx? (· = 58)).bind fun colon => systemHeader (field.take colon)

def fieldValue (xrefslave : Bool) (i : Nat) (field : Octets) : Nat × Nat :=
  headerValue xrefslave i ((field.findIdx? (· = 58)).getD 0) field

/-- A field with a name, a blank behind its colon, and proper folds. -/
structure HeaderField (field : Octets) : Prop where
  starts : slice field 0 2 ≠ [CR, LF]
  name : ∃ colon, field.findIdx? (· = 58) = some colon ∧ field[colon + 1]?.any ISWHITE
  ends : ∃ stem, field = stem ++ [CR, LF]
  folded : ∀ k, slice field k 2 = [CR, LF] → k + 2 < field.length → field[k + 2]?.any ISWHITE

theorem headerField_iff {field : Octets} : HeaderField field ↔
    slice field 0 2 ≠ [CR, LF] ∧
      ((field.findIdx? (· = 58)).any fun colon => field[colon + 1]?.any ISWHITE) ∧
      field.take (field.length - 2) ++ [CR, LF] = field ∧
      ∀ k < field.length, slice field k 2 = [CR, LF] → k + 2 < field.length →
        field[k + 2]?.any ISWHITE := by
  constructor
  · rintro ⟨hstarts, ⟨colon, hcolon, hwhite⟩, ⟨stem, hstem⟩, hfolded⟩
    refine ⟨hstarts, by rw [hcolon]; exact hwhite, ?_, fun k _ => hfolded k⟩
    rw [hstem]
    simp
  · rintro ⟨hstarts, hname, hends, hfolded⟩
    obtain ⟨colon, hcolon, hwhite⟩ := Option.any_eq_true _ _ |>.mp hname
    exact ⟨hstarts, ⟨colon, hcolon, hwhite⟩, ⟨_, hends.symm⟩,
      fun k hk hless => hfolded k (by omega) hk hless⟩

instance : DecidablePred HeaderField := fun _ => decidable_of_iff' _ headerField_iff

structure HeaderFields (fields : List Octets) : Prop where
  each : ∀ field ∈ fields, HeaderField field
  tail : ∀ field ∈ fields.tail, field[0]?.any ISWHITE = false

def placed : Nat → List Octets → List (Nat × Octets)
  | _, [] => []
  | position, field :: rest => (position, field) :: placed (position + field.length) rest

def named (i : Nat) (fields : List (Nat × Octets)) : List (Nat × Octets) :=
  fields.filter fun field => fieldHeader field.2 = some i

def enter (xrefslave : Bool) (i : Nat) (hc : HDRCONTENT) (field : Nat × Octets) : HDRCONTENT :=
  if hc.Length ≠ 0 then
    if ARTheaders[i]?.any fun hp => hp.type = .HTreq then { hc with Length := -1 } else hc
  else
    { Value := some (field.1 + (fieldValue xrefslave i field.2).1)
      Length := (fieldValue xrefslave i field.2).2 }

def contents (xrefslave : Bool) (fields : List (Nat × Octets)) (i : Nat) : HDRCONTENT :=
  (named i fields).foldl (enter xrefslave i) { Value := none, Length := 0 }

theorem placed_append (position : Nat) (fields more : List Octets) :
    placed position (fields ++ more) =
      placed position fields ++ placed (position + fields.flatten.length) more := by
  induction fields generalizing position with
  | nil => rfl
  | cons field rest ih =>
    rw [List.cons_append, placed, placed, ih, flatten_cons, List.length_append, Nat.add_assoc]
    rfl

section Checking

variable {xrefslave : Bool} {cp : Channel} {field : Octets}

theorem ARTerror_Error (cp : Channel) (text : Octets) : (ARTerror cp text).Error ≠ [] := by
  rw [ARTerror]
  split
  · exact List.cons_ne_nil _ _
  · exact List.cons_ne_nil _ _

theorem recordHeader_eq (xrefslave : Bool) (cp : Channel) (i colon : Nat) (field : Octets) :
    (recordHeader xrefslave cp i colon field).Error = cp.Error ∧
      (recordHeader xrefslave cp i colon field).BytesHeader = cp.BytesHeader := by
  rw [recordHeader]
  split
  · split
    · exact ⟨rfl, rfl⟩
    · exact ⟨rfl, rfl⟩
  · exact ⟨rfl, rfl⟩

theorem ARTcheckheader_entered (hclean : (ARTcheckheader xrefslave cp field).Error = []) :
    cp.Error = [] ∧ (∃ colon, field.findIdx? (· = 58) = some colon ∧
      field[colon + 1]?.any ISWHITE) ∧
      (∀ i, (ARTcheckheader xrefslave cp field).HdrContent i =
        if fieldHeader field = some i then enter xrefslave i (cp.HdrContent i) (cp.CurHeader, field)
        else cp.HdrContent i) ∧
      (ARTcheckheader xrefslave cp field).BytesHeader =
        if fieldHeader field = some HDR_BYTES then some cp.CurHeader else cp.BytesHeader := by
  rw [ARTcheckheader] at hclean ⊢
  cases hcolon : field.findIdx? (· = 58) with
  | none =>
    rw [hcolon] at hclean
    exact absurd hclean (ARTerror_Error _ _)
  | some colon =>
    rw [hcolon] at hclean
    dsimp only at hclean ⊢
    by_cases hwhite : (field[colon + 1]?.any ISWHITE) = false
    · rw [if_pos hwhite] at hclean
      exact absurd hclean (ARTerror_Error _ _)
    rw [if_neg hwhite] at hclean ⊢
    have hwhite' : field[colon + 1]?.any ISWHITE := Bool.eq_true_of_not_eq_false hwhite
    have hheader : fieldHeader field = systemHeader (field.take colon) := by
      rw [fieldHeader, hcolon, Option.bind_some]
    rw [hheader]
    cases hsystem : systemHeader (field.take colon) with
    | none =>
      rw [hsystem] at hclean
      dsimp only at hclean ⊢
      split at hclean
      · exact ⟨hclean, ⟨colon, rfl, hwhite'⟩, fun i => rfl, rfl⟩
      · exact absurd hclean (ARTerror_Error _ _)
    | some i =>
      rw [hsystem] at hclean
      dsimp only at hclean ⊢
      have hnoted :
          (noteBytes i cp).Error = cp.Error ∧ (noteBytes i cp).HdrContent = cp.HdrContent ∧
          (noteBytes i cp).CurHeader = cp.CurHeader ∧
          (noteBytes i cp).BytesHeader =
            if i = HDR_BYTES then some cp.CurHeader else cp.BytesHeader := by
        rw [noteBytes]
        split
        · exact ⟨rfl, rfl, rfl, rfl⟩
        · exact ⟨rfl, rfl, rfl, rfl⟩
      obtain ⟨herror, hcontent, hcurrent, hbytes⟩ := hnoted
      obtain ⟨herror', hbytes'⟩ := recordHeader_eq xrefslave (noteBytes i cp) i colon field
      refine ⟨herror.symm.trans (herror'.symm.trans hclean), ⟨colon, rfl, hwhite'⟩, fun j => ?_, ?_⟩
      · rw [recordHeader, hcontent, hcurrent, enter, fieldValue, hcolon, Option.getD_some]
        by_cases hj : i = j
        · subst hj
          rw [if_pos rfl]
          split
          · split
            · exact Function.update_self ..
            · rw [hcontent]
          · exact Function.update_self ..
        · rw [if_neg fun heq => hj (Option.some.inj heq)]
          have hne := fun heq : j = i => hj heq.symm
          split
          · split
            · exact (Function.update_of_ne hne ..).trans (congrFun hcontent j)
            · rw [hcontent]
          · exact (Function.update_of_ne hne ..).trans (congrFun hcontent j)
      · rw [hbytes', hbytes]
        simp only [Option.some.injEq]

end Checking

section Turns

variable {xrefslave : Bool} {data : Octets} {cp cp' : Channel}

structure Undisturbed (cp cp' : Channel) : Prop where
  Error : cp'.Error = [] → cp.Error = []
  Start : cp'.Start = cp.Start
  CurHeader : cp'.CurHeader = cp.CurHeader
  HdrContent : cp'.HdrContent = cp.HdrContent
  BytesHeader : cp'.BytesHeader = cp.BytesHeader

theorem undisturbed_noteOctet (place : String) (c : UInt8) (cp : Channel) (state : ChannelState)
    (next : Nat) :
    Undisturbed cp ((noteOctet place c cp).advance state next) := by
  rw [noteOctet]
  by_cases hnul : c = 0
  · have herror : ∀ text, (ARTerror cp text).Error = [] → cp.Error = [] := fun text hclean =>
      absurd hclean (ARTerror_Error _ _)
    rw [if_pos hnul]
    split
    · exact ⟨herror _, rfl, rfl, rfl, rfl⟩
    · exact ⟨herror _, rfl, rfl, rfl, rfl⟩
  · rw [if_neg hnul]
    split
    · exact ⟨fun hclean => hclean, rfl, rfl, rfl, rfl⟩
    · exact ⟨fun hclean => hclean, rfl, rfl, rfl, rfl⟩

inductive CleanTurn (xrefslave : Bool) (data : Octets) (cp cp' : Channel) : Prop
  | octet : slice data cp.Next 2 ≠ [CR, LF] → Undisturbed cp cp' → cp'.State = .CSgetheader →
      cp'.Next = cp.Next + 1 → CleanTurn xrefslave data cp cp'
  | folded : cp.Next ≠ cp.Start → slice data cp.Next 2 = [CR, LF] → data[cp.Next + 2]?.any ISWHITE →
      Undisturbed cp cp' →
      cp'.State = .CSgetheader → cp'.Next = cp.Next + 3 → CleanTurn xrefslave data cp cp'
  | field : cp.Next ≠ cp.Start → slice data cp.Next 2 = [CR, LF] →
      (data[cp.Next + 2]?.any ISWHITE) = false → cp'.Start = cp.Start →
      (∃ checked, checked = ARTcheckheader xrefslave { cp with HeaderLines := cp.HeaderLines + 1 }
          (slice data cp.CurHeader (cp.Next + 2 - cp.CurHeader)) ∧
        cp'.Error = checked.Error ∧ cp'.HdrContent = checked.HdrContent ∧
          cp'.BytesHeader = checked.BytesHeader) →
      cp'.CurHeader = cp.Next + 2 →
      (slice data (cp.Next + 2) 2 = [CR, LF] ∧ cp'.State = .CSgetbody ∧ cp'.Next = cp.Next + 4 ∧
          cp'.Body = cp.Next + 4 ∨
        slice data (cp.Next + 2) 2 ≠ [CR, LF] ∧ cp'.State = .CSgetheader ∧ cp'.Next = cp.Next + 3) →
      CleanTurn xrefslave data cp cp'

theorem not_crlf_of_white {position : Nat} (hwhite : data[position]?.any ISWHITE) :
    slice data position 2 ≠ [CR, LF] := by
  intro hcrlf
  rw [(crlf_iff.mp hcrlf).1] at hwhite
  exact absurd hwhite (by decide)

theorem headerLine_clean (hcrlf : slice data cp.Next 2 = [CR, LF])
    (hclean : (headerLine xrefslave data cp).Error = []) :
    CleanTurn xrefslave data cp (headerLine xrefslave data cp) := by
  rw [headerLine] at hclean ⊢
  by_cases hstart : cp.Next = cp.Start
  · simp only [if_pos hstart] at hclean
    split at hclean
    · exact absurd hclean (ARTerror_Error _ _)
    · exact absurd hclean (ARTerror_Error _ _)
  simp only [if_neg hstart] at hclean ⊢
  by_cases hwhite : data[cp.Next + 2]?.any ISWHITE
  · rw [if_neg (not_crlf_of_white hwhite)] at hclean ⊢
    rw [if_pos hwhite] at hclean ⊢
    exact .folded hstart hcrlf hwhite ⟨fun hclean => hclean, rfl, rfl, rfl, rfl⟩ rfl rfl
  · rw [if_neg hwhite] at hclean ⊢
    have hstart' := (notes_ARTcheckheader xrefslave { cp with HeaderLines := cp.HeaderLines + 1 }
      (slice data cp.CurHeader (cp.Next + 2 - cp.CurHeader))).Start
    split
    next hempty =>
      exact .field hstart hcrlf (Bool.eq_false_of_not_eq_true hwhite) hstart' ⟨_, rfl,
        rfl, rfl, rfl⟩ rfl
        (.inl ⟨hempty, rfl, rfl, rfl⟩)
    next hline =>
      exact .field hstart hcrlf (Bool.eq_false_of_not_eq_true hwhite) hstart' ⟨_, rfl,
        rfl, rfl, rfl⟩ rfl
        (.inr ⟨hline, rfl, rfl⟩)

theorem headerTurn_clean (hturn : headerTurn xrefslave data cp = some cp')
    (hclean : cp'.Error = []) :
    CleanTurn xrefslave data cp cp' := by
  rw [headerTurn] at hturn
  split at hturn
  · cases hturn
  next hstate =>
    rw [not_not] at hstate
    cases hoctet : data[cp.Next]? with
    | none => simp [hoctet] at hturn
    | some c =>
      simp only [hoctet] at hturn
      by_cases hcr : c ≠ CR
      · rw [if_pos hcr] at hturn
        cases hturn
        refine .octet (fun hcrlf => hcr ?_) (undisturbed_noteOctet ..) rfl rfl
        exact Option.some.inj (hoctet.symm.trans (crlf_iff.mp hcrlf).1)
      rw [if_neg hcr] at hturn
      rw [not_not] at hcr
      subst hcr
      split at hturn
      · cases hturn
        exact absurd hclean (ARTerror_Error _ _)
      split at hturn
      · cases hturn
      split at hturn
      · split at hturn
        · cases hturn
          exact absurd hclean (ARTerror_Error _ _)
        · cases hturn
          exact absurd hclean (ARTerror_Error _ _)
      split at hturn
      next hlf =>
        cases hturn
        exact headerLine_clean (crlf_iff.mpr ⟨hoctet, hlf⟩) hclean
      next hlf =>
        cases hturn
        exact .octet (fun hcrlf => hlf (crlf_iff.mp hcrlf).2) ⟨fun hclean => hclean, rfl, rfl, rfl,
          rfl⟩ hstate rfl

theorem bodyTurn_undisturbed (hturn : bodyTurn data cp = some cp') :
    Undisturbed cp cp' ∧ cp'.Body = cp.Body ∧ cp.Next ≤ cp'.Next ∧
      (cp.State = .CSgetbody → cp'.State = .CSgetbody ∨ cp'.State = .CSgotarticle) := by
  have hgot : cp.State = .CSgetbody →
      (if cp.State = .CSeatarticle then ChannelState.CSgotlargearticle else .CSgotarticle) =
        .CSgotarticle := by
    intro hstate
    rw [hstate]
    rfl
  rw [bodyTurn] at hturn
  split at hturn
  · cases hturn
  cases hoctet : data[cp.Next]? with
  | none => simp [hoctet] at hturn
  | some c =>
    simp only [hoctet] at hturn
    split at hturn
    · cases hturn
      exact ⟨undisturbed_noteOctet .., (notes_noteOctet ..).Body, Nat.le_succ _,
        fun hstate => .inl hstate⟩
    split at hturn
    · cases hturn
      exact ⟨⟨fun hclean => hclean, rfl, rfl, rfl, rfl⟩, rfl, Nat.le_add_right ..,
        fun hstate => .inr (hgot hstate)⟩
    split at hturn
    · cases hturn
    split at hturn
    · cases hturn
      exact ⟨⟨fun hclean => hclean, rfl, rfl, rfl, rfl⟩, rfl, Nat.le_add_right ..,
        fun hstate => .inr (hgot hstate)⟩
    split at hturn
    · cases hturn
      exact ⟨⟨fun hclean => hclean, rfl, rfl, rfl, rfl⟩, rfl, Nat.le_add_right ..,
        fun hstate => .inl hstate⟩
    · cases hturn
      exact ⟨⟨fun hclean => hclean, rfl, rfl, rfl, rfl⟩, rfl, Nat.le_succ _,
        fun hstate => .inl hstate⟩

theorem articleTurn_error (hturn : articleTurn xrefslave data cp = some cp')
    (herror : cp.Error ≠ []) : cp'.Error ≠ [] := by
  intro hclean
  rw [articleTurn] at hturn
  split_ifs at hturn with hheader
  · cases headerTurn_clean hturn hclean with
    | octet _ hsame _ _ => exact herror (hsame.Error hclean)
    | folded _ _ _ hsame _ _ => exact herror (hsame.Error hclean)
    | field _ _ _ _ hchecked _ _ =>
      obtain ⟨checked, rfl, herror', -, -⟩ := hchecked
      exact herror (ARTcheckheader_entered (herror'.symm.trans hclean)).1
  · exact herror ((bodyTurn_undisturbed hturn).1.Error hclean)

end Turns

/-- The header table is what the fields read so far say. -/
structure Collected (xrefslave : Bool) (data : Octets) (Start : Nat) (fields : List Octets)
    (cp : Channel) : Prop where
  starts : cp.Start = Start
  header : HeaderFields fields
  text : ∃ after, data.drop Start = fields.flatten ++ after
  table : ∀ i, cp.HdrContent i = contents xrefslave (placed Start fields) i
  bytes : cp.BytesHeader = (named HDR_BYTES (placed Start fields)).getLast?.map Prod.fst

inductive Known (xrefslave : Bool) (data : Octets) (Start : Nat) (cp : Channel) : Prop
  | wrong : cp.Error ≠ [] → Known xrefslave data Start cp
  | header (fields : List Octets) :
      cp.State = .CSgetheader → Collected xrefslave data Start fields cp →
      cp.CurHeader = Start + fields.flatten.length →
      (cp.CurHeader = Start ∧ cp.Next = Start ∨ cp.CurHeader < cp.Next ∧
        slice data cp.CurHeader 2 ≠ [CR, LF]) →
      (∀ k, cp.CurHeader ≤ k → k < cp.Next → slice data k 2 = [CR, LF] → data[k + 2]?.any ISWHITE) →
      (fields = [] ∨ (data[cp.CurHeader]?.any ISWHITE) = false) → Known xrefslave data Start cp
  | body (fields : List Octets) : cp.State = .CSgetbody ∨ cp.State = .CSgotarticle →
      Collected xrefslave data Start fields cp → cp.Body = Start + fields.flatten.length + 2 →
      slice data (cp.Body - 2) 2 = [CR, LF] → cp.Body ≤ cp.Next → Known xrefslave data Start cp

section Collecting

variable {xrefslave : Bool} {data : Octets} {cp cp' : Channel} {Start : Nat} {fields : List Octets}

theorem Collected.undisturbed (hcollected : Collected xrefslave data Start fields cp)
    (hsame : Undisturbed cp cp') :
    Collected xrefslave data Start fields cp' where
  starts := hsame.Start.trans hcollected.starts
  header := hcollected.header
  text := hcollected.text
  table i := (congrFun hsame.HdrContent i).trans (hcollected.table i)
  bytes := hsame.BytesHeader.trans hcollected.bytes

theorem contents_append (position : Nat) (fields : List Octets) (field : Octets) (i : Nat) :
    contents xrefslave (placed position (fields ++ [field])) i =
      if fieldHeader field = some i then
        enter xrefslave i (contents xrefslave (placed position fields) i)
          (position + fields.flatten.length, field)
      else contents xrefslave (placed position fields) i := by
  rw [contents, named, placed_append, List.filter_append, List.foldl_append]
  by_cases hheader : fieldHeader field = some i
  · rw [if_pos hheader, placed, placed, List.filter_cons_of_pos (by simpa using hheader)]
    rfl
  · rw [if_neg hheader, placed, placed, List.filter_cons_of_neg (by simpa using hheader)]
    rfl

theorem getLast_named_append (position : Nat) (fields : List Octets) (field : Octets) (i : Nat) :
    (named i (placed position (fields ++ [field]))).getLast?.map Prod.fst =
      if fieldHeader field = some i then some (position + fields.flatten.length)
      else (named i (placed position fields)).getLast?.map Prod.fst := by
  rw [named, placed_append, List.filter_append]
  by_cases hheader : fieldHeader field = some i
  · rw [if_pos hheader, placed, placed, List.filter_cons_of_pos (by simpa using hheader),
      List.filter_nil,
      List.getLast?_concat, Option.map_some]
  · rw [if_neg hheader, placed, placed, List.filter_cons_of_neg (by simpa using hheader),
      List.filter_nil,
      List.append_nil, named]

theorem slice_crlf {position : Nat} (hcrlf : slice data position 2 = [CR, LF]) :
    position + 2 ≤ data.length := by
  have := inside_of_getElem? (crlf_iff.mp hcrlf).2
  omega

theorem headerField_slice {position next : Nat} (hlt : position < next)
    (hstarts : slice data position 2 ≠ [CR, LF]) (hcrlf : slice data next 2 = [CR, LF])
    (hname : ∃ colon, (slice data position (next + 2 - position)).findIdx? (· = 58) = some colon ∧
      (slice data position (next + 2 - position))[colon + 1]?.any ISWHITE)
    (hfolded : ∀ k, position ≤ k → k < next → slice data k 2 = [CR, LF] →
      data[k + 2]?.any ISWHITE) :
    HeaderField (slice data position (next + 2 - position)) where
  starts := by
    rw [slice, List.drop_zero, slice, List.take_take, Nat.min_eq_left (by omega)]
    exact hstarts
  name := hname
  ends := by
    refine ⟨slice data position (next - position), ?_⟩
    rw [slice, slice, show next + 2 - position =
      next - position + 2 by omega, List.take_add, List.drop_drop,
      show position + (next - position) = next by omega]
    exact congrArg _ hcrlf
  folded k hk hless := by
    have hinside := slice_crlf hcrlf
    have hlength : (slice data position (next + 2 - position)).length = next + 2 - position := by
      rw [slice, List.length_take, List.length_drop]
      omega
    have hoctet : ∀ j, j < next + 2 - position →
        (slice data position (next + 2 - position))[j]? = data[position + j]? := by
      intro j hj
      rw [slice, List.getElem?_take_of_lt hj, List.getElem?_drop]
    rw [hlength] at hless
    rw [hoctet _ hless]
    obtain ⟨hcr, hlf⟩ := crlf_iff.mp hk
    rw [hoctet _ (by omega)] at hcr hlf
    exact hfolded (position + k) (by omega) (by omega) (crlf_iff.mpr ⟨hcr, hlf⟩)

theorem Collected.field (hcollected : Collected xrefslave data Start fields cp)
    (hcurrent : cp.CurHeader = Start + fields.flatten.length) (hlt : cp.CurHeader < cp.Next)
    (hstarts : slice data cp.CurHeader 2 ≠ [CR, LF])
    (hfolded : ∀ k, cp.CurHeader ≤ k → k < cp.Next → slice data k 2 = [CR, LF] →
      data[k + 2]?.any ISWHITE)
    (hfirst : fields = [] ∨ (data[cp.CurHeader]?.any ISWHITE) = false)
    (hcrlf : slice data cp.Next 2 = [CR, LF]) (hstart : cp'.Start = cp.Start)
    (hchecked : ∃ checked,
      checked = ARTcheckheader xrefslave { cp with HeaderLines := cp.HeaderLines + 1 }
        (slice data cp.CurHeader (cp.Next + 2 - cp.CurHeader)) ∧
      cp'.Error = checked.Error ∧ cp'.HdrContent = checked.HdrContent ∧
        cp'.BytesHeader = checked.BytesHeader)
    (hclean : cp'.Error = []) :
    ∃ field, Collected xrefslave data Start (fields ++ [field]) cp' ∧
      cp.Next + 2 = Start + (fields ++ [field]).flatten.length := by
  obtain ⟨checked, rfl, herror, hcontent, hbytes⟩ := hchecked
  obtain ⟨-, hname, htable, hbytes'⟩ := ARTcheckheader_entered (herror.symm.trans hclean)
  have hinside := slice_crlf hcrlf
  have hlength : (slice data cp.CurHeader (cp.Next + 2 - cp.CurHeader)).length =
      cp.Next + 2 - cp.CurHeader := by
    rw [slice, List.length_take, List.length_drop]
    omega
  have hfield := headerField_slice hlt hstarts hcrlf hname hfolded
  obtain ⟨after, hafter⟩ := hcollected.text
  refine ⟨slice data cp.CurHeader (cp.Next + 2 - cp.CurHeader),
    ⟨hstart.trans hcollected.starts, ⟨?_, ?_⟩, ?_, ?_, ?_⟩, ?_⟩
  · intro field hmem
    rcases List.mem_append.mp hmem with hmem | hmem
    · exact hcollected.header.each field hmem
    · rw [List.mem_singleton.mp hmem]
      exact hfield
  · intro field hmem
    rcases hfirst with rfl | hblank
    · cases hmem
    · cases fields with
      | nil => cases hmem
      | cons first rest =>
        rcases List.mem_append.mp hmem with hmem | hmem
        · exact hcollected.header.tail field hmem
        · rw [List.mem_singleton.mp hmem, slice, List.getElem?_take_of_lt (by omega),
            List.getElem?_drop]
          exact hblank
  · refine ⟨data.drop (cp.Next + 2), ?_⟩
    have hafter' : after = data.drop cp.CurHeader := by
      rw [hcurrent, ← List.drop_drop, hafter, List.drop_left]
    rw [hafter, List.flatten_append, List.flatten_singleton, append_assoc, hafter', slice]
    congr 1
    conv_lhs => rw [← List.take_append_drop (cp.Next + 2 - cp.CurHeader) (data.drop cp.CurHeader)]
    rw [List.drop_drop, show cp.CurHeader + (cp.Next + 2 - cp.CurHeader) = cp.Next + 2 by omega]
  · intro i
    rw [hcontent, htable, contents_append, ← hcollected.table, ← hcurrent]
  · rw [hbytes, hbytes', getLast_named_append, ← hcollected.bytes, ← hcurrent]
  · rw [List.flatten_append, List.flatten_singleton, List.length_append, hlength]
    omega

theorem known_articleTurn (hknown : Known xrefslave data Start cp)
    (hturn : articleTurn xrefslave data cp = some cp') :
    Known xrefslave data Start cp' := by
  by_cases hclean : cp'.Error = []
  swap
  · exact .wrong hclean
  rw [articleTurn] at hturn
  split at hturn
  next hstate =>
    have hcases := headerTurn_clean hturn hclean
    cases hknown with
    | wrong herror =>
      cases hcases with
      | octet _ hsame _ _ => exact absurd (hsame.Error hclean) herror
      | folded _ _ _ hsame _ _ => exact absurd (hsame.Error hclean) herror
      | field _ _ _ _ hchecked _ _ =>
        obtain ⟨checked, rfl, herror', -, -⟩ := hchecked
        exact absurd (ARTcheckheader_entered (herror'.symm.trans hclean)).1 herror
    | body _ hbody => rcases hbody with hbody | hbody <;> cases hstate.symm.trans hbody
    | header fields _ hcollected hcurrent hplace hfolded hfirst =>
      cases hcases with
      | octet hline hsame hstate' hnext =>
        refine .header fields hstate' (hcollected.undisturbed hsame)
          (hsame.CurHeader.trans hcurrent) (.inr ?_)
          (fun k hk hless hcrlf => ?_) (by rwa [hsame.CurHeader])
        · rw [hsame.CurHeader]
          rcases hplace with ⟨hstart, hat⟩ | ⟨hlt, hstarts⟩
          · exact ⟨by omega, by rwa [hstart, ← hat]⟩
          · exact ⟨by omega, hstarts⟩
        rcases Nat.lt_or_ge k cp.Next with hbefore | hat
        · exact hfolded k (hsame.CurHeader ▸ hk) hbefore hcrlf
        · obtain rfl : k = cp.Next := by omega
          exact absurd hcrlf hline
      | folded hmoved hline hwhite hsame hstate' hnext =>
        obtain ⟨hlt, hstarts⟩ :=
          hplace.resolve_left fun h => hmoved (h.2.trans hcollected.starts.symm)
        refine .header fields hstate' (hcollected.undisturbed hsame)
          (hsame.CurHeader.trans hcurrent)
          (.inr (by rw [hsame.CurHeader]; exact ⟨by omega, hstarts⟩)) (fun k hk hless hcrlf => ?_)
          (by rwa [hsame.CurHeader])
        rcases Nat.lt_or_ge k cp.Next with hbefore | hat
        · exact hfolded k (hsame.CurHeader ▸ hk) hbefore hcrlf
        · rcases Nat.eq_or_lt_of_le hat with rfl | hafter
          · exact hwhite
          · rcases Nat.eq_or_lt_of_le hafter with rfl | hlast
            · exact absurd ((crlf_iff.mp hline).2.symm.trans (crlf_iff.mp hcrlf).1) LF_ne_CR
            · obtain rfl : k = cp.Next + 2 := by omega
              exact absurd hcrlf (not_crlf_of_white hwhite)
      | field hmoved hline hwhite hstart hchecked hcurrent' hnext =>
        obtain ⟨hlt, hstarts⟩ :=
          hplace.resolve_left fun h => hmoved (h.2.trans hcollected.starts.symm)
        obtain ⟨field, hcollected', hlength⟩ :=
          hcollected.field hcurrent hlt hstarts hfolded hfirst hline hstart hchecked hclean
        rcases hnext with ⟨hempty, hstate', hnext, hbody⟩ | ⟨hnonempty, hstate', hnext⟩
        · exact .body (fields ++ [field]) (.inl hstate') hcollected' (by omega)
            (by rw [hbody]; exact hempty)
            (by omega)
        · refine .header (fields ++ [field]) hstate' hcollected' (hcurrent'.trans hlength)
            (.inr (by rw [hcurrent']; exact ⟨by omega, hnonempty⟩)) (fun k hk hless hcrlf => ?_)
              (.inr (hcurrent' ▸ hwhite))
          obtain rfl : k = cp.Next + 2 := by omega
          exact absurd hcrlf hnonempty
  next hstate =>
    obtain ⟨hsame, hbody', hle', hstate'⟩ := bodyTurn_undisturbed hturn
    cases hknown with
    | wrong herror => exact absurd (hsame.Error hclean) herror
    | header _ hheader => exact absurd hheader hstate
    | body fields hbody hcollected hplace hempty hle =>
      rcases hbody with hbody | hbody
      · exact .body fields (hstate' hbody) (hcollected.undisturbed hsame) (hbody'.trans hplace)
          (by rw [hbody']; exact hempty) (by omega)
      · rw [bodyTurn, if_pos (by simp [hbody])] at hturn
        cases hturn

theorem known_ARTparse (xrefslave : Bool) (data : Octets) (Start : Nat) (ihave : Bool) :
    Known xrefslave data Start (ARTparse xrefslave data (ARTprepare Start ihave)) := by
  rw [ARTparse_eq]
  refine invariant_of_reaches (P := Known xrefslave data Start) known_articleTurn
    ((articleParser xrefslave).reaches_scan data _) ?_
  refine .header [] rfl ⟨rfl, ⟨nofun, nofun⟩, ⟨_, rfl⟩, fun i => rfl,
    rfl⟩ rfl (.inl ⟨rfl, rfl⟩) ?_ (.inl rfl)
  intro k hstart hless
  exact absurd hless (Nat.not_lt.mpr hstart)

end Collecting

section Splitting

variable {field field' : Octets} {fields fields' : List Octets} {body body' : Octets}

theorem HeaderFields.follows (hfields : HeaderFields (field :: fields)) (body : Octets) :
    ((fields.flatten ++ [CR, LF] ++ body)[0]?.any ISWHITE) = false := by
  cases fields with
  | nil => exact of_decide_eq_true rfl
  | cons next rest =>
    obtain ⟨stem, hstem⟩ := (hfields.each next (by simp)).ends
    have hnext := hfields.tail next (by simp)
    have hlength : 0 < next.length := by
      rw [hstem, List.length_append]
      exact Nat.add_pos_right _ (Nat.zero_lt_succ _)
    rwa [flatten_cons, append_assoc, append_assoc, List.getElem?_append_left hlength]

theorem HeaderField.length_le (hfield : HeaderField field) (hfield' : HeaderField field')
    {after after' : Octets}
    (hsame : field ++ after = field' ++ after') (hafter : (after[0]?.any ISWHITE) = false) :
    field'.length ≤ field.length := by
  by_contra hlonger
  obtain ⟨stem, hstem⟩ := hfield.ends
  have hlength : field.length = stem.length + 2 := by rw [hstem]; simp
  have hoctet : ∀ k, k < field'.length → field'[k]? = (field ++ after)[k]? := by
    intro k hk
    rw [hsame, List.getElem?_append_left hk]
  have hcrlf : slice field' stem.length 2 = [CR, LF] := by
    rw [crlf_iff, hoctet _ (by omega), hoctet _ (by omega), List.getElem?_append_left (by omega),
      List.getElem?_append_left (by omega), hstem]
    simp
  have hfolded := hfield'.folded stem.length hcrlf (by omega)
  rw [hoctet _ (by omega), ← hlength, List.getElem?_append_right (Nat.le_refl _), Nat.sub_self,
    hafter] at hfolded
  cases hfolded

theorem HeaderFields.rest (hfields : HeaderFields (field :: fields)) : HeaderFields fields where
  each other hmem := hfields.each other (List.mem_cons_of_mem _ hmem)
  tail other hmem := hfields.tail other (List.mem_of_mem_tail hmem)

theorem HeaderField.not_empty_line (hfield : HeaderField field) {after body : Octets} :
    [CR, LF] ++ body ≠ field ++ after := by
  intro hsame
  obtain ⟨stem, hstem⟩ := hfield.ends
  have hlength : 2 ≤ field.length := by rw [hstem]; simp
  refine hfield.starts ?_
  have htake := congrArg (List.take 2) hsame
  rw [List.take_append_of_le_length hlength] at htake
  exact htake.symm

theorem HeaderFields.unique (hfields : HeaderFields fields) (hfields' : HeaderFields fields')
    (hsame : fields.flatten ++ [CR, LF] ++ body = fields'.flatten ++ [CR, LF] ++ body') :
    fields = fields' ∧ body = body' := by
  induction fields generalizing fields' with
  | nil =>
    cases fields' with
    | nil => exact ⟨rfl, List.append_cancel_left hsame⟩
    | cons field' rest' =>
      simp only [List.flatten_nil, List.nil_append, flatten_cons, append_assoc] at hsame
      exact absurd hsame (hfields'.each field' (List.mem_cons_self ..)).not_empty_line
  | cons field rest ih =>
    cases fields' with
    | nil =>
      simp only [List.flatten_nil, List.nil_append, flatten_cons, append_assoc] at hsame
      exact absurd hsame.symm (hfields.each field (List.mem_cons_self ..)).not_empty_line
    | cons field' rest' =>
      have hafter := hfields.follows body
      have hafter' := hfields'.follows body'
      rw [flatten_cons, flatten_cons, append_assoc, append_assoc, append_assoc,
        append_assoc] at hsame
      rw [append_assoc] at hafter hafter'
      have hfield := hfields.each field (List.mem_cons_self ..)
      have hfield' := hfields'.each field' (List.mem_cons_self ..)
      have hlength := Nat.le_antisymm (hfield'.length_le hfield hsame.symm hafter')
        (hfield.length_le hfield' hsame hafter)
      obtain ⟨rfl, hrest⟩ := List.append_inj hsame hlength
      rw [← append_assoc, ← append_assoc] at hrest
      obtain ⟨rfl, rfl⟩ := ih hfields.rest hfields'.rest hrest
      exact ⟨rfl, rfl⟩

end Splitting

end Inn.Innd
