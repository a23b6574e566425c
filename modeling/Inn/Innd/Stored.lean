import Inn.Innd.Numbering
import Inn.Innd.Written

/-!
# What is stored of an article

Each header field is changed by itself, wherever the fields stand in the header,
and everything else stays as it is.
-/

namespace Inn.Innd

open Foundation.Splicing

section Storing

variable {site : Site} {data Xref : Octets} {cp : Channel} {Start : Nat} {fields : List Octets}

def placeEdit (site : Site) (data Xref : Octets) (cp : Channel) (hp : HEADERP) :
    Option (Edit UInt8) :=
  let value := between data (cp.HDR HDR_PATH) (cp.HDR HDR_PATH + cp.HDR_LEN HDR_PATH)
  if hp.index = HDR_PATH then
    if (checkPath site value).extended site then
      some ⟨cp.HDR HDR_PATH, pathPrefix site value, cp.HDR HDR_PATH + pathSkip site value⟩
    else none
  else if hp.index = HDR_XREF then
    if site.xrefslave then none else some ⟨cp.HDR HDR_XREF, Xref,
      cp.HDR HDR_XREF + cp.HDR_LEN HDR_XREF⟩
  else some ⟨cp.BytesHeader.getD 0, [], cp.HDR HDR_BYTES + cp.HDR_LEN HDR_BYTES + 2⟩

theorem sameHost_length {name other : Octets} (hsame : sameHost name other) :
    name.length = other.length := by
  have := congrArg List.length (of_decide_eq_true hsame)
  rwa [List.length_map, List.length_map] at this

theorem pathSkip_eq (site : Site) (value : Octets) :
    pathSkip site value =
      if (checkPath site value).Hassamecluster then site.Pathcluster.length else 0 := by
  rw [pathSkip]
  split
  next hcluster =>
    rw [checkPath] at hcluster
    dsimp only at hcluster
    cases hname : site.pathcluster with
    | none =>
      rw [hname] at hcluster
      cases hcluster
    | some name =>
      rw [hname] at hcluster
      rw [sameHost_length hcluster, Site.Pathcluster, hname]
      simp [hop, octets]
  · rfl

theorem storeHeader_eq (hp : HEADERP) (stop : Nat) (written : Writing) (more : List (Edit UInt8)) :
    let path :=
      checkPath site (between data (cp.HDR HDR_PATH) (cp.HDR HDR_PATH + cp.HDR_LEN HDR_PATH))
    let written' := storeHeader site data (Xref ++ [CR, LF]) cp path written hp
    written'.2.flatten ++ splice data stop written'.1 more =
      written.2.flatten ++ splice data stop written.1
        ((placeEdit site data Xref cp hp).toList ++ more) := by
  dsimp only
  rw [storeHeader, placeEdit]
  by_cases hpath : hp.index = HDR_PATH
  · rw [if_pos hpath, if_pos hpath]
    split
    next hextended =>
      have hcluster : (if site.Pathcluster.isEmpty then [] else [site.Pathcluster]).flatten =
          site.Pathcluster := by
        split
        next hempty => exact (List.isEmpty_iff.mp hempty).symm
        · exact List.flatten_singleton
      rw [Option.toList_some, List.singleton_append, splice, pathPrefix,
        if_pos hextended, pathSkip_eq]
      simp only [List.flatten_append, List.flatten_singleton, List.append_assoc, hcluster]
      split
      · rw [List.flatten_singleton]
      · rfl
    · rfl
  rw [if_neg hpath, if_neg hpath]
  by_cases hxref : hp.index = HDR_XREF
  · rw [if_pos hxref, if_pos hxref]
    split
    · rfl
    · have htake : (Xref ++ [CR, LF]).take ((Xref ++ [CR, LF]).length - 2) = Xref := by
        rw [List.length_append, List.length_cons, List.length_singleton, Nat.add_sub_cancel,
          List.take_left]
      rw [Option.toList_some, List.singleton_append, splice, htake]
      simp
  · rw [if_neg hxref, if_neg hxref, Option.toList_some, List.singleton_append, splice]
    simp

theorem foldl_storeHeader (places : List HEADERP) (stop : Nat) (written : Writing)
    (more : List (Edit UInt8)) :
    let path :=
      checkPath site (between data (cp.HDR HDR_PATH) (cp.HDR HDR_PATH + cp.HDR_LEN HDR_PATH))
    let written' := places.foldl (storeHeader site data (Xref ++ [CR, LF]) cp path) written
    written'.2.flatten ++ splice data stop written'.1 more =
      written.2.flatten ++ splice data stop written.1
        (places.filterMap (placeEdit site data Xref cp) ++ more) := by
  induction places generalizing written with
  | nil => rfl
  | cons hp rest ih =>
    have hfirst :=
      @storeHeader_eq site data Xref cp hp stop written
      (rest.filterMap (placeEdit site data Xref cp) ++ more)
    dsimp only at ih hfirst ⊢
    rw [List.foldl_cons, ih, hfirst, List.filterMap_cons]
    cases placeEdit site data Xref cp hp with
    | none => rfl
    | some edit => rfl

def missingEdit (Xref : Octets) (found : Bool) (place : Nat) : List (Edit UInt8) :=
  if found then [] else [⟨place, octets "Xref: " ++ Xref ++ [CR, LF], place⟩]

theorem ARTstore_splice :
    ARTstore site data (Xref ++ [CR, LF]) cp =
      splice data cp.Next cp.Start (((headerPlaces cp).insertionSort fun a b => a.p ≤ b.p).filterMap
        (placeEdit site data Xref cp) ++ missingEdit Xref (cp.HDR_FOUND HDR_XREF)
          (cp.Body - 2)) := by
  have hfold :=
    @foldl_storeHeader site data Xref cp ((headerPlaces cp).insertionSort fun a b =>
      a.p ≤ b.p) cp.Next
    (cp.Start, []) (missingEdit Xref (cp.HDR_FOUND HDR_XREF) (cp.Body - 2))
  dsimp only at hfold
  rw [List.flatten_nil, List.nil_append] at hfold
  rw [← hfold, ARTstore, storeXref, missingEdit]
  dsimp only
  split
  · rw [splice, List.flatten_append, List.flatten_singleton]
  · rw [splice, splice]
    simp

theorem edits_placed (position : Nat) (fields : List Octets) :
    edits position (fields.map (fieldSegment site Xref)) =
      (placed position fields).filterMap fun field => (fieldEdit site Xref field.2).map fun edit =>
        edit.shift field.1 := by
  induction fields generalizing position with
  | nil => rfl
  | cons field rest ih =>
    rw [List.map_cons, edits, placed, List.filterMap_cons, ih]
    change ((fieldEdit site Xref field).map fun edit => edit.shift position).toList ++ _ = _
    cases fieldEdit site Xref field with
    | none => rfl
    | some edit => rfl

theorem between_fieldText {field : Nat × Octets} {i : Nat} {after : Octets}
    (hdata : data.drop field.1 = field.2 ++ after)
    (hinside : (fieldValue site.xrefslave i field.2).1 + (fieldValue site.xrefslave i field.2).2 ≤
      field.2.length) :
    between data (field.1 + (fieldValue site.xrefslave i field.2).1)
      (field.1 + (fieldValue site.xrefslave i field.2).1 +
        (fieldValue site.xrefslave i field.2).2) =
        fieldText site.xrefslave i field.2 := by
  rw [between, Nat.add_sub_cancel_left, fieldText, ← List.drop_drop, hdata,
    List.drop_append_of_le_length (by omega),
    List.take_append_of_le_length (by rw [List.length_drop]; omega)]

theorem Collected.placeEdit_eq (hcollected : Collected site.xrefslave data Start fields cp)
    (hregular : Regular site fields) (hpath : cp.HDR_FOUND HDR_PATH) {field : Nat × Octets}
    (hmem : field ∈ placed Start fields) :
    (placeOf site.xrefslave field).bind (placeEdit site data Xref cp) =
      (fieldEdit site Xref field.2).map fun edit => edit.shift field.1 := by
  rw [placeOf, fieldEdit]
  cases hheader : fieldHeader field.2 with
  | none => rfl
  | some i =>
    dsimp only
    by_cases hvalue : (fieldValue site.xrefslave i field.2).2 = 0
    · rw [if_neg fun h => h.2 hvalue, if_pos hvalue]
      rfl
    rw [if_neg hvalue]
    by_cases hedited : i = HDR_PATH ∨ i = HDR_XREF ∨ i = HDR_BYTES
    swap
    · rw [not_or, not_or] at hedited
      rw [if_neg fun h => h.1.elim hedited.1 (Or.rec hedited.2.1 hedited.2.2), if_neg hedited.1,
        if_neg hedited.2.1,
        if_neg hedited.2.2]
      rfl
    rw [if_pos ⟨hedited, hvalue⟩, Option.bind_some, placeEdit]
    dsimp only
    obtain ⟨hplace, hlength⟩ : cp.HDR i = field.1 + (fieldValue site.xrefslave i field.2).1 ∧
        cp.HDR_LEN i = (fieldValue site.xrefslave i field.2).2 := by
      have hfilled := mem_filled.mpr ⟨hmem, hheader, hvalue⟩
      rcases hcollected.located hregular hpath hedited with ⟨-, hnone⟩ | ⟨field', hone, -,
        hplace, hlength⟩
      · rw [hnone] at hfilled
        cases hfilled
      · rw [hone, List.mem_singleton] at hfilled
        exact hfilled ▸ ⟨hplace, hlength⟩
    by_cases hi : i = HDR_PATH
    · subst hi
      obtain ⟨after, hafter⟩ := hcollected.text
      obtain ⟨after', hdrop⟩ := drop_placed hafter hmem
      have hinside := fieldValue_length hvalue (plain_path _)
      rw [if_pos rfl, if_pos rfl, hplace, hlength, between_fieldText hdrop (by omega)]
      split
      · rw [Option.map_some, Edit.shift]
        simp only [Nat.add_assoc]
      · rfl
    rw [if_neg hi, if_neg hi]
    by_cases hi' : i = HDR_XREF
    · subst hi'
      rw [if_pos rfl, if_pos rfl, hplace, hlength]
      split
      · rfl
      · rw [Option.map_some, Edit.shift]
        simp only [Nat.add_assoc]
    rw [if_neg hi', if_neg hi']
    obtain rfl : i = HDR_BYTES := (hedited.resolve_left hi).resolve_left hi'
    have hnamed : field ∈ named HDR_BYTES (placed Start fields) :=
      List.mem_filter.mpr ⟨hmem, decide_eq_true hheader⟩
    have hsingle : named HDR_BYTES (placed Start fields) = [field] := by
      have hle := hregular.bytes
      rw [← named_length HDR_BYTES Start] at hle
      rcases hlist : named HDR_BYTES (placed Start fields) with _ | ⟨other, _ | ⟨_, _⟩⟩
      · rw [hlist] at hnamed
        cases hnamed
      · rw [hlist, List.mem_singleton] at hnamed
        rw [hnamed]
      · rw [hlist] at hle
        simp at hle
    rw [if_pos rfl, hplace, hlength, hcollected.bytes, hsingle, Option.map_some, Edit.shift]
    simp only [Nat.add_assoc, Nat.add_zero]
    rfl

theorem Collected.found_xref (hcollected : Collected site.xrefslave data Start fields cp)
    (hregular : Regular site fields) (hpath : cp.HDR_FOUND HDR_PATH) :
    cp.HDR_FOUND HDR_XREF = fields.any fun field => fieldHeader field = some HDR_XREF := by
  rcases hcollected.located hregular hpath (.inr (.inl rfl)) with ⟨hmissing, hnone⟩ | ⟨field,
    hone, hfound, -⟩
  · rw [hmissing]
    symm
    rw [List.any_eq_false]
    intro field hmem hheader
    rw [← map_snd_placed Start fields] at hmem
    obtain ⟨placed, hplaced, rfl⟩ := List.mem_map.mp hmem
    rw [map_snd_placed] at hmem
    have hfilled := mem_filled.mpr ⟨hplaced, of_decide_eq_true hheader,
      hregular.nonempty placed.2 hmem HDR_XREF (of_decide_eq_true hheader) (.inr rfl)⟩
    rw [hnone] at hfilled
    cases hfilled
  · rw [hfound]
    symm
    obtain ⟨hmem, hheader, -⟩ := mem_filled.mp (hone ▸ List.mem_singleton_self field)
    exact List.any_eq_true.mpr
      ⟨field.2, map_snd_placed Start fields ▸ List.mem_map_of_mem hmem, decide_eq_true hheader⟩

theorem Collected.received (hcollected : Collected site.xrefslave data Start fields cp)
    (hbody : cp.Body = Start + fields.flatten.length + 2)
    (hempty : slice data (cp.Body - 2) 2 = [CR, LF])
    (hle : cp.Body ≤ cp.Next) (hinside : cp.Next ≤ data.length) :
    data.drop Start = fields.flatten ++ [CR, LF] ++ between data cp.Body cp.Next ++
      data.drop cp.Next ∧
      Start + (fields.flatten ++ [CR, LF] ++ between data cp.Body cp.Next).length = cp.Next := by
  obtain ⟨after, hafter⟩ := hcollected.text
  have hbody' : cp.Body - 2 = Start + fields.flatten.length := by omega
  have hafter' : after = data.drop (cp.Body - 2) := by
    rw [hbody', ← List.drop_drop, hafter, List.drop_left]
  have hrest : data.drop (cp.Body - 2) = [CR, LF] ++ data.drop cp.Body := by
    rw [← hempty, slice]
    conv_lhs => rw [← List.take_append_drop 2 (data.drop (cp.Body - 2))]
    rw [List.drop_drop, show cp.Body - 2 + 2 = cp.Body by omega]
  have hlast : data.drop cp.Body = between data cp.Body cp.Next ++ data.drop cp.Next := by
    rw [between]
    conv_lhs => rw [← List.take_append_drop (cp.Next - cp.Body) (data.drop cp.Body)]
    rw [List.drop_drop, show cp.Body + (cp.Next - cp.Body) = cp.Next by omega]
  refine ⟨?_, ?_⟩
  · rw [hafter, hafter', hrest, hlast]
    simp only [List.append_assoc]
  · rw [List.length_append, List.length_append, between, List.length_take, List.length_drop,
      List.length_cons,
      List.length_singleton]
    omega

theorem Collected.stored (hcollected : Collected site.xrefslave data Start fields cp)
    (hregular : Regular site fields)
    (hpath : cp.HDR_FOUND HDR_PATH) (hbody : cp.Body = Start + fields.flatten.length + 2)
    (hempty : slice data (cp.Body - 2) 2 = [CR, LF]) (hle : cp.Body ≤ cp.Next)
    (hinside : cp.Next ≤ data.length) :
    ARTstore site data (Xref ++ [CR, LF]) cp =
      (storedFields site (Xref ++ [CR, LF]) fields).flatten ++ [CR, LF] ++
        between data cp.Body cp.Next := by
  obtain ⟨hdata, hnext⟩ := hcollected.received hbody hempty hle hinside
  have hfound := hcollected.found_xref hregular hpath
  let blank : Segment UInt8 :=
    { text := [CR, LF]
      edit := if cp.HDR_FOUND HDR_XREF then none else some ⟨0,
        octets "Xref: " ++ (Xref ++ [CR, LF]), 0⟩
      inside := by
        intro edit hedit
        split at hedit
        · cases hedit
        · obtain rfl := Option.mem_some_iff.mp hedit
          exact ⟨Nat.le_refl _, Nat.zero_le _⟩ }
  let body : Segment UInt8 :=
    { text := between data cp.Body cp.Next, edit := none, inside := nofun }
  have htexts : ((fields.map (fieldSegment site Xref) ++ [blank, body]).map Segment.text).flatten =
      fields.flatten ++ [CR, LF] ++ between data cp.Body cp.Next := by
    have hfields : (fields.map (fieldSegment site Xref)).map Segment.text = fields := by
      rw [List.map_map]
      exact List.map_id fields
    rw [List.map_append, hfields, List.flatten_append, List.append_assoc]
    simp [blank, body]
  have hresults :
      ((fields.map (fieldSegment site Xref) ++ [blank, body]).map Segment.result).flatten =
      (storedFields site (Xref ++ [CR, LF]) fields).flatten ++ [CR, LF] ++
        between data cp.Body cp.Next := by
    have hfields : (fields.map (fieldSegment site Xref)).map Segment.result =
        fields.map (storedField site (Xref ++ [CR, LF])) := by
      rw [List.map_map]
      exact List.map_congr_left fun field hmem =>
        fieldSegment_result (hcollected.header.each field hmem)
    rw [List.map_append, hfields, List.flatten_append, storedFields, List.flatten_append, ← hfound]
    have hbody' : body.result = between data cp.Body cp.Next := Segment.result_of_none rfl
    by_cases hxref : cp.HDR_FOUND HDR_XREF
    · have hblank : blank.result = [CR, LF] := Segment.result_of_none (if_pos hxref)
      rw [if_pos hxref]
      simp [hblank, hbody']
    · have hblank : blank.result = _ := Segment.result_of_some (if_neg hxref)
      rw [if_neg hxref]
      simp [hblank, hbody', blank]
  have hedits : edits Start (fields.map (fieldSegment site Xref) ++ [blank, body]) =
      ((headerPlaces cp).insertionSort fun a b => a.p ≤ b.p).filterMap
        (placeEdit site data Xref cp) ++
        missingEdit Xref (cp.HDR_FOUND HDR_XREF) (cp.Body - 2) := by
    rw [edits_append, edits_placed, hcollected.insertionSort_headerPlaces hregular hpath,
      List.filterMap_filterMap]
    congr 1
    · exact List.filterMap_congr fun field hmem =>
        (hcollected.placeEdit_eq hregular hpath hmem).symm
    · have hplace :
          Start + ((fields.map (fieldSegment site Xref)).map Segment.text).flatten.length =
          cp.Body - 2 := by
        rw [List.map_map, show Segment.text ∘ fieldSegment site Xref = id from rfl, List.map_id]
        omega
      rw [hplace, missingEdit]
      by_cases hxref : cp.HDR_FOUND HDR_XREF
      · simp [edits, blank, body, hxref]
      · simp [edits, blank, body, hxref, Edit.shift]
  rw [ARTstore_splice, ← hedits, hcollected.starts]
  conv_lhs => rw [← hnext, ← htexts]
  rw [splice_edits _ (Nat.le_refl _) (by rw [htexts]; exact hdata), between_self,
    List.nil_append, hresults]

end Storing

section Articles

theorem findIdx?_take_append {field rest : Octets} {colon n : Nat}
    (hcolon : field.findIdx? (· = 58) = some colon)
    (hn : colon < n) : (field.take n ++ rest).findIdx? (· = 58) = some colon := by
  have hlt := (List.findIdx?_eq_some_iff_getElem.mp hcolon).1
  have hsplit := hcolon
  rw [← List.take_append_drop n field, List.findIdx?_append] at hsplit
  rw [List.findIdx?_append]
  cases hfront : (field.take n).findIdx? (· = 58) with
  | some place =>
    rw [hfront] at hsplit
    exact hsplit
  | none =>
    rw [hfront, Option.none_or, List.length_take] at hsplit
    obtain ⟨place, -, hplace⟩ := Option.map_eq_some_iff.mp hsplit
    omega

theorem fieldHeader_take_append {field rest : Octets} {colon n i : Nat}
    (hcolon : field.findIdx? (· = 58) = some colon)
    (hn : colon < n) (hheader : fieldHeader field = some i) :
    fieldHeader (field.take n ++ rest) = some i := by
  have hlt := (List.findIdx?_eq_some_iff_getElem.mp hcolon).1
  rw [fieldHeader, hcolon, Option.bind_some] at hheader
  rw [fieldHeader, findIdx?_take_append hcolon hn, Option.bind_some, List.take_append_of_le_length,
    List.take_take,
    Nat.min_eq_left hn.le, hheader]
  rw [List.length_take]
  omega

theorem fieldHeader_storedField {site : Site} {Xref field : Octets}
    (hbytes : fieldHeader field = some HDR_BYTES →
      (fieldValue site.xrefslave HDR_BYTES field).2 ≠ 0) :
    fieldHeader (storedField site Xref field) =
      if fieldHeader field = some HDR_BYTES then none else fieldHeader field := by
  rw [storedField]
  cases hheader : fieldHeader field with
  | none => exact hheader
  | some i =>
    obtain ⟨colon, hcolon⟩ : ∃ colon, field.findIdx? (· = 58) = some colon := by
      cases hcolon : field.findIdx? (· = 58) with
      | none =>
        rw [fieldHeader, hcolon] at hheader
        cases hheader
      | some colon => exact ⟨colon, rfl⟩
    have hafter : ∀ rest, Plain site.xrefslave i →
        fieldHeader (field.take (fieldValue site.xrefslave i field).1 ++ rest) = some i := by
      intro rest hplain
      refine fieldHeader_take_append hcolon ?_ hheader
      rw [fieldValue_plain hplain, hcolon, Option.getD_some]
      omega
    dsimp only
    by_cases hvalue : (fieldValue site.xrefslave i field).2 = 0
    · rw [if_pos hvalue, if_neg, hheader]
      intro heq
      obtain rfl := Option.some.inj heq
      exact hbytes hheader hvalue
    rw [if_neg hvalue]
    by_cases hpath : i = HDR_PATH
    · subst hpath
      rw [if_pos rfl, if_neg (by decide), List.append_assoc, hafter _ (plain_path _)]
    rw [if_neg hpath]
    by_cases hxref : i = HDR_XREF
    · subst hxref
      rw [if_pos rfl, if_neg (show ¬some HDR_XREF = some HDR_BYTES by decide)]
      split
      · exact hheader
      next hslave => exact hafter _ (plain_xref hslave)
    rw [if_neg hxref]
    by_cases hi : i = HDR_BYTES
    · rw [if_pos hi, if_pos (congrArg some hi)]
      rfl
    · rw [if_neg hi, if_neg (fun heq => hi (Option.some.inj heq)), hheader]

theorem fieldHeader_newXref (Xref : Octets) :
    fieldHeader (octets "Xref: " ++ Xref) = some HDR_XREF := by
  have hcolon : (octets "Xref: " ++ Xref).findIdx? (· = 58) = some 4 := rfl
  rw [fieldHeader, hcolon, Option.bind_some]
  change systemHeader (octets "Xref") = some HDR_XREF
  decide

theorem Regular.storedFields {site : Site} {fields : List Octets} (hregular : Regular site fields)
    (Xref : Octets) :
    (∀ field ∈ storedFields site Xref fields, fieldHeader field ≠ some HDR_BYTES) ∧
      (site.xrefslave = false → ∃ name,
        (storedFields site Xref fields).filter (fun field => fieldHeader field = some HDR_XREF) =
          [name ++ Xref]) := by
  have hnames : ∀ field ∈ fields, fieldHeader (storedField site Xref field) =
      if fieldHeader field = some HDR_BYTES then none else fieldHeader field := fun field hmem =>
    fieldHeader_storedField fun hheader => hregular.nonempty field hmem HDR_BYTES hheader (.inl rfl)
  refine ⟨fun field hmem hheader => ?_, fun hslave => ?_⟩
  · rw [Inn.Innd.storedFields, List.mem_append] at hmem
    rcases hmem with hmem | hmem
    · obtain ⟨original, horiginal, rfl⟩ := List.mem_map.mp hmem
      rw [hnames original horiginal] at hheader
      split at hheader
      · cases hheader
      next hne => exact hne hheader
    · split at hmem
      · cases hmem
      · rw [List.mem_singleton.mp hmem, fieldHeader_newXref] at hheader
        exact absurd hheader (by decide)
  · have hold : (fields.map (storedField site Xref)).filter (fun field => fieldHeader field =
        some HDR_XREF) =
        (fields.filter fun field => fieldHeader field = some HDR_XREF).map
          (storedField site Xref) := by
      rw [List.filter_map]
      refine congrArg _ (List.filter_congr fun field hmem => ?_)
      rw [Function.comp_apply, hnames field hmem]
      split
      next hbytes =>
        rw [hbytes]
        decide
      · rfl
    rw [Inn.Innd.storedFields, List.filter_append, hold]
    have hsingle := hregular.xref
    match hxrefs : fields.filter fun field => fieldHeader field = some HDR_XREF with
    | [] =>
      have hnone : (fields.any fun field => fieldHeader field = some HDR_XREF) = false := by
        rw [List.any_eq_false]
        exact List.filter_eq_nil_iff.mp hxrefs
      rw [hnone]
      refine ⟨octets "Xref: ", ?_⟩
      simp [fieldHeader_newXref]
    | [field] =>
      obtain ⟨hmem, hheader⟩ := List.mem_filter.mp (hxrefs ▸ List.mem_singleton_self field)
      have hany : (fields.any fun field => fieldHeader field = some HDR_XREF) = true :=
        List.any_eq_true.mpr ⟨field, hmem, hheader⟩
      have hvalue := hregular.nonempty field hmem HDR_XREF (of_decide_eq_true hheader) (.inr rfl)
      rw [hany]
      refine ⟨field.take (fieldValue site.xrefslave HDR_XREF field).1, ?_⟩
      rw [List.map_singleton, storedField, of_decide_eq_true hheader]
      dsimp only
      rw [if_neg hvalue, if_neg (by decide), if_pos rfl, if_neg (by simp [hslave])]
      rfl
    | _ :: _ :: _ =>
      rw [hxrefs] at hsingle
      simp at hsingle

theorem Accepted.path {site : Site} {cp : Channel} (haccepted : Accepted site cp) :
    cp.HDR_FOUND HDR_PATH :=
  haccepted.required HDR_PATH (by decide)

/-- An article that is accepted consists of header fields, an empty line and a body, however it has
been split into reads. What is stored of it are its fields, changed one by one, the empty line and
the body. -/
theorem stored_article (site : Site) (host : Numbering.Host) (active : Numbering.Active)
    (groups : List Numbering.Name) (ihave : Bool) (before : Octets) (portions : List Octets)
    (haccepted : Accepted site
      (ARTreceive site.xrefslave before (ARTprepare before.length ihave) portions)) :
    let data := before ++ portions.flatten
    let cp := ARTreceive site.xrefslave before (ARTprepare before.length ihave) portions
    let Xref := (Numbering.master host active groups).Xref
    (∃ fields body, HeaderFields fields ∧
      between data before.length cp.Next = fields.flatten ++ [CR, LF] ++ body) ∧
      ∀ fields body, HeaderFields fields →
        between data before.length cp.Next = fields.flatten ++ [CR, LF] ++ body →
        Regular site fields →
        ARTstore site data Xref cp = (storedFields site Xref fields).flatten ++ [CR, LF] ++ body ∧
        (∀ field ∈ storedFields site Xref fields, fieldHeader field ≠ some HDR_BYTES) ∧
        (site.xrefslave = false → ∃ name,
          (storedFields site Xref fields).filter (fun field => fieldHeader field = some HDR_XREF) =
            [name ++ Xref]) := by
  have hwhole := (ARTreceive_whole site.xrefslave ihave before portions).1
  dsimp only
  rw [hwhole] at haccepted ⊢
  obtain ⟨e, hends⟩ :=
    (finished_iff site.xrefslave (before ++ portions.flatten) before.length ihave).mp
    (.inr haccepted.State)
  have hscanned := scanned_ARTparse site.xrefslave (before ++ portions.flatten) before.length ihave
  have hinside := (ends_of_finished hscanned (.inr haccepted.State)).inside
  have hknown := known_ARTparse site.xrefslave (before ++ portions.flatten) before.length ihave
  generalize ARTparse site.xrefslave (before ++ portions.flatten) (ARTprepare before.length ihave) =
    cp at *
  cases hknown with
  | wrong herror => exact absurd haccepted.Error herror
  | header _ hstate => exact absurd (hstate.symm.trans haccepted.State) (by decide)
  | body fields _ hcollected hbody hempty hle =>
    obtain ⟨hdata, hnext⟩ := hcollected.received hbody hempty hle hinside
    have hreceived : between (before ++ portions.flatten) before.length cp.Next =
        fields.flatten ++ [CR, LF] ++ between (before ++ portions.flatten) cp.Body cp.Next := by
      rw [between, hdata, List.take_left' (by omega)]
    refine ⟨⟨fields, _, hcollected.header, hreceived⟩,
      fun fields' body hfields hsplit hregular => ?_⟩
    obtain ⟨rfl, rfl⟩ := hfields.unique hcollected.header (hsplit.symm.trans hreceived)
    exact ⟨hcollected.stored hregular haccepted.path hbody hempty hle hinside,
      hregular.storedFields _⟩

section Example

def newsSite (xrefslave : Bool) : Site :=
  { pathhost := octets "news", pathalias := some (octets "alias"),
    pathcluster := some (octets "here"), xrefslave := xrefslave }

theorem news_host : octets "news" ≠ [] ∧ ∀ c ∈ octets "news", !Numbering.isblank c := by
    decide +kernel

def newsHost : Numbering.Host := ⟨octets "news", news_host⟩

theorem misc_test_name : ∀ c ∈ octets "misc.test", c ≠ 58 ∧ !Numbering.isblank c := by
    decide +kernel

def miscTest : Numbering.Name := ⟨octets "misc.test", misc_test_name⟩

def oneGroup : Numbering.Active := fun name =>
  if name = miscTest then some ⟨4, 4, 10, octets "0000000004", 0⟩ else none

def testFields : List Octets :=
  [octets "Bytes: 7\r\n", octets "From: me\r\n", octets "Xref: there misc.test:9\r\n",
    octets "Date: now\r\n",
    octets "Path: here!there!me\r\n", octets "Newsgroups: misc.test\r\n",
      octets "Message-ID: <1@me>\r\n",
    octets "Subject: a\r\n b\r\n"]

def testArticle : Octets := testFields.flatten ++ octets "\r\nbody\r\n.\r\n"

theorem accepted_iff {site : Site} {cp : Channel} : Accepted site cp ↔
    cp.State = .CSgotarticle ∧ cp.Error = [] ∧
      (∀ i < ARTheaders.length, (ARTheaders[i]?.any fun hp => hp.type = .HTreq) → cp.HDR_FOUND i) ∧
      (site.xrefslave → cp.HDR_FOUND HDR_XREF) := by
  constructor
  · rintro ⟨hstate, herror, hrequired, hslave⟩
    exact ⟨hstate, herror, fun i _ => hrequired i, hslave⟩
  · rintro ⟨hstate, herror, hrequired, hslave⟩
    refine ⟨hstate, herror, fun i hi => hrequired i ?_ hi, hslave⟩
    by_contra hbeyond
    rw [List.getElem?_eq_none (Nat.le_of_not_lt hbeyond)] at hi
    cases hi

instance {site : Site} {cp : Channel} : Decidable (Accepted site cp) :=
    decidable_of_iff' _ accepted_iff

theorem testArticle_accepted (xrefslave : Bool) :
    Accepted (newsSite xrefslave) (ARTreceive xrefslave [] (ARTprepare 0 true) [testArticle]) := by
  revert xrefslave
  decide +kernel

theorem testFields_regular : HeaderFields testFields ∧ Regular (newsSite false) testFields := by
  have hall : ((∀ field ∈ testFields, HeaderField field) ∧
      ∀ field ∈ testFields.tail, field[0]?.any ISWHITE = false) ∧
      (testFields.filter fun field => fieldHeader field = some HDR_BYTES).length ≤ 1 ∧
      (testFields.filter fun field => fieldHeader field = some HDR_XREF).length ≤ 1 ∧
      (∀ i ∈ [HDR_BYTES, HDR_XREF], ∀ field ∈ testFields, fieldHeader field = some i →
        (fieldValue false i field).2 ≠ 0) ∧
      ∀ field ∈ testFields, fieldHeader field = some HDR_PATH →
        (checkPath (newsSite false) (fieldText false HDR_PATH field)).Hassamecluster →
        ((fieldText false HDR_PATH field).head?.any ISWHITE) = false ∧
          ((ARTparsepath (fieldText false HDR_PATH field)).headD []).length <
            (fieldText false HDR_PATH field).length := by
    decide
  obtain ⟨⟨heach, htail⟩, hbytes, hxref, hnonempty, hcluster⟩ := hall
  refine ⟨⟨heach, htail⟩, hbytes, hxref, ?_, hcluster⟩
  rintro field hmem i hheader (rfl | rfl)
  · exact hnonempty _ List.mem_cons_self field hmem hheader
  · exact hnonempty _ (List.mem_cons_of_mem _ List.mem_cons_self) field hmem hheader

theorem stored_article_test :
    ARTstore (newsSite false) testArticle (Numbering.master newsHost oneGroup [miscTest]).Xref
        (ARTreceive false [] (ARTprepare 0 true) [testArticle]) =
      octets "From: me\r\nXref: news misc.test:5\r\nDate: now\r\nPath: here!news!alias!there!me\r\n" ++
        octets "Newsgroups: misc.test\r\nMessage-ID: <1@me>\r\nSubject: a\r\n b\r\n\r\nbody\r\n.\r\n" := by
  obtain ⟨-, hstored⟩ :=
    stored_article (newsSite false) newsHost oneGroup [miscTest] true [] [testArticle]
    (testArticle_accepted false)
  obtain ⟨hfields, hregular⟩ := testFields_regular
  have hall : between ([] ++ [testArticle].flatten) ([] : Octets).length
      (ARTreceive (newsSite false).xrefslave [] (ARTprepare ([] : Octets).length true)
        [testArticle]).Next =
        testFields.flatten ++ [CR, LF] ++ octets "body\r\n.\r\n" ∧
      (storedFields (newsSite false) (Numbering.master newsHost oneGroup [miscTest]).Xref
        testFields).flatten ++ [CR, LF] ++
        octets "body\r\n.\r\n" =
      octets "From: me\r\nXref: news misc.test:5\r\nDate: now\r\nPath: here!news!alias!there!me\r\n" ++
        octets "Newsgroups: misc.test\r\nMessage-ID: <1@me>\r\nSubject: a\r\n b\r\n\r\nbody\r\n.\r\n" := by
    decide +kernel
  exact (hstored testFields (octets "body\r\n.\r\n") hfields hall.1 hregular).1.trans hall.2

/-- A slave stores the Xref of its master, not a new one. -/
theorem not_stored_new_xref :
    ¬∀ (site : Site) (host : Numbering.Host) (active : Numbering.Active)
      (groups : List Numbering.Name) (ihave : Bool)
      (data : Octets), Accepted site (ARTreceive site.xrefslave [] (ARTprepare 0 ihave) [data]) →
      (Numbering.master host active groups).Xref <:+:
        ARTstore site data (Numbering.master host active groups).Xref
          (ARTreceive site.xrefslave [] (ARTprepare 0 ihave) [data]) := by
  intro hall
  have hinfix :=
    hall (newsSite true) newsHost oneGroup [miscTest] true testArticle (testArticle_accepted true)
  revert hinfix
  decide +kernel

end Example

end Articles

end Inn.Innd
