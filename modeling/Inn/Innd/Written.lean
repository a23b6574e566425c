import Inn.Innd.Wire

/-!
# Header fields and their places

What a header field turns into does not depend on the others, and the table of a
channel says where the ones are that are changed.
-/

namespace Inn.Innd

open Foundation.Splicing

section Values

variable {xrefslave : Bool} {site : Site} {Xref field : Octets} {i : Nat}

theorem fieldValue_lt (hvalue : (fieldValue xrefslave i field).2 ≠ 0) :
    (fieldValue xrefslave i field).1 < field.length := by
  rw [fieldValue, headerValue] at hvalue ⊢
  split at hvalue
  next hblanks =>
    rw [if_pos hblanks]
    dsimp only at hvalue ⊢
    have hrest :
        ((((field.take (field.length - 2)).drop ((field.findIdx? (· = 58)).getD 0 + 1)).dropWhile
        ISWHITE).reverse.dropWhile ISWHITE).length ≤ field.length := by
      refine (List.dropWhile_suffix _).length_le.trans ?_
      rw [List.length_reverse]
      refine (List.dropWhile_suffix _).length_le.trans ?_
      rw [List.length_drop, List.length_take]
      omega
    omega
  next hplain =>
    rw [if_neg hplain]
    dsimp only at hvalue ⊢
    omega

def Plain (xrefslave : Bool) (i : Nat) : Prop :=
  i ≠ HDR_MESSAGE_ID ∧ i ≠ HDR_SUPERSEDES ∧ (i = HDR_XREF → xrefslave = false)

theorem plain_path (xrefslave : Bool) : Plain xrefslave HDR_PATH := ⟨by decide, by decide, nofun⟩

theorem plain_bytes (xrefslave : Bool) : Plain xrefslave HDR_BYTES := ⟨by decide, by decide, nofun⟩

theorem plain_xref (hslave : ¬xrefslave) : Plain xrefslave HDR_XREF :=
  ⟨by decide, by decide, fun _ => Bool.eq_false_of_not_eq_true hslave⟩

theorem fieldValue_plain (hplain : Plain xrefslave i) (field : Octets) :
    fieldValue xrefslave i field = ((field.findIdx? (· = 58)).getD 0 + 2,
      field.length - ((field.findIdx? (· = 58)).getD 0 + 2) - 2) := by
  rw [fieldValue, headerValue, if_neg]
  rintro (h | h | ⟨hslave, h⟩)
  · exact hplain.1 h
  · exact hplain.2.1 h
  · rw [hplain.2.2 h] at hslave
    cases hslave

theorem fieldValue_length (hvalue : (fieldValue xrefslave i field).2 ≠ 0)
    (hplain : Plain xrefslave i) :
    (fieldValue xrefslave i field).1 + (fieldValue xrefslave i field).2 + 2 = field.length := by
  rw [fieldValue_plain hplain] at hvalue ⊢
  dsimp only at hvalue ⊢
  omega

theorem hopsFrom_head_length (fuel : Nat) (p : Octets) :
    ((hopsFrom fuel p).headD []).length ≤ p.length := by
  cases fuel with
  | zero => exact Nat.zero_le _
  | succ fuel =>
    rw [hopsFrom]
    split
    · exact Nat.zero_le _
    · exact (List.takeWhile_prefix _).length_le.trans (List.dropWhile_suffix _).length_le

theorem pathSkip_le (site : Site) (value : Octets) : pathSkip site value ≤ value.length + 1 := by
  rw [pathSkip]
  split
  · have := hopsFrom_head_length ((value.takeWhile (· ≠ 0)).length + 1) (value.takeWhile (· ≠ 0))
    have := (List.takeWhile_prefix (fun c : UInt8 => decide (c ≠ 0)) (l := value)).length_le
    rw [ARTparsepath]
    omega
  · exact Nat.zero_le _

def fieldEdit (site : Site) (Xref field : Octets) : Option (Edit UInt8) :=
  match fieldHeader field with
  | none => none
  | some i =>
    let (place, length) := fieldValue site.xrefslave i field
    let value := fieldText site.xrefslave i field
    if length = 0 then none
    else if i = HDR_PATH then
      if (checkPath site value).extended site then
        some ⟨place, pathPrefix site value, place + pathSkip site value⟩
      else none
    else if i = HDR_XREF then if site.xrefslave then none else some ⟨place, Xref, place + length⟩
    else if i = HDR_BYTES then some ⟨0, [], place + length + 2⟩
    else none

theorem fieldEdit_inside (site : Site) (Xref field : Octets) :
    ∀ edit ∈ fieldEdit site Xref field, edit.start ≤ edit.stop ∧ edit.stop ≤ field.length := by
  intro edit hedit
  rw [fieldEdit] at hedit
  split at hedit
  · cases hedit
  next i _ =>
    dsimp only at hedit
    split at hedit
    · cases hedit
    next hvalue =>
      have hlt := fieldValue_lt hvalue
      split at hedit
      next hpath =>
        split at hedit
        · obtain rfl := Option.mem_some_iff.mp hedit
          have hlength := fieldValue_length hvalue (hpath ▸ plain_path _)
          have hskip := pathSkip_le site (fieldText site.xrefslave i field)
          have hvalue := List.length_take_le (fieldValue site.xrefslave i field).2
            (field.drop (fieldValue site.xrefslave i field).1)
          rw [← fieldText] at hvalue
          exact ⟨Nat.le_add_right .., by dsimp only; omega⟩
        · cases hedit
      next hpath =>
        split at hedit
        next hxref =>
          split at hedit
          · cases hedit
          next hslave =>
            obtain rfl := Option.mem_some_iff.mp hedit
            have hlength := fieldValue_length hvalue (hxref ▸ plain_xref hslave)
            exact ⟨Nat.le_add_right .., by dsimp only; omega⟩
        next hxref =>
          split at hedit
          next hbytes =>
            obtain rfl := Option.mem_some_iff.mp hedit
            have hlength := fieldValue_length hvalue (hbytes ▸ plain_bytes _)
            exact ⟨Nat.zero_le _, by dsimp only; omega⟩
          · cases hedit

def fieldSegment (site : Site) (Xref field : Octets) : Segment UInt8 :=
  ⟨field, fieldEdit site Xref field, fieldEdit_inside site Xref field⟩

theorem pathPrefix_plain {value : Octets} (hplain : (checkPath site value).extended site = false) :
    pathPrefix site value = [] ∧ pathSkip site value = 0 := by
  rw [pathPrefix, pathSkip]
  refine ⟨by simp [hplain], if_neg fun hcluster => ?_⟩
  rw [PathData.extended, Bool.or_eq_false_iff, Bool.not_eq_false', List.isEmpty_iff] at hplain
  rw [checkPath] at hcluster
  dsimp only at hcluster
  cases hname : site.pathcluster with
  | none =>
    rw [hname] at hcluster
    cases hcluster
  | some name =>
    rw [Site.Pathcluster, hname] at hplain
    exact absurd hplain.2 (by simp [hop, octets])

theorem fieldSegment_result (hfield : HeaderField field) :
    (fieldSegment site Xref field).result = storedField site (Xref ++ [CR, LF]) field := by
  have hnone : fieldEdit site Xref field = none → (fieldSegment site Xref field).result = field :=
    fun hedit => Segment.result_of_none hedit
  have hsome : ∀ edit, fieldEdit site Xref field = some edit →
      (fieldSegment site Xref field).result = field.take edit.start ++ edit.text ++
        field.drop edit.stop :=
    fun edit hedit => Segment.result_of_some hedit
  rw [fieldEdit] at hnone hsome
  rw [storedField]
  cases hheader : fieldHeader field with
  | none =>
    rw [hheader] at hnone
    exact hnone rfl
  | some i =>
    rw [hheader] at hnone hsome
    dsimp only at hnone hsome ⊢
    by_cases hvalue : (fieldValue site.xrefslave i field).2 = 0
    · rw [if_pos hvalue] at hnone ⊢
      exact hnone rfl
    rw [if_neg hvalue] at hnone hsome ⊢
    by_cases hpath : i = HDR_PATH
    · rw [if_pos hpath] at hnone hsome ⊢
      split at hnone
      next hextended =>
        rw [if_pos hextended] at hsome
        exact hsome _ rfl
      next hplain =>
        obtain ⟨hfront, hskip⟩ := pathPrefix_plain (Bool.eq_false_of_not_eq_true hplain)
        rw [hfront, hskip, List.append_nil, Nat.add_zero, List.take_append_drop]
        exact hnone rfl
    rw [if_neg hpath] at hnone hsome ⊢
    by_cases hxref : i = HDR_XREF
    · rw [if_pos hxref] at hnone hsome ⊢
      by_cases hslave : site.xrefslave
      · rw [if_pos hslave] at hnone ⊢
        exact hnone rfl
      rw [if_neg hslave] at hsome ⊢
      have hlength := fieldValue_length hvalue (hxref ▸ plain_xref hslave)
      obtain ⟨stem, hstem⟩ := hfield.ends
      have hdrop :
          field.drop ((fieldValue site.xrefslave i field).1 +
            (fieldValue site.xrefslave i field).2) =
          [CR, LF] := by
        have hsplit := congrArg List.length hstem
        rw [List.length_append, List.length_cons, List.length_singleton] at hsplit
        rw [show (fieldValue site.xrefslave i field).1 + (fieldValue site.xrefslave i field).2 =
          stem.length by omega,
          hstem, List.drop_left]
      rw [← hdrop, ← List.append_assoc]
      exact hsome _ rfl
    rw [if_neg hxref] at hnone hsome ⊢
    by_cases hbytes : i = HDR_BYTES
    · rw [if_pos hbytes] at hsome ⊢
      have hlength := fieldValue_length hvalue (hbytes ▸ plain_bytes _)
      rw [hsome _ rfl]
      rw [hlength, List.drop_length]
      rfl
    · rw [if_neg hbytes] at hnone ⊢
      exact hnone rfl

end Values

section Table

variable {xrefslave : Bool} {i : Nat} {fields : List Octets} {position : Nat}

def filled (xrefslave : Bool) (i : Nat) (fields : List (Nat × Octets)) : List (Nat × Octets) :=
  (named i fields).filter fun field => (fieldValue xrefslave i field.2).2 ≠ 0

structure Located (xrefslave : Bool) (i : Nat) (fields : List (Nat × Octets))
    (hc : HDRCONTENT) : Prop where
  missing : hc.Length = 0 → filled xrefslave i fields = []
  found : 0 < hc.Length → ∃ field, filled xrefslave i fields = [field] ∧
    hc = { Value := some (field.1 + (fieldValue xrefslave i field.2).1)
           Length := (fieldValue xrefslave i field.2).2 }

theorem enter_of_zero {hc : HDRCONTENT} (hzero : hc.Length = 0) (field : Nat × Octets) :
    enter xrefslave i hc field =
      { Value := some (field.1 + (fieldValue xrefslave i field.2).1)
        Length := (fieldValue xrefslave i field.2).2 } := by
  rw [enter, if_neg (not_not.mpr hzero)]

theorem located_required (hrequired : ARTheaders[i]?.any fun hp => hp.type = .HTreq)
    (fields : List (Nat × Octets)) : Located xrefslave i fields (contents xrefslave fields i) := by
  suffices hall : ∀ list : List (Nat × Octets),
      ((list.foldl (enter xrefslave i) { Value := none, Length := 0 }).Length = 0 →
        list.filter (fun field => (fieldValue xrefslave i field.2).2 ≠ 0) = []) ∧
      (0 < (list.foldl (enter xrefslave i) { Value := none, Length := 0 }).Length →
        ∃ field, list.filter (fun field => (fieldValue xrefslave i field.2).2 ≠ 0) = [field] ∧
          list.foldl (enter xrefslave i) { Value := none, Length := 0 } =
            { Value := some (field.1 + (fieldValue xrefslave i field.2).1)
              Length := (fieldValue xrefslave i field.2).2 }) from
    ⟨(hall (named i fields)).1, (hall (named i fields)).2⟩
  intro list
  induction list using List.reverseRecOn with
  | nil => exact ⟨fun _ => rfl, fun hpos => absurd hpos (Int.lt_irrefl 0)⟩
  | append_singleton list field ih =>
    rw [List.foldl_concat, List.filter_append]
    by_cases hzero : (list.foldl (enter xrefslave i) { Value := none, Length := 0 }).Length = 0
    · rw [enter_of_zero hzero, ih.1 hzero, List.nil_append]
      constructor
      · intro hempty
        exact List.filter_cons_of_neg (by simpa using hempty)
      · intro hpos
        exact ⟨field, List.filter_cons_of_pos (by simpa using (Int.ne_of_gt hpos)), rfl⟩
    · rw [enter, if_pos hzero, if_pos hrequired]
      exact ⟨fun h => absurd h (show ¬(-1 : Int) = 0 by decide),
        fun h => absurd h (show ¬(0 : Int) < -1 by decide)⟩

theorem located_single {fields : List (Nat × Octets)} (hsingle : (named i fields).length ≤ 1) :
    Located xrefslave i fields (contents xrefslave fields i) ∧
      0 ≤ (contents xrefslave fields i).Length := by
  rw [contents]
  rcases hnamed : named i fields with _ | ⟨field, _ | ⟨_, _⟩⟩
  · exact ⟨⟨fun _ => by rw [filled, hnamed]; rfl, fun hpos => absurd hpos (Int.lt_irrefl 0)⟩,
      Int.le_refl _⟩
  · rw [List.foldl_cons, List.foldl_nil, enter_of_zero rfl]
    refine ⟨⟨fun hempty => ?_, fun hpos => ⟨field, ?_, rfl⟩⟩, Int.natCast_nonneg _⟩
    · rw [filled, hnamed]
      exact List.filter_cons_of_neg (by simpa using hempty)
    · rw [filled, hnamed]
      exact List.filter_cons_of_pos (by simpa using (Int.ne_of_gt hpos))
  · rw [hnamed] at hsingle
    simp at hsingle

theorem named_length (i position : Nat) (fields : List Octets) :
    (named i (placed position fields)).length =
    (fields.filter fun field => fieldHeader field = some i).length := by
  induction fields generalizing position with
  | nil => rfl
  | cons field rest ih =>
    rw [placed, named, List.filter_cons, List.filter_cons]
    split
    · rw [List.length_cons, List.length_cons]
      exact congrArg (· + 1) (ih _)
    · exact ih _

theorem placed_pairwise (position : Nat) (fields : List Octets) :
    (placed position fields).Pairwise (fun field other => field.1 + field.2.length ≤ other.1) ∧
      ∀ field ∈ placed position fields, position ≤ field.1 := by
  induction fields generalizing position with
  | nil => exact ⟨.nil, nofun⟩
  | cons field rest ih =>
    obtain ⟨hrest, hbound⟩ := ih (position + field.length)
    refine ⟨List.pairwise_cons.mpr ⟨fun other hmem => hbound other hmem, hrest⟩,
      fun other hmem => ?_⟩
    rcases List.mem_cons.mp hmem with rfl | hmem
    · exact Nat.le_refl _
    · exact (Nat.le_add_right ..).trans (hbound other hmem)

theorem map_snd_placed (position : Nat) (fields : List Octets) :
    (placed position fields).map Prod.snd = fields := by
  induction fields generalizing position with
  | nil => rfl
  | cons field rest ih => rw [placed, List.map_cons, ih]

theorem drop_placed {data after : Octets} {field : Nat × Octets}
    (hdata : data.drop position = fields.flatten ++ after)
    (hmem : field ∈ placed position fields) : ∃ after', data.drop field.1 = field.2 ++ after' := by
  induction fields generalizing position with
  | nil => cases hmem
  | cons first rest ih =>
    rw [List.flatten_cons, List.append_assoc] at hdata
    rcases List.mem_cons.mp hmem with rfl | hmem
    · exact ⟨_, hdata⟩
    · refine ih ?_ hmem
      rw [← List.drop_drop, hdata, List.drop_left]

end Table

section Places

variable {site : Site} {data : Octets} {cp : Channel} {Start : Nat} {fields : List Octets}

def placeOf (xrefslave : Bool) (field : Nat × Octets) : Option HEADERP :=
  match fieldHeader field.2 with
  | none => none
  | some i =>
    if (i = HDR_PATH ∨ i = HDR_XREF ∨ i = HDR_BYTES) ∧ (fieldValue xrefslave i field.2).2 ≠ 0 then
      some ⟨field.1 + (fieldValue xrefslave i field.2).1, i⟩
    else none

theorem placeOf_eq_some {xrefslave : Bool} {field : Nat × Octets} {hp : HEADERP} :
    placeOf xrefslave field = some hp ↔
      (hp.index = HDR_PATH ∨ hp.index = HDR_XREF ∨ hp.index = HDR_BYTES) ∧
      fieldHeader field.2 = some hp.index ∧ (fieldValue xrefslave hp.index field.2).2 ≠ 0 ∧
      hp.p = field.1 + (fieldValue xrefslave hp.index field.2).1 := by
  rw [placeOf]
  cases hheader : fieldHeader field.2 with
  | none => simp
  | some i =>
    dsimp only
    constructor
    · intro hplace
      split at hplace
      next hedited =>
        obtain rfl := Option.some.inj hplace
        exact ⟨hedited.1, rfl, hedited.2, rfl⟩
      · cases hplace
    · rintro ⟨hedited, hindex, hvalue, hp⟩
      obtain rfl := Option.some.inj hindex
      rw [if_pos ⟨hedited, hvalue⟩, ← hp]

theorem mem_filled {xrefslave : Bool} {i : Nat} {fields : List (Nat × Octets)}
    {field : Nat × Octets} :
    field ∈ filled xrefslave i fields ↔
      field ∈ fields ∧ fieldHeader field.2 = some i ∧ (fieldValue xrefslave i field.2).2 ≠ 0 := by
  rw [filled, named, List.mem_filter, List.mem_filter, decide_eq_true_eq,
    decide_eq_true_eq, and_assoc]

theorem Collected.located (hcollected : Collected site.xrefslave data Start fields cp)
    (hregular : Regular site fields) (hpath : cp.HDR_FOUND HDR_PATH) {i : Nat}
    (hedited : i = HDR_PATH ∨ i = HDR_XREF ∨ i = HDR_BYTES) :
    (cp.HDR_FOUND i = false ∧ filled site.xrefslave i (placed Start fields) = []) ∨
      ∃ field, filled site.xrefslave i (placed Start fields) = [field] ∧ cp.HDR_FOUND i ∧
        cp.HDR i = field.1 + (fieldValue site.xrefslave i field.2).1 ∧
        cp.HDR_LEN i = (fieldValue site.xrefslave i field.2).2 := by
  have hlocated : Located site.xrefslave i (placed Start fields) (cp.HdrContent i) ∧
      0 ≤ (cp.HdrContent i).Length := by
    have hsingle : i ≠ HDR_PATH → Located site.xrefslave i (placed Start fields) (cp.HdrContent i) ∧
        0 ≤ (cp.HdrContent i).Length := by
      intro hne
      rw [hcollected.table]
      refine located_single ?_
      rw [named_length]
      rcases hedited with rfl | rfl | rfl
      · exact absurd rfl hne
      · exact hregular.xref
      · exact hregular.bytes
    by_cases hi : i = HDR_PATH
    · subst hi
      refine ⟨?_, (of_decide_eq_true hpath).le⟩
      rw [hcollected.table]
      exact located_required (by decide) _
    · exact hsingle hi
  obtain ⟨⟨hmissing, hfound⟩, hnonneg⟩ := hlocated
  by_cases hpos : 0 < (cp.HdrContent i).Length
  · obtain ⟨field, hfilled, hcontent⟩ := hfound hpos
    refine .inr ⟨field, hfilled, decide_eq_true hpos, ?_, ?_⟩
    · rw [Channel.HDR, hcontent, Option.getD_some]
    · rw [Channel.HDR_LEN, hcontent, Int.toNat_natCast]
  · exact .inl ⟨decide_eq_false hpos, hmissing (by omega)⟩

theorem mem_headerPlaces (hpath : cp.HDR_FOUND HDR_PATH) {hp : HEADERP} :
    hp ∈ headerPlaces cp ↔ (hp.index = HDR_PATH ∨ hp.index = HDR_XREF ∨ hp.index = HDR_BYTES) ∧
      cp.HDR_FOUND hp.index ∧ hp.p = cp.HDR hp.index := by
  obtain ⟨p, i⟩ := hp
  have hmem :
      ∀ j, (⟨p, i⟩ : HEADERP) ∈ (if cp.HDR_FOUND j then [(⟨cp.HDR j, j⟩ : HEADERP)] else []) ↔
      i = j ∧ cp.HDR_FOUND i ∧ p = cp.HDR i := by
    intro j
    split
    next hfound =>
      rw [List.mem_singleton, HEADERP.mk.injEq]
      constructor
      · rintro ⟨rfl, rfl⟩
        exact ⟨rfl, hfound, rfl⟩
      · rintro ⟨rfl, -, rfl⟩
        exact ⟨rfl, rfl⟩
    next hmissing =>
      refine ⟨nofun, ?_⟩
      rintro ⟨rfl, hfound, -⟩
      exact absurd hfound hmissing
  rw [headerPlaces, List.mem_append, List.mem_append, hmem, hmem]
  have hfirst := hmem HDR_PATH
  rw [if_pos hpath] at hfirst
  rw [hfirst]
  tauto

theorem headerPlaces_nodup (cp : Channel) : (headerPlaces cp).Nodup := by
  rw [headerPlaces]
  split <;> split <;> simp [HDR_PATH, HDR_XREF, HDR_BYTES]

theorem Collected.insertionSort_headerPlaces
    (hcollected : Collected site.xrefslave data Start fields cp)
    (hregular : Regular site fields) (hpath : cp.HDR_FOUND HDR_PATH) :
    (headerPlaces cp).insertionSort (fun a b => a.p ≤ b.p) = (placed Start fields).filterMap
    (placeOf site.xrefslave) := by
  have htotal : Std.Total fun a b : HEADERP => a.p ≤ b.p := ⟨fun _ _ => Nat.le_total _ _⟩
  have htrans : IsTrans HEADERP fun a b => a.p ≤ b.p := ⟨fun _ _ _ => Nat.le_trans⟩
  have hsorted :
      ((placed Start fields).filterMap (placeOf site.xrefslave)).Pairwise fun a b => a.p < b.p := by
    refine List.pairwise_filterMap.mpr ((placed_pairwise Start fields).1.imp ?_)
    intro field other hle hp hplace hp' hplace'
    obtain ⟨-, -, hvalue, hat⟩ := placeOf_eq_some.mp hplace
    obtain ⟨-, -, -, hat'⟩ := placeOf_eq_some.mp hplace'
    have := fieldValue_lt hvalue
    omega
  have hnodup : (((placed Start fields).filterMap (placeOf site.xrefslave)).map HEADERP.p).Nodup :=
    List.pairwise_map.mpr (hsorted.imp Nat.ne_of_lt)
  have hmem : ∀ hp, hp ∈ headerPlaces cp ↔
      hp ∈ (placed Start fields).filterMap (placeOf site.xrefslave) := by
    intro hp
    rw [mem_headerPlaces hpath, List.mem_filterMap]
    constructor
    · rintro ⟨hedited, hfound, hat⟩
      rcases hcollected.located hregular hpath hedited with ⟨hmissing, -⟩ | ⟨field,
        hfilled, -, hplace, -⟩
      · rw [hmissing] at hfound
        cases hfound
      · have hmem := mem_filled.mp (hfilled ▸ List.mem_singleton_self field)
        exact ⟨field, hmem.1, placeOf_eq_some.mpr ⟨hedited, hmem.2.1, hmem.2.2, hat.trans hplace⟩⟩
    · rintro ⟨field, hmem, hplace⟩
      obtain ⟨hedited, hheader, hvalue, hat⟩ := placeOf_eq_some.mp hplace
      have hfilled' := mem_filled.mpr ⟨hmem, hheader, hvalue⟩
      rcases hcollected.located hregular hpath hedited with ⟨-, hnone⟩ | ⟨field', hfilled,
        hfound, hplace', -⟩
      · rw [hnone] at hfilled'
        cases hfilled'
      · rw [hfilled, List.mem_singleton] at hfilled'
        exact ⟨hedited, hfound, hat.trans (hfilled' ▸ hplace'.symm)⟩
  have hperm := (List.perm_ext_iff_of_nodup (headerPlaces_nodup cp) hnodup.of_map).mpr hmem
  have hperm' := (List.perm_insertionSort (fun a b : HEADERP => a.p ≤ b.p) _).trans hperm
  refine List.Perm.eq_of_pairwise ?_ (List.pairwise_insertionSort _ _)
    (hsorted.imp Nat.le_of_lt) hperm'
  intro a b ha hb hle hge
  exact List.inj_on_of_nodup_map hnodup (hperm'.mem_iff.mp ha) hb (Nat.le_antisymm hle hge)

end Places

end Inn.Innd
