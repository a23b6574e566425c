import Inn.Foundation.Runs
import Inn.Nnrpd.Post

/-!
# Who gets an article that is posted

The groups decide together whether an article is refused, and whether it goes to a moderator.
Whether it is approved is asked before a header without a body is dropped.
-/

namespace Inn.Nnrpd.Post

open Foundation.Runs Foundation.Words Innd
open Newnews (PERMmatch)

section Groups

variable (cfg : Config)

def Config.moderated (g : Octets) : Bool := cfg.OVgroupstats g = some NF_FLAG_MODERATED

def Config.openTo (flag : UInt8) : Bool :=
  if flag = NF_FLAG_IGNORE || flag = NF_FLAG_JUNK || flag = NF_FLAG_NOLOCAL then cfg.locpost
    else flag ≠ NF_FLAG_ALIAS

def Config.mayPost (g : Octets) : Bool :=
  (!cfg.PERMspecified || PERMmatch cfg.PERMpostlist [g]) &&
    (cfg.OVgroupstats g).all cfg.openTo

/-- The groups that a server reads in a Newsgroups header. -/
def Config.groups (hdr : Octets) : List Octets :=
  ((hdr.splitOnP separates).filter (· ≠ [])).map cfg.group

/-- What stands between the commas, blanks and all. -/
def Config.pieces (hdr : Octets) : List Octets := ((hdr.splitOn 44).filter (· ≠ [])).map cfg.group

theorem strtok_comma (hdr : Octets) : strtok [44] hdr = (hdr.splitOn 44).filter (· ≠ []) := by
  have hcomma : ([44] : Octets).contains = (· == 44) := funext fun c => by
    rw [List.contains_cons, List.contains_nil, Bool.or_false]
  rw [strtok, words_eq_splitOnP, hcomma, List.splitOn_eq_splitOnP]

theorem pieces_eq (hdr : Octets) : cfg.pieces hdr = (strtok [44] hdr).map cfg.group := by
  rw [strtok_comma, Config.pieces]

theorem snprintf_ne_nil {text rest : Octets} (htext : text ≠ []) :
    snprintf SMBUF (text ++ rest) ≠ [] := by
  obtain ⟨c, text, rfl⟩ := List.exists_cons_of_ne_nil htext
  exact List.cons_ne_nil _ _

theorem judge_Error (approved : Bool) (p : Octets) (flag : UInt8) (s : Lookup) :
    (cfg.judge approved p flag s).Error ≠ [] ↔ s.Error ≠ [] ∨ cfg.openTo flag = false := by
  have hhere :
      snprintf SMBUF (octets "Postings to \"" ++ p ++ octets "\" are not allowed here") ≠ [] := by
    rw [List.append_assoc]
    exact snprintf_ne_nil (by decide)
  have hrenamed :
      snprintf SMBUF (octets "The newsgroup \"" ++ p ++ octets "\" has been renamed\n") ≠ [] := by
    rw [List.append_assoc]
    exact snprintf_ne_nil (by decide)
  rw [Config.judge, Config.openTo]
  by_cases hmoderated : flag = NF_FLAG_MODERATED
  · subst hmoderated
    have hopen : decide (NF_FLAG_MODERATED ≠ NF_FLAG_ALIAS) = true := by decide
    have hkind :
        ¬(decide (NF_FLAG_MODERATED = NF_FLAG_IGNORE) ||
          decide (NF_FLAG_MODERATED = NF_FLAG_JUNK) ||
        decide (NF_FLAG_MODERATED = NF_FLAG_NOLOCAL)) = true := by decide
    rw [if_pos rfl, if_neg hkind, hopen, or_iff_left (by decide : ¬true = false)]
    split <;> rfl
  rw [if_neg hmoderated]
  by_cases hkind : (flag = NF_FLAG_IGNORE || flag = NF_FLAG_JUNK || flag = NF_FLAG_NOLOCAL) = true
  · rw [if_pos hkind, if_pos hkind]
    cases cfg.locpost with
    | true => exact (or_iff_left (by decide)).symm
    | false => exact iff_of_true hhere (.inr rfl)
  · rw [if_neg hkind, if_neg hkind]
    by_cases halias : flag = NF_FLAG_ALIAS
    · rw [if_pos halias]
      exact iff_of_true hrenamed (.inr (by simpa using halias))
    · rw [if_neg halias]
      exact (or_iff_left (by simpa using halias)).symm

theorem lookUp_Error (approved : Bool) (s : Lookup) (p : Octets) :
    decide ((cfg.lookUp approved s p).Error ≠ []) =
      (decide (s.Error ≠ []) || !cfg.mayPost (cfg.group p)) := by
  have hdenied :
      snprintf SMBUF (octets "You are not allowed to post to " ++ cfg.group p ++ octets "\r\n") ≠
      [] := by
    rw [List.append_assoc]
    exact snprintf_ne_nil (by decide)
  have hasked (s' : Lookup) (hs' : s' =
      if cfg.PERMspecified && !PERMmatch cfg.PERMpostlist [cfg.group p] then
        { s with Error := snprintf SMBUF (octets "You are not allowed to post to " ++ cfg.group p ++
          octets "\r\n") }
      else s) : s'.Error ≠ [] ↔ s.Error ≠ [] ∨
        (!cfg.PERMspecified || PERMmatch cfg.PERMpostlist [cfg.group p]) = false := by
    subst hs'
    split
    next hlist => exact iff_of_true hdenied (.inr (by simpa using hlist))
    next hlist => exact (or_iff_left (by simpa using hlist)).symm
  rw [Config.mayPost, Bool.eq_iff_iff, decide_eq_true_eq, Bool.or_eq_true, decide_eq_true_eq,
    Bool.not_eq_true',
    Bool.and_eq_false_iff, ← or_assoc, ← hasked _ rfl, Config.lookUp]
  cases hstats : cfg.OVgroupstats (cfg.group p) with
  | none => exact (or_iff_left (by simp)).symm
  | some flag => exact judge_Error cfg approved _ flag _

theorem judge_FoundOne (approved : Bool) (p : Octets) (flag : UInt8) (s : Lookup) :
    (cfg.judge approved p flag s).FoundOne = s.FoundOne := by
  rw [Config.judge]
  split_ifs <;> rfl

theorem lookUp_FoundOne (approved : Bool) (s : Lookup) (p : Octets) :
    (cfg.lookUp approved s p).FoundOne =
    (s.FoundOne || (cfg.OVgroupstats (cfg.group p)).isSome) := by
  rw [Config.lookUp]
  cases hstats : cfg.OVgroupstats (cfg.group p) with
  | none =>
    dsimp only
    split <;> simp
  | some flag =>
    dsimp only
    rw [judge_FoundOne]
    simp

theorem judge_modgroup (approved : Bool) (p : Octets) (flag : UInt8) (s : Lookup) :
    (cfg.judge approved p flag s).modgroup =
      if !approved && flag = NF_FLAG_MODERATED then s.modgroup.or (some p) else s.modgroup := by
  rw [Config.judge]
  by_cases hmoderated : flag = NF_FLAG_MODERATED
  · rw [if_pos hmoderated]
    cases approved with
    | true => simp
    | false => cases hmodgroup : s.modgroup <;> simp [hmoderated, hmodgroup]
  · rw [if_neg hmoderated]
    split_ifs <;> simp_all

theorem lookUp_modgroup (approved : Bool) (s : Lookup) (p : Octets) :
    (cfg.lookUp approved s p).modgroup =
      if !approved && cfg.moderated (cfg.group p) then s.modgroup.or (some (cfg.group p))
        else s.modgroup := by
  rw [Config.lookUp, Config.moderated]
  cases hstats : cfg.OVgroupstats (cfg.group p) with
  | none =>
    dsimp only
    split <;> simp
  | some flag =>
    dsimp only
    rw [judge_modgroup]
    have hasked (b : Bool) (Error : Octets) :
        (if b then { s with Error := Error } else s).modgroup = s.modgroup := by
      cases b <;> rfl
    rw [hasked]
    simp

end Groups

section Loops

variable (cfg : Config) (approved : Bool) (tokens : List Octets) (s : Lookup)

theorem loop_Error : (tokens.foldl (cfg.lookUp approved) s).Error ≠ [] ↔
    s.Error ≠ [] ∨ ∃ g ∈ tokens.map cfg.group, cfg.mayPost g = false := by
  have hset :=
    foldl_set _ (fun s : Lookup => decide (s.Error ≠ [])) (lookUp_Error cfg approved) tokens s
  simpa using hset

theorem loop_FoundOne : (tokens.foldl (cfg.lookUp approved) s).FoundOne = true ↔
    s.FoundOne = true ∨ ∃ g ∈ tokens.map cfg.group, (cfg.OVgroupstats g).isSome := by
  have hset := foldl_set _ Lookup.FoundOne (lookUp_FoundOne cfg approved) tokens s
  simpa using hset

theorem loop_modgroup : (tokens.foldl (cfg.lookUp approved) s).modgroup =
    if approved then s.modgroup else s.modgroup.or
      ((tokens.map cfg.group).find? cfg.moderated) := by
  induction tokens generalizing s with
  | nil => cases approved <;> simp
  | cons p tokens ih =>
    rw [List.foldl_cons, ih, lookUp_modgroup, List.map_cons, List.find?_cons]
    cases approved with
    | true => rfl
    | false =>
      cases cfg.moderated (cfg.group p) with
      | true => cases hmodgroup : s.modgroup <;> simp
      | false => simp

end Loops

section Validity

variable (cfg : Config) (t : Headers) (hdr : Octets)

/-- ValidNewsgroups has nothing against what stands between the commas. -/
def Config.allows : Prop :=
  cfg.pieces hdr ≠ [] ∧ ((t.HDR HDR_APPROVED).isSome → cfg.allowapproved = true) ∧
    (∀ g ∈ cfg.pieces hdr, cfg.mayPost g = true) ∧
    ((∃ g ∈ cfg.pieces hdr, (cfg.OVgroupstats g).isSome) ∨ IsNewgroup t = true)

theorem loop_error_eq_nil {tokens : List Octets} (htokens : tokens ≠ [])
    (hgroups : cfg.pieces hdr = tokens.map cfg.group) :
    let approved := (t.HDR HDR_APPROVED).isSome
    let Error :=
      if approved && !cfg.allowapproved then octets
      "You are not allowed to approve postings" else []
    let s := tokens.foldl (cfg.lookUp approved) ⟨Error, false, none, []⟩
    (if !s.FoundOne && !IsNewgroup t then
        snprintf SMBUF (octets "No valid newsgroups in \"" ++ MaxLength hdr ++ octets "\"")
      else s.Error) = [] ↔ cfg.allows t hdr := by
  intro approved Error s
  have hinvalid :
      snprintf SMBUF (octets "No valid newsgroups in \"" ++ MaxLength hdr ++ octets "\"") ≠ [] := by
    rw [List.append_assoc]
    exact snprintf_ne_nil (by decide)
  have hError : Error = [] ↔ (approved = true → cfg.allowapproved = true) := by
    have hne : octets "You are not allowed to approve postings" ≠ [] := by decide
    show (if approved && !cfg.allowapproved then _ else _) = [] ↔ _
    cases approved <;> cases cfg.allowapproved <;> simp [hne]
  have hloop : s.Error = [] ↔ Error = [] ∧ ∀ g ∈ cfg.pieces hdr, cfg.mayPost g = true := by
    have h := not_congr (loop_Error cfg approved tokens ⟨Error, false, none, []⟩)
    rw [not_not, not_or, not_not, ← hgroups] at h
    simpa using h
  have hfound : s.FoundOne = true ↔ ∃ g ∈ cfg.pieces hdr, (cfg.OVgroupstats g).isSome := by
    have h := loop_FoundOne cfg approved tokens ⟨Error, false, none, []⟩
    rw [← hgroups] at h
    simpa using h
  have hne : cfg.pieces hdr ≠ [] := by
    rw [hgroups]
    simpa using htokens
  rw [Config.allows, and_iff_right hne, ← and_assoc, ← hfound]
  change _ ↔ ((approved = true → _) ∧ _) ∧ _
  rw [← hError, ← hloop]
  split
  next hnone =>
    rw [Bool.and_eq_true, Bool.not_eq_true', Bool.not_eq_true'] at hnone
    refine iff_of_false hinvalid fun h => ?_
    rcases h.2 with hfound | hnew
    · exact absurd (hnone.1.symm.trans hfound) (by decide)
    · exact absurd (hnone.2.symm.trans hnew) (by decide)
  next hsome =>
    rw [Bool.and_eq_true, not_and_or, Bool.not_eq_true', Bool.not_eq_true', Bool.not_eq_false,
      Bool.not_eq_false] at hsome
    exact (and_iff_left hsome).symm

theorem ValidNewsgroups_error (hallows : ¬cfg.allows t hdr) :
    ∃ error, cfg.ValidNewsgroups t hdr = .error error := by
  rw [Config.ValidNewsgroups]
  cases htokens : strtok [44] hdr with
  | nil => exact ⟨_, rfl⟩
  | cons p tokens =>
    have hnil :=
      loop_error_eq_nil cfg t hdr (List.cons_ne_nil p tokens) (by rw [pieces_eq, htokens])
    dsimp only at hnil ⊢
    rw [if_pos (mt hnil.mp hallows)]
    exact ⟨_, rfl⟩

theorem setDistribution_of_ne (checked : List Octets) :
    ∀ i ≠ HDR_DISTRIBUTION, cfg.setDistribution t checked i = t i := by
  intro i hi
  rw [Config.setDistribution]
  split
  · exact Function.update_of_ne hi _ _
  · rfl

theorem ValidNewsgroups_ok (hallows : cfg.allows t hdr) :
    ∃ t', cfg.ValidNewsgroups t hdr =
        .ok (if (t.HDR HDR_APPROVED).isSome then none else (cfg.pieces hdr).find? cfg.moderated,
          t') ∧
      ∀ i ≠ HDR_DISTRIBUTION, t' i = t i := by
  rw [Config.ValidNewsgroups]
  cases htokens : strtok [44] hdr with
  | nil => exact absurd (by rw [pieces_eq, htokens]; rfl) hallows.1
  | cons p tokens =>
    have hgroups : cfg.pieces hdr = (p :: tokens).map cfg.group := by rw [pieces_eq, htokens]
    have hnil := loop_error_eq_nil cfg t hdr (List.cons_ne_nil p tokens) hgroups
    dsimp only at hnil ⊢
    rw [if_neg (not_not.mpr (hnil.mpr hallows)), loop_modgroup, Option.none_or, ← hgroups]
    exact ⟨_, rfl, setDistribution_of_ne cfg t _⟩

end Validity

section Frames

def Sets (changed : List Nat) (t t' : Headers) : Prop := ∀ i ∉ changed, t' i = t i

variable {t t' t'' : Headers} {changed changed' : List Nat}

theorem Sets.refl : Sets changed t t := fun _ _ => rfl

theorem Sets.trans (h : Sets changed t t') (h' : Sets changed' t' t'') :
    Sets (changed ++ changed') t t'' := by
  intro i hi
  rw [List.mem_append, not_or] at hi
  exact (h' i hi.2).trans (h i hi.1)

theorem Sets.HDR_SET (hdr : Nat) (y : Octets) : Sets [hdr] t (t.HDR_SET hdr y) :=
  fun i hi => Function.update_of_ne (by simpa using hi) _ _

theorem Sets.HDR_CLEAR (hdr : Nat) : Sets [hdr] t (t.HDR_CLEAR hdr) :=
  fun i hi => Function.update_of_ne (by simpa using hi) _ _

variable (cfg : Config) {datebuff idbuff : Octets} {needmoderation : Bool}

theorem setInjectionDate_sets (h : cfg.setInjectionDate datebuff needmoderation t = .ok t') :
    Sets [HDR_INJECTION_DATE] t t' := by
  rw [Config.setInjectionDate] at h
  split at h
  · split at h <;> obtain rfl := Except.ok.inj h
    · exact .HDR_SET _ _
    · exact .refl
  · split at h
    · exact absurd h nofun
    · split at h
      · exact absurd h nofun
      · cases h
        exact .refl

theorem setSender_sets : Sets [HDR_SENDER] t (cfg.setSender t) := by
  rw [Config.setSender]
  split
  · split
    · exact .HDR_SET _ _
    · exact .HDR_CLEAR _
  · exact .refl

theorem setDate_sets (h : cfg.setDate datebuff t = .ok t') : Sets [HDR_DATE] t t' := by
  rw [Config.setDate] at h
  split at h
  · split at h
    · split at h
      · exact absurd h nofun
      · cases h
        exact .HDR_SET _ _
    · cases h
      exact .HDR_SET _ _
  · split at h
    · exact absurd h nofun
    · split_ifs at h
      cases h
      exact .refl

theorem setMessageID_sets (h : cfg.setMessageID idbuff t = .ok t') : Sets [HDR_MESSAGEID] t t' := by
  rw [Config.setMessageID] at h
  split at h
  · split at h
    · cases h
      exact .HDR_SET _ _
    · exact absurd h nofun
  · split at h
    · cases h
      exact .refl
    · exact absurd h nofun

theorem injectPath_sets {addvirtual : Bool} :
    Sets [HDR_PATH] t (cfg.injectPath needmoderation addvirtual t) := by
  rw [Config.injectPath]
  split
  · exact .HDR_SET _ _
  · exact .refl

theorem startPath_sets : Sets [HDR_PATH] t (cfg.startPath needmoderation t) := by
  rw [Config.startPath]
  split_ifs
  · exact .HDR_SET _ _
  · exact .HDR_CLEAR _
  · exact .refl

theorem setPath_sets (h : cfg.setPath needmoderation t = .ok t') :
    Sets [HDR_PATH, HDR_PATH] t t' := by
  rw [Config.setPath] at h
  split at h
  · split at h
    · exact absurd h nofun
    · cases h
      exact (Sets.refl : Sets [HDR_PATH] t t).trans (injectPath_sets cfg)
  · cases h
    exact (startPath_sets cfg).trans (injectPath_sets cfg)

theorem setOrganization_sets : Sets [HDR_ORGANIZATION] t (cfg.setOrganization t) := by
  rw [Config.setOrganization]
  split
  · exact .HDR_SET _ _
  · exact .refl

theorem setInjectionInfo_sets :
    Sets [HDR_INJECTION_INFO] t (cfg.setInjectionInfo needmoderation t) := by
  rw [Config.setInjectionInfo]
  split
  · exact .HDR_SET _ _
  · exact .refl

theorem stripCc_sets : Sets [HDR_CC, HDR_BCC, HDR_TO] t (cfg.stripCc t) := by
  rw [Config.stripCc]
  split
  · exact ((Sets.HDR_CLEAR HDR_CC).trans (.HDR_CLEAR HDR_BCC)).trans (.HDR_CLEAR HDR_TO)
  · exact .refl

def fixed (field : Field) : Option Field :=
  if TrimSpaces field.Value = 0 then none else some { field with Len := TrimSpaces field.Value }

theorem fixup_eq {hdr : Nat} {hp : HEADER} (h : cfg.fixup t hdr hp = .ok t') :
    t' = Function.update t hdr ((t hdr).bind fixed) := by
  rw [Config.fixup] at h
  cases hfield : t hdr with
  | none =>
    rw [hfield] at h
    cases h
    rw [Option.bind_none, ← hfield, Function.update_eq_self]
  | some field =>
    rw [hfield] at h
    rw [Option.bind_some, fixed]
    dsimp only at h
    split at h
    · exact absurd h nofun
    · split at h
      next hempty =>
        rw [if_pos hempty]
        exact (Except.ok.inj h).symm
      next hempty =>
        rw [if_neg hempty]
        split at h
        · exact absurd h nofun
        · exact (Except.ok.inj h).symm

theorem foldlM_fixup {l : List (HEADER × Nat)} (hnodup : (l.map Prod.snd).Nodup)
    (h : l.foldlM (fun t (entry : HEADER × Nat) => cfg.fixup t entry.2 entry.1) t = .ok t')
    (i : Nat) :
    t' i = if i ∈ l.map Prod.snd then (t i).bind fixed else t i := by
  induction l generalizing t with
  | nil =>
    cases h
    rfl
  | cons entry l ih =>
    obtain ⟨t₁, hfixup, hrest⟩ := bind_ok h
    rw [List.map_cons, List.nodup_cons] at hnodup
    obtain rfl := fixup_eq cfg hfixup
    rw [ih hnodup.2 hrest, List.map_cons]
    by_cases hi : i = entry.2
    · subst hi
      rw [if_neg hnodup.1, if_pos List.mem_cons_self, Function.update_self]
    · rw [Function.update_of_ne hi]
      exact if_congr (by rw [List.mem_cons, or_iff_right hi]) rfl rfl

theorem fixups_Approved (h : cfg.fixups t = .ok t') :
    t' HDR_APPROVED = (t HDR_APPROVED).bind fixed := by
  have hsnd : Table.zipIdx.map Prod.snd = List.range 44 := by decide
  have h' := foldlM_fixup cfg (by rw [hsnd]; exact List.nodup_range) h HDR_APPROVED
  rw [h', hsnd, if_pos (by decide)]

theorem ProcessHeaders_Approved {OtherHeaders : List Octets}
    (h : cfg.ProcessHeaders idbuff needmoderation OtherHeaders t = .ok t') :
    t' HDR_APPROVED = (t HDR_APPROVED).bind fixed := by
  rw [Config.ProcessHeaders] at h
  cases hdate : cfg.datebuff with
  | none =>
    rw [hdate] at h
    exact absurd h nofun
  | some datebuff =>
    rw [hdate] at h
    obtain ⟨t₁, hfixups, h⟩ := bind_ok h
    obtain ⟨t₂, hinjection, h⟩ := bind_ok h
    obtain ⟨t₃, hdate, h⟩ := bind_ok h
    obtain ⟨-, -, h⟩ := bind_ok h
    obtain ⟨t₄, hmessageID, h⟩ := bind_ok h
    obtain ⟨t₅, hpath, h⟩ := bind_ok h
    obtain ⟨-, -, h⟩ := bind_ok h
    obtain ⟨-, -, h⟩ := bind_ok h
    obtain ⟨-, -, h⟩ := bind_ok h
    split at h
    · cases h
      have hsets := ((((((setInjectionDate_sets cfg hinjection).trans (setSender_sets cfg)).trans
        (setDate_sets cfg hdate)).trans (setMessageID_sets cfg hmessageID)).trans
          (setPath_sets cfg hpath)).trans
        (setOrganization_sets cfg)).trans
          ((setInjectionInfo_sets cfg : Sets _ _ (cfg.setInjectionInfo needmoderation _)).trans
        (stripCc_sets cfg))
      exact (hsets HDR_APPROVED (by decide)).trans (fixups_Approved cfg hfixups)
    · exact absurd h nofun

theorem checkFollowup_sets (h : cfg.checkFollowup t = .ok t') : Sets [HDR_DISTRIBUTION] t t' := by
  rw [Config.checkFollowup] at h
  split at h
  · cases h
    exact .refl
  next p _ =>
    split at h
    · cases h
      exact .refl
    · by_cases hallows : cfg.allows t p
      · obtain ⟨t₁, hvalid, hset⟩ := ValidNewsgroups_ok cfg t p hallows
        rw [hvalid] at h
        cases h
        exact fun i hi => hset i (by simpa using hi)
      · obtain ⟨error, herror⟩ := ValidNewsgroups_error cfg t p hallows
        rw [herror] at h
        exact absurd h nofun

theorem checkRest_Approved {stripped : Article}
    (h : cfg.checkRest idbuff stripped needmoderation t = .ok t') :
    t' HDR_APPROVED = (t HDR_APPROVED).bind fixed := by
  rw [Config.checkRest] at h
  obtain ⟨t₁, hprocess, h⟩ := bind_ok h
  obtain ⟨-, -, h⟩ := bind_ok h
  obtain ⟨-, -, h⟩ := bind_ok h
  obtain ⟨t₂, hfollowup, h⟩ := bind_ok h
  obtain ⟨-, -, h⟩ := bind_ok h
  cases h
  exact (checkFollowup_sets cfg hfollowup HDR_APPROVED (by decide)).trans
    (ProcessHeaders_Approved cfg hprocess)

end Frames

section Delivery

variable (cfg : Config) {article idbuff hdr : Octets} {stripped : Article}

def Headers.approved (t : Headers) : Prop :=
    ∃ field, t HDR_APPROVED = some field ∧ TrimSpaces field.Value ≠ 0

theorem ARTpost_ok (hstrip : StripOffHeaders article = .ok stripped)
    (hhdr : stripped.headers.HDR HDR_NEWSGROUPS = some hdr) {delivery : Delivery}
    {accepted : Article} :
    cfg.ARTpost article idbuff = .ok (delivery, accepted) ↔
      cfg.checkText stripped.body = .ok () ∧
        ∃ modgroup t t', cfg.ValidNewsgroups stripped.headers hdr = .ok (modgroup, t) ∧
        cfg.checkRest idbuff stripped modgroup.isSome t = .ok t' ∧ delivery = .to modgroup ∧
        accepted = { stripped with headers := t' } := by
  have hgroups : cfg.checkGroups stripped = cfg.ValidNewsgroups stripped.headers hdr := by
    rw [Config.checkGroups, hhdr]
  constructor
  · intro h
    rw [Config.ARTpost] at h
    obtain ⟨stripped', hstrip', h⟩ := bind_ok h
    cases hstrip.symm.trans hstrip'
    obtain ⟨⟨⟩, htext, h⟩ := bind_ok h
    obtain ⟨⟨modgroup, t⟩, hvalid, h⟩ := bind_ok h
    obtain ⟨t', hrest, h⟩ := bind_ok h
    cases h
    exact ⟨htext, modgroup, t, t', hgroups ▸ hvalid, hrest, rfl, rfl⟩
  · rintro ⟨htext, modgroup, t, t', hvalid, hrest, rfl, rfl⟩
    rw [← hgroups] at hvalid
    rw [Config.ARTpost, hstrip]
    change (cfg.checkText stripped.body >>= _) = _
    rw [htext]
    change (cfg.checkGroups stripped >>= _) = _
    rw [hvalid]
    change (cfg.checkRest idbuff stripped modgroup.isSome t >>= _) = _
    rw [hrest]
    rfl

theorem ARTpost_error (hstrip : StripOffHeaders article = .ok stripped)
    (hhdr : stripped.headers.HDR HDR_NEWSGROUPS = some hdr)
    (hallows : ¬cfg.allows stripped.headers hdr) :
    ∃ error, cfg.ARTpost article idbuff = .error error := by
  cases hpost : cfg.ARTpost article idbuff with
  | error error => exact ⟨error, rfl⟩
  | ok result =>
    obtain ⟨-, modgroup, t, -, hvalid, -⟩ := (ARTpost_ok cfg hstrip hhdr).mp hpost
    obtain ⟨error, herror⟩ := ValidNewsgroups_error cfg stripped.headers hdr hallows
    exact absurd (herror.symm.trans hvalid) nofun

/-- An article is treated as its groups ask for. -/
structure Config.Posted (article idbuff hdr : Octets) (stripped : Article) : Prop where
  moderation : ∀ delivery accepted, cfg.ARTpost article idbuff = .ok (delivery, accepted) →
    ¬accepted.headers.approved → ∀ g, (cfg.groups hdr).find? cfg.moderated = some g →
      delivery = .mailed g
  approval : (stripped.headers.HDR HDR_APPROVED).isSome → cfg.allowapproved = false →
    ∃ error, cfg.ARTpost article idbuff = .error error
  permission : (∃ g ∈ cfg.groups hdr, cfg.mayPost g = false) →
    ∃ error, cfg.ARTpost article idbuff = .error error
  existence : (∀ g ∈ cfg.groups hdr, cfg.OVgroupstats g = none) →
    IsNewgroup stripped.headers = false →
    ∃ error, cfg.ARTpost article idbuff = .error error
  order : ∀ hdr', (hdr'.splitOn 44).Perm (hdr.splitOn 44) →
    ((∃ r, cfg.ValidNewsgroups stripped.headers hdr' = .ok r) ↔
      ∃ r, cfg.ValidNewsgroups stripped.headers hdr = .ok r)

/-- Without an approval, the first moderated group has no blanks around it, and no empty header
stands for the approval; a group that has blanks wherever it is named is one that the user may post
to. -/
structure Config.Plain (hdr : Octets) (t : Headers) : Prop where
  moderation : ¬t.approved → ∀ g, (cfg.groups hdr).find? cfg.moderated = some g →
    t HDR_APPROVED = none ∧ (cfg.pieces hdr).find? cfg.moderated = some g
  permission : ∀ g ∈ cfg.groups hdr, g ∉ cfg.pieces hdr → cfg.mayPost g = true

theorem valid_iff (t : Headers) (hdr : Octets) : (∃ r, cfg.ValidNewsgroups t hdr = .ok r) ↔
    cfg.allows t hdr := by
  constructor
  · rintro ⟨r, hvalid⟩
    by_contra hallows
    obtain ⟨error, herror⟩ := ValidNewsgroups_error cfg t hdr hallows
    exact absurd (herror.symm.trans hvalid) nofun
  · intro hallows
    obtain ⟨t', hvalid, -⟩ := ValidNewsgroups_ok cfg t hdr hallows
    exact ⟨_, hvalid⟩

theorem allows_perm (t : Headers) {hdr hdr' : Octets}
    (hperm : (hdr'.splitOn 44).Perm (hdr.splitOn 44)) :
    cfg.allows t hdr' ↔ cfg.allows t hdr := by
  have hpieces : (cfg.pieces hdr').Perm (cfg.pieces hdr) := (hperm.filter _).map _
  have hne : cfg.pieces hdr' ≠ [] ↔ cfg.pieces hdr ≠ [] := by
    rw [← List.length_pos_iff, ← List.length_pos_iff, hpieces.length_eq]
  rw [Config.allows, Config.allows, hne]
  simp only [hpieces.mem_iff]

/-- A group that is looked up and exists is one that a server reads in the header. -/
theorem mem_groups {g : Octets} (hg : g ∈ cfg.pieces hdr) (hexists : (cfg.OVgroupstats g).isSome) :
    g ∈ cfg.groups hdr := by
  obtain ⟨p, hp, rfl⟩ := List.mem_map.mp hg
  obtain ⟨hp, hne⟩ := List.mem_filter.mp hp
  have hseparates (c : UInt8) (hc : (c == 44) = true) : separates c = true := by
    rw [beq_iff_eq] at hc
    rw [hc]
    rfl
  rw [List.splitOn_eq_splitOnP] at hp
  have hword := takeWhile_mem_splitOnP hseparates hp
  generalize hw : p.takeWhile (fun c => !separates c) = word at hword
  have hmem (hsome : word ≠ []) : cfg.group word ∈ cfg.groups hdr :=
    List.mem_map_of_mem (List.mem_filter.mpr ⟨hword, by simpa using hsome⟩)
  by_cases hmerged : (cfg.mergetogroups && p.take 3 = octets "to.") = true
  · -- the first three octets are none that a server stops at
    obtain ⟨hon, hto⟩ := Bool.and_eq_true_iff.mp hmerged
    have hsplit : p = octets "to." ++ p.drop 3 := by
      rw [← of_decide_eq_true hto, List.take_append_drop]
    have hbegins : word = octets "to." ++ (p.drop 3).takeWhile (fun c => !separates c) := by
      rw [← hw, hsplit]
      exact List.takeWhile_append_of_pos (List.all_eq_true.mp (by decide))
    have hmergedWord : (cfg.mergetogroups && word.take 3 = octets "to.") = true := by
      rw [hbegins, hon]
      rfl
    have hto' := hmem (by rw [hbegins]; exact List.cons_ne_nil _ _)
    rw [Config.group, if_pos hmergedWord] at hto'
    rwa [Config.group, if_pos hmerged]
  · rw [Config.group, if_neg hmerged] at hexists ⊢
    have hwhole : word = p := by
      rw [← hw, List.takeWhile_eq_self_iff]
      intro c hc
      rw [cfg.named p hexists c hc, Bool.not_false]
    have hp' := hmem (by rw [hwhole]; simpa using hne)
    rwa [hwhole, Config.group, if_neg hmerged] at hp'

theorem valid_modgroup {t t' : Headers} {modgroup : Option Octets}
    (hvalid : cfg.ValidNewsgroups t hdr = .ok (modgroup, t')) :
    modgroup = (if (t.HDR HDR_APPROVED).isSome then none
      else (cfg.pieces hdr).find? cfg.moderated) ∧
      t' HDR_APPROVED = t HDR_APPROVED := by
  obtain ⟨t'', hvalid', hset⟩ := ValidNewsgroups_ok cfg t hdr ((valid_iff cfg t hdr).mp ⟨_, hvalid⟩)
  cases hvalid.symm.trans hvalid'
  exact ⟨rfl, hset HDR_APPROVED (by decide)⟩

theorem ARTpost_allows (hstrip : StripOffHeaders article = .ok stripped)
    (hhdr : stripped.headers.HDR HDR_NEWSGROUPS = some hdr) {result : Delivery × Article}
    (hpost : cfg.ARTpost article idbuff = .ok result) : cfg.allows stripped.headers hdr := by
  by_contra hallows
  obtain ⟨error, herror⟩ : ∃ error, cfg.ARTpost article idbuff = .error error :=
    ARTpost_error cfg hstrip hhdr hallows
  exact absurd (herror.symm.trans hpost) nofun

theorem approved_iff {t t' : Headers} (hfixed : t' HDR_APPROVED = (t HDR_APPROVED).bind fixed) :
    t'.approved ↔ t.approved := by
  rw [Headers.approved, Headers.approved, hfixed]
  cases t HDR_APPROVED with
  | none => exact ⟨nofun, nofun⟩
  | some field =>
    rw [Option.bind_some, fixed]
    split
    next hblank =>
      refine ⟨nofun, ?_⟩
      rintro ⟨_, heq, hsome⟩
      cases heq
      exact absurd hblank hsome
    next hsome => exact ⟨fun _ => ⟨field, rfl, hsome⟩, fun _ => ⟨_, rfl, hsome⟩⟩

theorem posted_of_plain (hstrip : StripOffHeaders article = .ok stripped)
    (hhdr : stripped.headers.HDR HDR_NEWSGROUPS = some hdr)
    (hplain : cfg.Plain hdr stripped.headers) :
    cfg.Posted article idbuff hdr stripped where
  moderation delivery accepted hpost hnot g hg := by
    obtain ⟨-, modgroup, t, t', hvalid, hrest, rfl, rfl⟩ := (ARTpost_ok cfg hstrip hhdr).mp hpost
    obtain ⟨rfl, hsame⟩ := valid_modgroup cfg hvalid
    have hfixed := checkRest_Approved cfg hrest
    rw [hsame] at hfixed
    obtain ⟨hnone, hfirst⟩ :=
      hplain.moderation (fun happroved => hnot ((approved_iff hfixed).mpr happroved)) g hg
    rw [Headers.HDR, hnone, Option.map_none, Option.isSome_none, if_neg (by decide), hfirst]
    rfl
  approval hsome hallow :=
    ARTpost_error cfg hstrip hhdr fun hallows =>
      absurd ((hallows.2.1 hsome).symm.trans hallow) nofun
  permission := by
    rintro ⟨g, hg, hmay⟩
    by_cases hpiece : g ∈ cfg.pieces hdr
    · exact ARTpost_error cfg hstrip hhdr fun hallows =>
        absurd ((hallows.2.2.1 g hpiece).symm.trans hmay) nofun
    · exact absurd ((hplain.permission g hg hpiece).symm.trans hmay) nofun
  existence hnone hnew := by
    refine ARTpost_error cfg hstrip hhdr fun hallows => ?_
    rcases hallows.2.2.2 with ⟨g, hg, hsome⟩ | hsome
    · rw [hnone g (mem_groups cfg hg hsome)] at hsome
      exact absurd hsome nofun
    · exact absurd (hsome.symm.trans hnew) nofun
  order hdr' hperm := by rw [valid_iff, valid_iff, allows_perm cfg _ hperm]

/-- An article is treated as it should be when its groups are plain, and one that no check refuses
is treated so only then. -/
theorem posted_iff (hstrip : StripOffHeaders article = .ok stripped)
    (hhdr : stripped.headers.HDR HDR_NEWSGROUPS = some hdr) :
    (cfg.Plain hdr stripped.headers → cfg.Posted article idbuff hdr stripped) ∧
      ∀ result, cfg.ARTpost article idbuff = .ok result →
        (cfg.Posted article idbuff hdr stripped ↔ cfg.Plain hdr stripped.headers) := by
  refine ⟨posted_of_plain cfg hstrip hhdr, fun result hpost =>
    ⟨fun hposted => ⟨fun hnot g hg => ?_, fun g hg _ => ?_⟩, posted_of_plain cfg hstrip hhdr⟩⟩
  · obtain ⟨delivery, accepted⟩ := result
    obtain ⟨-, modgroup, t, t', hvalid, hrest, hdelivery, rfl⟩ :=
      (ARTpost_ok cfg hstrip hhdr).mp hpost
    obtain ⟨hmodgroup, hsame⟩ := valid_modgroup cfg hvalid
    have hfixed := checkRest_Approved cfg hrest
    rw [hsame] at hfixed
    have hmailed := hposted.moderation delivery _ hpost
      (fun happroved => hnot ((approved_iff hfixed).mp happroved)) g hg
    rw [hdelivery] at hmailed
    cases modgroup with
    | none => exact absurd hmailed nofun
    | some first =>
      obtain rfl := Delivery.mailed.inj hmailed
      split at hmodgroup
      · exact absurd hmodgroup nofun
      next hnone => exact ⟨by simpa [Headers.HDR] using hnone, hmodgroup.symm⟩
  · by_contra hmay
    obtain ⟨error, herror⟩ := hposted.permission ⟨g, hg, Bool.eq_false_of_not_eq_true hmay⟩
    exact absurd (herror.symm.trans hpost) nofun

def moderatedServer : Config where
  mergetogroups := false
  artcutoff := 0
  PERMspecified := false
  PERMpostlist := []
  PERMauthorized := false
  PERMuser := []
  host := octets "h"
  ip := []
  VirtualPath := []
  allowapproved := true
  locpost := false
  checkincludedtext := false
  addinjectiondate := true
  nnrpdauthsender := false
  localtime := false
  strippath := false
  pathhost := octets "h"
  addinjectionpostinghost := true
  addinjectionpostingaccount := false
  organization := none
  domain := octets "d"
  complaints := none
  fromhost := none
  strippostcc := false
  localmaxartsize := 0
  OVgroupstats := fun g =>
    if g = octets "m" then some NF_FLAG_MODERATED else if g = octets "y" then some 121 else none
  named := by
    intro g hg
    split_ifs at hg with hm hy
    · rw [hm]
      exact List.forall_mem_singleton.mpr rfl
    · rw [hy]
      exact List.forall_mem_singleton.mpr rfl
    · exact absurd hg nofun
  DDend := fun _ => []
  now := 0
  datebuff := some (octets "1 Jan 1970 00:00:00 -0000")
  localdatebuff := none
  parsedate := fun _ => none
  IsValidHeaderBody := fun _ => true
  IsValidHeaderField := fun _ => true
  IsValidMessageID := fun _ => true
  HeaderCleanFrom := id
  innGetfqdn := none
  NEWSMASTER := octets "news"
  pid := octets "1"
  behind := []

def submission (Approved : String) : Octets :=
  octets "From: a@b.c\nNewsgroups: y,m\nSubject: s\n" ++ octets Approved ++ octets "\nText\n"

/-- The article has no header for an approval, and the moderator of the second group gets it. -/
theorem submission_posted :
    ∃ stripped accepted, StripOffHeaders (submission "") = .ok stripped ∧
      moderatedServer.ARTpost (submission "") (octets "<i@h>") =
        .ok (.mailed (octets "m"), accepted) ∧
        moderatedServer.Posted (submission "") (octets "<i@h>") (octets "y,m") stripped := by
  have hvalue : (StripOffHeaders (submission "")).map (fun stripped =>
      (stripped.headers.HDR HDR_NEWSGROUPS, stripped.headers HDR_APPROVED)) =
        .ok (some (octets "y,m"), none) := by
    decide
  have hmailed : (moderatedServer.ARTpost (submission "") (octets "<i@h>")).map Prod.fst =
      .ok (.mailed (octets "m")) := by decide
  cases hstrip : StripOffHeaders (submission "") with
  | error error =>
    rw [hstrip] at hvalue
    exact absurd hvalue nofun
  | ok stripped =>
    rw [hstrip] at hvalue
    obtain ⟨hhdr, happroved⟩ := Prod.mk.inj (Except.ok.inj hvalue)
    cases hpost : moderatedServer.ARTpost (submission "") (octets "<i@h>") with
    | error error =>
      rw [hpost] at hmailed
      exact absurd hmailed nofun
    | ok result =>
      rw [hpost] at hmailed
      refine ⟨stripped, result.2, rfl, congrArg Except.ok (Prod.ext (Except.ok.inj hmailed) rfl),
        ((posted_iff _ hstrip hhdr).2 result hpost).mpr ⟨fun _ g hg => ⟨happroved, ?_⟩, ?_⟩⟩
      · have hfirst : (moderatedServer.pieces (octets "y,m")).find? moderatedServer.moderated =
            (moderatedServer.groups (octets "y,m")).find? moderatedServer.moderated := by decide
        exact hfirst.trans hg
      · decide

/-- With an empty header for its approval the article is sent on without one. -/
theorem not_posted :
    ¬∀ (cfg : Config) (article idbuff hdr : Octets) (stripped : Article),
      StripOffHeaders article = .ok stripped →
      stripped.headers.HDR HDR_NEWSGROUPS = some hdr → cfg.Posted article idbuff hdr stripped := by
  intro hall
  have hvalue : (StripOffHeaders (submission "Approved:\n")).map (fun stripped =>
      stripped.headers.HDR HDR_NEWSGROUPS) = .ok (some (octets "y,m")) := by
    decide
  have hsent :
      (moderatedServer.ARTpost (submission "Approved:\n") (octets "<i@h>")).map (fun result =>
      (result.1, result.2.headers HDR_APPROVED)) = .ok (.sent, none) := by
    decide
  cases hstrip : StripOffHeaders (submission "Approved:\n") with
  | error error =>
    rw [hstrip] at hvalue
    exact absurd hvalue nofun
  | ok stripped =>
    rw [hstrip] at hvalue
    have hposted := hall moderatedServer _ (octets "<i@h>") _ stripped hstrip (Except.ok.inj hvalue)
    cases hpost : moderatedServer.ARTpost (submission "Approved:\n") (octets "<i@h>") with
    | error error =>
      rw [hpost] at hsent
      exact absurd hsent nofun
    | ok result =>
      rw [hpost] at hsent
      obtain ⟨hdelivery, hdropped⟩ := Prod.mk.inj (Except.ok.inj hsent)
      have hmailed :=
        hposted.moderation _ _ hpost (fun ⟨_, hsome, _⟩ => absurd (hdropped.symm.trans hsome) nofun)
        (octets "m") (by decide)
      exact absurd (hdelivery.symm.trans hmailed) nofun

end Delivery

end Inn.Nnrpd.Post
