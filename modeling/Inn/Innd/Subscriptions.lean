import Inn.Wildmat.Expression

/-!
# What a site subscribes to

A site has a list of patterns, behind those of the entry for the server itself. The groups it gets,
and those that are poison to it, are marked when its entry is read, by way of the table of groups
where a pattern has no wildcards. The same is asked for a single name.
-/

namespace Inn.Innd.Newsfeeds

open Wildmat Wildmat.Ascii

deriving instance DecidableEq for CString

def SUB_NEGATE : UInt8 := 33

def SUB_POISON : UInt8 := 64

def subvalue (pat : CString) : Bool :=
    deref pat.octets ≠ SUB_NEGATE && deref pat.octets ≠ SUB_POISON

def poisonvalue (pat : CString) : Bool := deref pat.octets = SUB_POISON

def bare (pat : CString) : CString :=
  if subvalue pat then pat else ⟨pat.octets.tail, fun hmem => pat.noNul (List.mem_of_mem_tail hmem)⟩

structure Groups where
  names : List CString
  nodup : names.Nodup

def NGH_HASH (name : CString) : UInt32 :=
  name.octets.foldl (fun j c => (j <<< 5) + j + c.toInt8.toInt32.toUInt32) 0

def NGH_BUCKET (j : UInt32) : UInt32 := j &&& 2047

def Groups.NGfind (groups : Groups) (name : CString) : Option Nat :=
  (groups.names.zipIdx.filter fun group => NGH_BUCKET (NGH_HASH group.1) =
    NGH_BUCKET (NGH_HASH name)).find?
    (fun group => deref name.octets = deref group.1.octets && name = group.1) |>.map Prod.snd

structure Bits where
  subbed : Nat → Bool
  poison : Nat → Bool
  poisonEntry : Bool

def simple (pat : CString) : Bool :=
    pat.octets.all fun c => !(c = question || c = asterisk || c = openBracket)

def Groups.setPattern (groups : Groups) (bits : Bits) (pat : CString) : Bits :=
  let name := bare pat
  if name.octets = [] then bits
  else
    let bits := { bits with poisonEntry := bits.poisonEntry || poisonvalue pat }
    if simple name then
      match groups.NGfind name with
      | none => bits
      | some i =>
        { bits with
          subbed := Function.update bits.subbed i (subvalue pat)
          poison := Function.update bits.poison i (poisonvalue pat) }
    else
      let mark (marks : Nat → Bool) (value : Bool) (i : Nat) : Bool :=
        match groups.names[i]? with
        | none => marks i
        | some group => if uwildmat group name then value else marks i
      { bits with subbed := mark bits.subbed (subvalue pat), poison := mark bits.poison (poisonvalue pat) }

def Groups.SITEsetlist (groups : Groups) (bits : Bits) (patlist : List CString) : Bits :=
  patlist.foldl groups.setPattern bits

def Groups.SITEparseone (groups : Groups) (me site : List CString) (poisonEntry : Bool) :
    Bits × Bool :=
  let bits := groups.SITEsetlist ⟨fun _ => false, fun _ => false, poisonEntry⟩ me
  (groups.SITEsetlist { bits with poisonEntry := false } site, bits.poisonEntry)

def wants (name : CString) (patlist : List CString) (match_ : Bool) : Bool :=
  patlist.foldl (fun match_ pat =>
    if match_ ≠ subvalue pat && uwildmat name (bare pat) then subvalue pat else match_) match_

def SITEwantsgroup (me site : List CString) (name : CString) : Bool :=
    wants name site (wants name me false)

def poisons (name : CString) (patlist : List CString) (match_ : Bool) : Bool :=
  patlist.foldl (fun match_ pat =>
    if uwildmat name (bare pat) then poisonvalue pat else match_) match_

def SITEpoisongroup (me site : List CString) (name : CString) : Bool :=
    poisons name site (poisons name me false)

section Deciding

variable {α β : Type*}

def decided (judge : α → Bool) (value : α → β) (init : β) (list : List α) : β :=
  ((list.reverse.find? judge).map value).getD init

theorem foldl_decided (judge : α → Bool) (value : α → β) (init : β) (list : List α) :
    list.foldl (fun old a => if judge a then value a else old) init =
      decided judge value init list := by
  induction list using List.reverseRecOn with
  | nil => rfl
  | append_singleton list a ih =>
    rw [List.foldl_append, List.foldl_cons, List.foldl_nil, ih]
    unfold decided
    rw [List.reverse_append, List.reverse_singleton, List.singleton_append, List.find?_cons]
    cases judge a <;> rfl

theorem map_decided {γ : Type*} (f : β → γ) (judge : α → Bool) (value : α → β) (init : β)
    (list : List α) :
    f (decided judge value init list) = decided judge (f ∘ value) (f init) list := by
  rw [decided, decided]
  cases list.reverse.find? judge <;> rfl

end Deciding

def sign (pat : CString) : Bool × Bool := (subvalue pat, poisonvalue pat)

def looksUp (name pat : CString) : Bool :=
  (bare pat).octets ≠ [] && if simple (bare pat) then name = bare pat else uwildmat name (bare pat)

def matched (name pat : CString) : Bool := uwildmat name (bare pat)

theorem Groups.NGfind_eq_some (groups : Groups) {name : CString} {i : Nat} :
    groups.NGfind name = some i ↔ groups.names[i]? = some name := by
  have hfound : ∀ group, (groups.names.zipIdx.filter fun group =>
      NGH_BUCKET (NGH_HASH group.1) = NGH_BUCKET (NGH_HASH name)).find?
        (fun group => deref name.octets = deref group.1.octets && name = group.1) = some group →
      group.1 = name ∧ groups.names[group.2]? = some name := by
    intro group hfind
    have hname : name = group.1 := by
      have := List.find?_some hfind
      rw [Bool.and_eq_true, decide_eq_true_eq, decide_eq_true_eq] at this
      exact this.2
    refine ⟨hname.symm, ?_⟩
    rw [hname]
    exact List.mk_mem_zipIdx_iff_getElem?.mp
      (List.mem_of_mem_filter (List.mem_of_find?_eq_some hfind))
  constructor
  · intro hfind
    obtain ⟨group, hgroup, rfl⟩ := Option.map_eq_some_iff.mp hfind
    exact (hfound group hgroup).2
  · intro hplace
    have hmem : (name, i) ∈ groups.names.zipIdx.filter fun group =>
        NGH_BUCKET (NGH_HASH group.1) = NGH_BUCKET (NGH_HASH name) :=
      List.mem_filter.mpr ⟨List.mk_mem_zipIdx_iff_getElem?.mpr hplace, decide_eq_true rfl⟩
    rw [NGfind]
    cases hfind : (groups.names.zipIdx.filter fun group =>
        NGH_BUCKET (NGH_HASH group.1) = NGH_BUCKET (NGH_HASH name)).find?
          (fun group => deref name.octets = deref group.1.octets && name = group.1) with
    | none =>
      have := List.find?_eq_none.mp hfind (name, i) hmem
      simp at this
    | some group =>
      obtain ⟨-, hplace'⟩ := hfound group hfind
      obtain ⟨hi, hname⟩ := List.getElem?_eq_some_iff.mp hplace
      obtain ⟨hj, hname'⟩ := List.getElem?_eq_some_iff.mp hplace'
      rw [Option.map_some, (List.Nodup.getElem_inj_iff groups.nodup).mp (hname'.trans hname.symm)]

theorem Groups.setPattern_eq (groups : Groups) (bits : Bits) (pat : CString) {i : Nat} {name : CString}
    (hplace : groups.names[i]? = some name) :
    ((groups.setPattern bits pat).subbed i, (groups.setPattern bits pat).poison i) =
      if looksUp name pat then sign pat else (bits.subbed i, bits.poison i) := by
  rw [setPattern, looksUp, sign]
  by_cases hempty : (bare pat).octets = []
  · simp [hempty]
  · rw [if_neg hempty]
    by_cases hsimple : simple (bare pat) = true
    · rw [if_pos hsimple, if_pos hsimple]
      cases hfind : groups.NGfind (bare pat) with
      | none =>
        have hne : name ≠ bare pat := by
          rintro rfl
          rw [groups.NGfind_eq_some.mpr hplace] at hfind
          cases hfind
        simp [hne]
      | some j =>
        have hplace' := groups.NGfind_eq_some.mp hfind
        by_cases hname : name = bare pat
        · rw [← hname, groups.NGfind_eq_some.mpr hplace] at hfind
          cases hfind
          simp [hempty, hname]
        · have hne : i ≠ j := by
            rintro rfl
            exact hname (Option.some.inj (hplace.symm.trans hplace'))
          simp [hname, Function.update_of_ne hne]
    · rw [if_neg hsimple, if_neg hsimple]
      simp only [hplace]
      cases uwildmat name (bare pat) <;> simp [hempty]

theorem Groups.SITEsetlist_eq (groups : Groups) (bits : Bits) (patlist : List CString) {i : Nat}
    {name : CString} (hplace : groups.names[i]? = some name) :
    ((groups.SITEsetlist bits patlist).subbed i, (groups.SITEsetlist bits patlist).poison i) =
      decided (looksUp name) sign (bits.subbed i, bits.poison i) patlist := by
  rw [← foldl_decided, SITEsetlist]
  induction patlist generalizing bits with
  | nil => rfl
  | cons pat patlist ih =>
      rw [List.foldl_cons, List.foldl_cons, ih, groups.setPattern_eq bits pat hplace]

theorem Groups.SITEparseone_eq (groups : Groups) (me site : List CString)
    (poisonEntry : Bool) {i : Nat} {name : CString} (hplace : groups.names[i]? = some name) :
    ((groups.SITEparseone me site poisonEntry).1.subbed i,
      (groups.SITEparseone me site poisonEntry).1.poison i) =
      decided (looksUp name) sign (false, false) (me ++ site) := by
  rw [SITEparseone, groups.SITEsetlist_eq _ site hplace, groups.SITEsetlist_eq _ me hplace,
    ← foldl_decided,
    ← foldl_decided, ← foldl_decided, List.foldl_append]

theorem wants_eq (name : CString) (patlist : List CString) (match_ : Bool) :
    wants name patlist match_ = decided (matched name) subvalue match_ patlist := by
  rw [← foldl_decided, wants]
  congr 1
  funext match_ pat
  rw [matched]
  cases uwildmat name (bare pat) <;> cases subvalue pat <;> cases match_ <;> rfl

theorem answers_eq (me site : List CString) (name : CString) :
    (SITEwantsgroup me site name, SITEpoisongroup me site name) =
      decided (matched name) sign (false, false) (me ++ site) := by
  have hwants :
      SITEwantsgroup me site name = decided (matched name) subvalue false (me ++ site) := by
    rw [SITEwantsgroup, wants_eq, wants_eq, ← foldl_decided, ← foldl_decided, ← foldl_decided,
      List.foldl_append]
  have hpoisons :
      SITEpoisongroup me site name = decided (matched name) poisonvalue false (me ++ site) := by
    rw [SITEpoisongroup, poisons, poisons, ← List.foldl_append, ← foldl_decided]
    rfl
  rw [hwants, hpoisons]
  have hfst := map_decided Prod.fst (matched name) sign (false, false) (me ++ site)
  have hsnd := map_decided Prod.snd (matched name) sign (false, false) (me ++ site)
  exact Prod.ext hfst.symm hsnd.symm

/-- The bits of each group are what the patterns say of its name. -/
def Groups.Agrees (groups : Groups) (me site : List CString) (poisonEntry : Bool) : Prop :=
  ∀ i name, groups.names[i]? = some name →
    (groups.SITEparseone me site poisonEntry).1.subbed i = SITEwantsgroup me site name ∧
      (groups.SITEparseone me site poisonEntry).1.poison i = SITEpoisongroup me site name

theorem Groups.marked_iff (groups : Groups) (me site : List CString) (poisonEntry : Bool) {i : Nat}
    {name : CString} (hplace : groups.names[i]? = some name) :
    ((groups.SITEparseone me site poisonEntry).1.subbed i = SITEwantsgroup me site name ∧
        (groups.SITEparseone me site poisonEntry).1.poison i = SITEpoisongroup me site name) ↔
      decided (looksUp name) sign (false, false) (me ++ site) =
        decided (matched name) sign (false, false) (me ++ site) := by
  rw [← groups.SITEparseone_eq me site poisonEntry hplace, ← answers_eq, Prod.mk.injEq]

/-- The marks agree with the answers if for every group the last pattern that is looked up for it,
or matches it where it has wildcards, has the sign of the last one that matches it. -/
theorem subscription_agrees_iff (groups : Groups) (me site : List CString) (poisonEntry : Bool) :
    groups.Agrees me site poisonEntry ↔
      ∀ name ∈ groups.names, decided (looksUp name) sign (false, false) (me ++ site) =
        decided (matched name) sign (false, false) (me ++ site) := by
  constructor
  · intro hagrees name hname
    obtain ⟨i, hi, rfl⟩ := List.mem_iff_getElem.mp hname
    have hplace : groups.names[i]? = some groups.names[i] := List.getElem?_eq_getElem hi
    exact (groups.marked_iff me site poisonEntry hplace).mp (hagrees i _ hplace)
  · intro hsame i name hplace
    exact (groups.marked_iff me site poisonEntry hplace).mpr
      (hsame name (List.mem_of_getElem? hplace))

def quoted : Groups × List CString :=
    (⟨[⟨[97], by decide⟩], by simp⟩, [⟨[backslash, 97], by decide⟩])

theorem not_agrees_quoted : ¬quoted.1.Agrees [] quoted.2 false := by
  intro hagrees
  have hsub := (hagrees 0 ⟨[97], by decide⟩ rfl).1
  revert hsub
  decide

end Inn.Innd.Newsfeeds
