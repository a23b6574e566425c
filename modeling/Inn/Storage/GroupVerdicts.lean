import Inn.Foundation.Runs
import Inn.Storage.GroupExpiry

/-!
# What the rules of the groups make of an article

What a rule says is about the date of the article alone. The verdicts on the groups of an article
are compared with it, in whatever order the groups are expired.
-/

namespace Inn.Storage.GroupExpiry

open Foundation.Runs Foundation.Words Innd
open List (cons_ne_nil mem_cons_self mem_cons_of_mem)

section Rules

/-- The rule keeps an article of these dates. -/
def NEWSGROUP.keeps (ngp : NEWSGROUP) (OVnow when expires : Int) : Prop :=
  if expires = 0 then ngp.Default ≤ when else ngp.Purge ≤ when ∧ (OVnow ≤ expires ∨ ngp.Keep ≤ when)

instance (ngp : NEWSGROUP) (OVnow when expires : Int) :
    Decidable (ngp.keeps OVnow when expires) := by
  unfold NEWSGROUP.keeps
  infer_instance

variable (c : Control) (a : Article)

def Control.exempt : Bool := a.selfexpire && !c.OVignoreselfexpire

/-- The article is exempt, or the rule of the group keeps it. -/
def Control.keeps (when : Int) (group : Octets) : Prop :=
  c.exempt a ∨ (c.rule group).keeps c.OVnow when a.expires

instance (when : Int) (group : Octets) : Decidable (c.keeps a when group) :=
    inferInstanceAs (Decidable (_ ∨ _))

theorem EXPkeepit_eq (Entry : Octets) (when expires : Int) :
    c.EXPkeepit Entry when expires =
      if (c.rule Entry).keeps c.OVnow (c.corrected (c.rule Entry) when expires) expires then .Keep
      else if (c.rule Entry).Poison then .Poison else .Remove := by
  by_cases hexpires : expires = 0
  · simp only [Control.EXPkeepit, NEWSGROUP.keeps, if_pos hexpires]
    split <;> simp
  · simp only [Control.EXPkeepit, NEWSGROUP.keeps, if_neg hexpires]
    split <;> simp

theorem Poison_of_EXPkeepit {Entry : Octets} {when expires : Int}
    (hremove : c.EXPkeepit Entry when expires = .Remove) : (c.rule Entry).Poison = false := by
  rw [EXPkeepit_eq] at hremove
  split at hremove
  · exact absurd hremove (by decide)
  · split at hremove
    · exact absurd hremove (by decide)
    next hplain => simpa using hplain

/-- What the rule says of an article that is dated at the limit it is compared with. -/
def Control.keepsAtLimit (group : Octets) : Prop :=
  a.expires = 0 ∨ c.OVnow ≤ a.expires ∨ (c.rule group).Keep ≤ (c.rule group).Purge

instance (group : Octets) : Decidable (c.keepsAtLimit a group) :=
    inferInstanceAs (Decidable (_ ∨ _))

theorem krp_Keep_iff {p q : Prop} [Decidable p] [Decidable q] :
    (if p then KRP.Keep else if q then .Poison else .Remove) = .Keep ↔ p := by
  split
  next hp => exact iff_of_true rfl hp
  next hp => exact iff_of_false (by split <;> decide) hp

theorem krp_Remove_iff {p q : Prop} [Decidable p] [Decidable q] :
    (if p then KRP.Keep else if q then .Poison else .Remove) = .Remove ↔ ¬p ∧ ¬q := by
  split
  next hp => exact iff_of_false (by decide) fun h => h.1 hp
  next hp =>
    split
    next hq => exact iff_of_false (by decide) fun h => h.2 hq
    next hq => exact iff_of_true rfl ⟨hp, hq⟩

theorem EXPkeepit_future {when : Int} (hfuture : c.OVrealnow + 86400 < when) (group : Octets) :
    c.EXPkeepit group when a.expires =
      if c.keepsAtLimit a group then .Keep else if (c.rule group).Poison then .Poison
        else .Remove := by
  rw [EXPkeepit_eq]
  refine if_congr ?_ rfl rfl
  rw [NEWSGROUP.keeps, Control.corrected, if_pos hfuture, Control.keepsAtLimit]
  by_cases hexpires : a.expires = 0 <;> simp [hexpires]

theorem EXPkeepit_dated {when : Int} (hdate : ¬c.OVrealnow + 86400 < when)
    (hexempt : c.exempt a = false) (group : Octets) :
    c.EXPkeepit group when a.expires =
      if c.keeps a when group then .Keep else if (c.rule group).Poison then .Poison
        else .Remove := by
  rw [EXPkeepit_eq, Control.corrected, if_neg hdate]
  refine if_congr ?_ rfl rfl
  rw [Control.keeps, hexempt, or_iff_right Bool.false_ne_true]

end Rules

section Postings

variable (c : Control) (a : Article) (when : Int) (group : Octets)

variable {group} {gs : List Octets}

theorem found_poisoned : (c.found a when group gs).poisoned ↔
    ∃ g ∈ gs, c.EXPkeepit g when a.expires = .Poison := by
  have h := foldl_set (c.check a when group) Found.poisoned (fun _ _ => rfl) gs
    ⟨false, false, false, true⟩
  simpa [Control.found] using h

theorem found_keeper :
    (c.found a when group gs).keeper ↔
      c.OVkeep ∧ ∃ g ∈ gs, c.EXPkeepit g when a.expires = .Keep := by
  have h := foldl_set (c.check a when group) Found.keeper (fun _ _ => rfl) gs
    ⟨false, false, false, true⟩
  rw [Control.found, h]
  simp only [Bool.false_eq_true, false_or, Bool.and_eq_true, decide_eq_true_eq]
  exact ⟨fun ⟨g, hg, hkeep, hK⟩ => ⟨hkeep, g, hg, hK⟩, fun ⟨hkeep, g, hg, hK⟩ => ⟨g, hg, hkeep, hK⟩⟩

theorem found_delete (hmem : group ∈ gs) :
    (c.found a when group gs).delete ↔ c.EXPkeepit group when a.expires = .Remove := by
  have h := foldl_set (c.check a when group) Found.delete (fun _ _ => rfl) gs
    ⟨false, false, false, true⟩
  rw [Control.found, h]
  simp only [Bool.false_eq_true, false_or, Bool.and_eq_true, decide_eq_true_eq]
  exact ⟨fun ⟨g, _, hremove, heq⟩ => heq ▸ hremove, fun hremove => ⟨group, hmem, hremove, rfl⟩⟩

theorem found_purge : (c.found a when group gs).purge ↔
    ∀ g ∈ gs, c.EXPkeepit g when a.expires ≠ .Keep := by
  have h := foldl_cleared (c.check a when group) Found.purge (fun _ _ => rfl) gs
    ⟨false, false, false, true⟩
  simpa [Control.found] using h

theorem settle_earliest (hearliest : c.OVearliest = true) (hmem : group ∈ gs) :
    ((c.settle a when group gs).expired ↔
      a.empty ∨ (∃ g ∈ gs, c.EXPkeepit g when a.expires = .Poison) ∨
      c.EXPkeepit group when a.expires = .Remove) ∧
    ((c.settle a when group gs).removed ↔ (c.settle a when group gs).expired ∧
      gs.head? = some group) := by
  have hiff :
      ((c.found a when group gs).delete || (c.found a when group gs).poisoned || a.empty) = true ↔
      a.empty ∨ (∃ g ∈ gs, c.EXPkeepit g when a.expires = .Poison) ∨
        c.EXPkeepit group when a.expires = .Remove := by
    rw [Bool.or_eq_true, Bool.or_eq_true, found_delete c a when hmem, found_poisoned, or_comm,
      or_comm (a := c.EXPkeepit group when a.expires = .Remove)]
  rw [← hiff, Control.settle, if_pos hearliest]
  split
  next hdone => simp [hdone]
  next hdone => simp [hdone]

theorem settle_default (hearliest : c.OVearliest = false) (hmem : group ∈ gs) :
    ((c.settle a when group gs).expired ↔ a.empty ∨
      ¬(c.OVkeep ∧ ∃ g ∈ gs, c.EXPkeepit g when a.expires = .Keep) ∧
        c.EXPkeepit group when a.expires = .Remove) ∧
    ((c.settle a when group gs).removed ↔
      (c.settle a when group gs).expired ∧ ∀ g ∈ gs, c.EXPkeepit g when a.expires ≠ .Keep) := by
  have hiff :
      (!(c.found a when group gs).keeper && (c.found a when group gs).delete || a.empty) = true ↔
      a.empty ∨ ¬(c.OVkeep ∧ ∃ g ∈ gs, c.EXPkeepit g when a.expires = .Keep) ∧
        c.EXPkeepit group when a.expires = .Remove := by
    rw [Bool.or_eq_true, Bool.and_eq_true, Bool.not_eq_true', ← Bool.not_eq_true, found_keeper,
      found_delete c a when hmem, or_comm]
  have hpurge : (c.found a when group gs).purge ↔ ∀ g ∈ gs, c.EXPkeepit g when a.expires ≠ .Keep :=
    found_purge c a when
  rw [← hiff, ← hpurge, Control.settle, if_neg (by simp [hearliest])]
  split
  next hdone => simp [hdone]
  next hdone => simp [hdone]

end Postings

section Texts

structure Posting where
  blanks : Octets
  name : Octets
  number : Octets

structure Posting.Proper (posting : Posting) : Prop where
  separated : posting.blanks ≠ []
  blank : ∀ ch ∈ posting.blanks, space ch
  plain : ∀ ch ∈ posting.name, ch ≠ 32 ∧ ch ≠ 58
  digits : ∀ ch ∈ posting.number, ch ≠ 32

def Posting.text (posting : Posting) : Octets × Octets :=
    (posting.blanks, posting.name ++ 58 :: posting.number)

variable (c : Control) (a : Article)

inductive Control.Listed : List Octets → Prop
  | xref {host : Octets} {postings : List Posting} (hhost : ∀ ch ∈ host, ch ≠ 32)
      (hproper : ∀ posting ∈ postings, posting.Proper) (hne : postings ≠ [])
      (hXref : c.OVERGetHeader a.data c.Xrefindex =
        some (host ++ joined (postings.map Posting.text))) :
      Listed (postings.map Posting.name)
  | alone {group : Octets} (hgroup : ∀ ch ∈ group, ch ≠ 32 ∧ ch ≠ 58)
      (hXref : c.OVERGetHeader a.data c.Xrefindex = none) : Listed [group]

theorem Posting.Proper.entry {posting : Posting} (hproper : posting.Proper) :
    Entry space posting.text where
  separated := hproper.separated
  blanks := hproper.blank
  nonempty := List.append_ne_nil_of_right_ne_nil _ (cons_ne_nil _ _)
  word := by
    intro ch hch
    rw [Bool.not_eq_true', space, decide_eq_false_iff_not]
    rcases List.mem_append.mp hch with hch | hch
    · exact (hproper.plain ch hch).1
    · rcases List.mem_cons.mp hch with rfl | hch
      · decide
      · exact hproper.digits ch hch

theorem Posting.Proper.name_text {posting : Posting} (hproper : posting.Proper) :
    posting.text.2.contains 58 ∧ posting.text.2.takeWhile (· ≠ 58) = posting.name := by
  constructor
  · simp [Posting.text]
  · rw [Posting.text, List.takeWhile_append_of_pos fun ch hch =>
      by simpa using (hproper.plain ch hch).2]
    simp

variable {c a} {gs : List Octets}

theorem Control.Listed.postings (hlisted : c.Listed a gs) :
    ∃ postings : List Posting, (∀ posting ∈ postings, posting.Proper) ∧ postings ≠ [] ∧
      gs = postings.map Posting.name ∧
      ∀ group ∈ gs, c.Xref a group =
        some ((joined (postings.map Posting.text)).dropWhile space) := by
  cases hlisted with
  | @xref host postings hhost hproper hne hXref =>
    refine ⟨postings, hproper, hne, rfl, fun group _ => ?_⟩
    obtain ⟨posting, rest, hpostings⟩ := List.exists_cons_of_ne_nil hne
    have hposting := hproper posting (by rw [hpostings]; exact mem_cons_self)
    obtain ⟨blank, blanks, hblanks⟩ := List.exists_cons_of_ne_nil hposting.separated
    have hblank := hposting.blank blank (by rw [hblanks]; exact mem_cons_self)
    obtain ⟨tail, htail⟩ : ∃ tail, joined (postings.map Posting.text) = blank :: tail := by
      rw [hpostings, List.map_cons, joined, List.flatMap_cons, Posting.text, hblanks]
      exact ⟨_, rfl⟩
    rw [Control.Xref, hXref, htail]
    dsimp only
    rw [List.dropWhile_append_of_pos fun ch hch => by simpa using hhost ch hch,
      List.dropWhile_cons_of_neg (by simpa [space] using hblank)]
  | @alone group hgroup hXref =>
    refine ⟨[⟨[32], group, []⟩], ?_, cons_ne_nil _ _, rfl, fun g hg => ?_⟩
    · rintro posting hposting
      obtain rfl := List.mem_singleton.mp hposting
      exact ⟨cons_ne_nil _ _, by simp [space], hgroup, by simp⟩
    · obtain rfl := List.mem_singleton.mp hg
      rw [Control.Xref, hXref, List.map_singleton,
        dropWhile_joined (Posting.Proper.entry ⟨cons_ne_nil _ _,
        by simp [space], hgroup, by simp⟩)]
      simp [Posting.text, joined]

end Texts

section Verdicts

variable {c : Control} {a : Article} {gs : List Octets} {group : Octets} {when : Int}

def Control.room (c : Control) (n : Nat) : Prop := n < c.nGroups ∨ n = 1 ∧ c.nGroups = 1

instance (n : Nat) : Decidable (c.room n) := inferInstanceAs (Decidable (_ ∨ _))

theorem words_postings {postings : List Posting} (hproper : ∀ posting ∈ postings, posting.Proper) :
    let Xref := (joined (postings.map Posting.text)).dropWhile space
    words space Xref.length (Xref.dropWhile space) = postings.map fun posting =>
      posting.text.2 := by
  intro Xref
  have hentries : ∀ entry ∈ postings.map Posting.text, Entry space entry := by
    intro entry hentry
    obtain ⟨posting, hposting, rfl⟩ := List.mem_map.mp hentry
    exact (hproper posting hposting).entry
  have hlength : (postings.map Posting.text).length ≤ Xref.length := by
    cases postings with
    | nil => exact Nat.zero_le _
    | cons posting postings =>
      have hfirst := hentries posting.text mem_cons_self
      have hrest :=
        length_le_joined fun entry hentry => (hentries entry (mem_cons_of_mem _ hentry)).nonempty
      have hpos := List.length_pos_of_ne_nil hfirst.nonempty
      rw [show Xref = _ from dropWhile_joined hfirst, List.length_append, List.map_cons,
        List.length_cons]
      omega
  rw [show Xref.dropWhile space = Xref from List.dropWhile_idempotent _ _,
    words_joined hentries hlength, List.map_map]
  rfl

theorem expire_roomy (hexempt : c.exempt a = false) (hlisted : c.Listed a gs)
    (hdated : c.dated a = some when) (hroom : c.room gs.length) (hmem : group ∈ gs) :
    c.OVgroupbasedexpire a group = .ok (c.settle a when group gs) := by
  obtain ⟨postings, hproper, hne, rfl, hXref⟩ := hlisted.postings
  rw [List.length_map] at hroom
  have hwords := words_postings hproper
  have hcolon : (postings.map fun posting => posting.text.2).all fun art => art.contains 58 := by
    rw [List.all_eq_true]
    intro art hart
    obtain ⟨posting, hposting, rfl⟩ := List.mem_map.mp hart
    exact (hproper posting hposting).name_text.1
  have hnames :
      (postings.map fun posting => posting.text.2).map (fun art => art.takeWhile (· ≠ 58)) =
      postings.map Posting.name := by
    rw [List.map_map]
    exact List.map_congr_left fun posting hposting => (hproper posting hposting).name_text.2
  have hpos := List.length_pos_of_ne_nil hne
  have hsplit : EXPsplit ((joined (postings.map Posting.text)).dropWhile space) space c.nGroups =
      .ok (some (postings.map fun posting => posting.text.2)) := by
    rw [Control.room] at hroom
    rw [EXPsplit, hwords, List.length_map, if_neg (by omega), if_neg (by omega)]
  rw [Control.OVgroupbasedexpire, if_neg (by rw [Control.exempt] at hexempt; simp [hexempt]),
    hdated, hXref group hmem]
  dsimp only
  rw [hsplit]
  dsimp only
  rw [if_pos hcolon, hnames]

theorem expire_crowded (hexempt : c.exempt a = false) (hlisted : c.Listed a gs)
    (hdated : c.dated a = some when)
    (hroom : ¬c.room gs.length) (hmem : group ∈ gs) {verdict : Verdict}
    (hexpire : c.OVgroupbasedexpire a group = .ok verdict) : verdict = ⟨true, false⟩ := by
  obtain ⟨postings, hproper, hne, rfl, hXref⟩ := hlisted.postings
  rw [List.length_map, Control.room] at hroom
  have hwords := words_postings hproper
  have hpos := List.length_pos_of_ne_nil hne
  rw [Control.OVgroupbasedexpire, if_neg (by rw [Control.exempt] at hexempt; simp [hexempt]),
    hdated, hXref group hmem]
    at hexpire
  dsimp only at hexpire
  rw [EXPsplit, hwords, List.length_map] at hexpire
  by_cases hfew : c.nGroups < 2
  · rw [if_pos ⟨hfew, by omega⟩] at hexpire
    exact absurd hexpire (by simp)
  · rw [if_neg (by omega), if_pos (by omega)] at hexpire
    simpa using hexpire.symm

theorem expire_exempt (hexempt : c.exempt a = true) :
    c.OVgroupbasedexpire a group = .ok ⟨false, false⟩ :=
  if_pos hexempt

end Verdicts

section Sweeps

variable {c : Control} {a : Article} {order : List Octets}

theorem sweep_ok (verdict : Octets → Verdict)
    (hexpire : ∀ group ∈ order, c.OVgroupbasedexpire a group = .ok (verdict group)) :
    c.sweep a order =
      .ok ⟨order.filter fun group => (verdict group).expired,
        order.any fun group => (verdict group).removed⟩ := by
  induction order with
  | nil => rfl
  | cons group order ih =>
    rw [Control.sweep, hexpire group mem_cons_self, ih fun g hg => hexpire g (mem_cons_of_mem _ hg)]
    rw [List.filter_cons, List.any_cons]

theorem sweep_left {s : Sweep} (hsweep : c.sweep a order = .ok s)
    (hexpire : ∀ group ∈ order, ∀ verdict, c.OVgroupbasedexpire a group = .ok verdict →
      verdict = ⟨true, false⟩) :
    s = ⟨order, false⟩ := by
  induction order generalizing s with
  | nil => exact (Except.ok.inj hsweep).symm
  | cons group order ih =>
    rw [Control.sweep] at hsweep
    cases hverdict : c.OVgroupbasedexpire a group with
    | error fault =>
      rw [hverdict] at hsweep
      exact absurd hsweep (by simp)
    | ok verdict =>
      cases hrest : c.sweep a order with
      | error fault =>
        rw [hverdict, hrest] at hsweep
        exact absurd hsweep (by simp)
      | ok rest =>
        rw [hverdict, hrest] at hsweep
        obtain rfl := hexpire group mem_cons_self verdict hverdict
        obtain rfl := ih hrest fun g hg => hexpire g (mem_cons_of_mem _ hg)
        exact (Except.ok.inj hsweep).symm

variable {gs : List Octets} {when : Int}

theorem sweep_exempt (hexempt : c.exempt a = true) : c.sweep a order = .ok ⟨[], false⟩ := by
  rw [sweep_ok (fun _ => ⟨false, false⟩) fun _ _ => expire_exempt hexempt]
  simp

theorem sweep_roomy (hexempt : c.exempt a = false) (hlisted : c.Listed a gs)
    (hdated : c.dated a = some when) (hroom : c.room gs.length) (horder : order.Perm gs) :
    c.sweep a order = .ok ⟨order.filter fun group => (c.settle a when group gs).expired,
      order.any fun group => (c.settle a when group gs).removed⟩ :=
  sweep_ok _ fun _ hgroup => expire_roomy hexempt hlisted hdated hroom (horder.subset hgroup)

theorem sweep_crowded (hexempt : c.exempt a = false) (hlisted : c.Listed a gs)
    (hdated : c.dated a = some when)
    (hroom : ¬c.room gs.length) (horder : order.Perm gs) {s : Sweep}
    (hsweep : c.sweep a order = .ok s) :
    s = ⟨order, false⟩ :=
  sweep_left hsweep fun _ hgroup _ =>
    expire_crowded hexempt hlisted hdated hroom (horder.subset hgroup)

end Sweeps

section Modes

def crosspost : Article where
  empty := false
  selfexpire := false
  data := octets "7\tHi\tme\t1 Jan\t<m@h>\t\t90\t1\tXref: h a:7 b:3\r\n"
  arrived := 2000000
  expires := 0

def rules (OVearliest Poison : Bool) : Control where
  Groups :=
    [⟨octets "a", 1000000, 1000000, 1000000, false⟩,
      ⟨octets "b", 3000000, 3000000, 3000000, Poison⟩]
  nGroups := 3
  ARTfields := ["Subject", "From", "Date", "Message-ID", "References", "Bytes", "Lines"].map
    (fun name => ⟨octets name, false, false⟩) ++ [⟨octets "Xref", false, true⟩]
  Dateindex := 2
  Xrefindex := 7
  parsedate := fun _ => none
  OVnow := 4000000
  OVrealnow := 4000000
  OVignoreselfexpire := false
  OVusepost := false
  OVkeep := false
  OVearliest := OVearliest

theorem crosspost_listed (OVearliest Poison : Bool) :
    (rules OVearliest Poison).Listed crosspost [octets "a", octets "b"] := by
  refine @Control.Listed.xref _ _ (octets "h") [⟨[32], octets "a", octets "7"⟩,
    ⟨[32], octets "b", octets "3"⟩]
    (by decide +kernel) ?_ (cons_ne_nil _ _) ?_
  · intro posting hposting
    rcases List.mem_pair.mp hposting with rfl | rfl
    · exact ⟨cons_ne_nil _ _, by decide +kernel, by decide +kernel, by decide +kernel⟩
    · exact ⟨cons_ne_nil _ _, by decide +kernel, by decide +kernel, by decide +kernel⟩
  · cases OVearliest <;> cases Poison <;> decide +kernel

variable {c : Control} {a : Article} {gs : List Octets} {when : Int}

/-- An article expires with the first of its groups. It does so when all of them let it go alike, or
one of them is told to take it out of the others. -/
theorem earliest_proper (hearliest : c.OVearliest = true) (hlisted : c.Listed a gs)
    (hdated : c.dated a = some when) :
    (∀ order : List Octets, order.Perm gs → (∃ g ∈ gs, ¬c.keeps a when g) →
      ∃ s, c.sweep a order = .ok s ∧ (∀ g ∈ gs, g ∈ s.dropped) ∧ s.cancelled = true) ↔
    (∀ g ∈ gs, c.keeps a when g) ∨ c.room gs.length ∧ (a.empty = true ∨
      (∃ g ∈ gs, c.EXPkeepit g when a.expires = .Poison) ∨
        ∀ g ∈ gs, c.EXPkeepit g when a.expires = .Remove) := by
  by_cases hkeeps : ∀ g ∈ gs, c.keeps a when g
  · exact iff_of_true (fun _ _ ⟨g, hg, hnot⟩ => absurd (hkeeps g hg) hnot) (.inl hkeeps)
  have hnot : ∃ g ∈ gs, ¬c.keeps a when g := by simpa using hkeeps
  have hexempt : c.exempt a = false := by
    obtain ⟨g, _, hg⟩ := hnot
    exact Bool.eq_false_iff.mpr fun h => hg (.inl h)
  rw [or_iff_right hkeeps]
  by_cases hroom : c.room gs.length
  · rw [and_iff_right hroom]
    obtain ⟨first, rest, rfl⟩ := List.exists_cons_of_ne_nil (List.ne_nil_of_mem hnot.choose_spec.1)
    constructor
    · intro hdrops
      obtain ⟨s, hsweep, hdropped, -⟩ := hdrops _ (.refl _) hnot
      rw [sweep_roomy hexempt hlisted hdated hroom (.refl _)] at hsweep
      obtain rfl := Except.ok.inj hsweep
      have hexpired : ∀ g ∈ first :: rest, _ := fun g hg =>
        (settle_earliest c a when hearliest hg).1.mp (List.mem_filter.mp (hdropped g hg)).2
      by_contra hcond
      rw [not_or, not_or] at hcond
      exact hcond.2.2 fun g hg =>
        ((hexpired g hg).resolve_left hcond.1).resolve_left hcond.2.1
    · intro hcond order horder _
      have hexpired : ∀ g ∈ first :: rest, (c.settle a when g (first :: rest)).expired := by
        intro g hg
        rw [(settle_earliest c a when hearliest hg).1]
        exact hcond.imp_right (Or.imp_right fun h => h g hg)
      refine ⟨_, sweep_roomy hexempt hlisted hdated hroom horder, fun g hg => ?_, ?_⟩
      · exact List.mem_filter.mpr ⟨horder.mem_iff.mpr hg, hexpired g hg⟩
      · have hfirst : first ∈ first :: rest := mem_cons_self
        refine List.any_eq_true.mpr ⟨first, horder.mem_iff.mpr hfirst, ?_⟩
        exact (settle_earliest c a when hearliest hfirst).2.mpr ⟨hexpired first hfirst, rfl⟩
  · refine iff_of_false (fun hdrops => ?_) fun h => hroom h.1
    obtain ⟨s, hsweep, -, hcancelled⟩ := hdrops gs (.refl _) hnot
    obtain rfl := sweep_crowded hexempt hlisted hdated hroom (.refl _) hsweep
    exact absurd hcancelled (by simp)

theorem crosspost_earliest_proper :
    ∃ s, (rules true true).sweep crosspost [octets "b", octets "a"] = .ok s ∧
      (∀ g ∈ [octets "a", octets "b"], g ∈ s.dropped) ∧
      s.cancelled = true :=
  (earliest_proper rfl (crosspost_listed true true) rfl).mpr
    (.inr ⟨by decide, .inr (.inl ⟨octets "b", mem_cons_of_mem _ mem_cons_self, by decide⟩)⟩)
    [octets "b", octets "a"] (.swap _ _ _) ⟨octets "b", mem_cons_of_mem _ mem_cons_self, by decide⟩

/-- It is dropped from the second group alone. -/
theorem not_earliest_proper :
    ¬∀ (c : Control) (a : Article) (gs : List Octets) (when : Int), c.OVearliest = true →
      c.Listed a gs →
      c.dated a = some when → ∀ order : List Octets, order.Perm gs → (∃ g ∈ gs, ¬c.keeps a when g) →
        ∃ s, c.sweep a order = .ok s ∧ (∀ g ∈ gs, g ∈ s.dropped) ∧ s.cancelled = true := by
  intro hall
  obtain ⟨s, hsweep, -, hcancelled⟩ :=
    hall (rules true false) crosspost _ 2000000 rfl (crosspost_listed true false) rfl
    _ (.refl _) ⟨octets "b", mem_cons_of_mem _ mem_cons_self, by decide⟩
  have hleft :
      (rules true false).sweep crosspost [octets "a", octets "b"] = .ok ⟨[octets "b"], false⟩ := by
    decide
  obtain rfl := Except.ok.inj (hleft.symm.trans hsweep)
  exact absurd hcancelled (by decide)

theorem sweep_iff (hexempt : c.exempt a = false) (hlisted : c.Listed a gs)
    (hdated : c.dated a = some when)
    (hroom : c.room gs.length) {due : Octets → Prop} {gone : Prop} :
    (∀ order : List Octets, order.Perm gs →
      ∃ s, c.sweep a order = .ok s ∧ (∀ g ∈ gs, g ∈ s.dropped ↔ due g) ∧
        (s.cancelled = true ↔ gone)) ↔
    (∀ g ∈ gs, (c.settle a when g gs).expired ↔ due g) ∧
      ((∃ g ∈ gs, (c.settle a when g gs).removed) ↔ gone) := by
  have hdropped : ∀ order : List Octets, order.Perm gs → ∀ g ∈ gs,
      (g ∈ order.filter fun g => (c.settle a when g gs).expired) ↔
        (c.settle a when g gs).expired = true := by
    intro order horder g hg
    rw [List.mem_filter, and_iff_right (horder.mem_iff.mpr hg)]
  have hcancelled : ∀ order : List Octets, order.Perm gs →
      ((order.any fun g => (c.settle a when g gs).removed) = true ↔
        ∃ g ∈ gs, (c.settle a when g gs).removed = true) := by
    intro order horder
    rw [List.any_eq_true]
    simp only [horder.mem_iff]
  constructor
  · intro hsweeps
    obtain ⟨s, hsweep, hdue, hgone⟩ := hsweeps gs (.refl _)
    rw [sweep_roomy hexempt hlisted hdated hroom (.refl _)] at hsweep
    cases hsweep
    exact ⟨fun g hg => (hdropped gs (.refl _) g hg).symm.trans (hdue g hg),
      (hcancelled gs (.refl _)).symm.trans hgone⟩
  · rintro ⟨hdue, hgone⟩ order horder
    exact ⟨_, sweep_roomy hexempt hlisted hdated hroom horder,
      fun g hg => (hdropped order horder g hg).trans (hdue g hg),
        (hcancelled order horder).trans hgone⟩

theorem default_iff (hearliest : c.OVearliest = false) (hlisted : c.Listed a gs)
    (hdated : c.dated a = some when) :
    (∀ order : List Octets, order.Perm gs →
      ∃ s, c.sweep a order = .ok s ∧ (∀ g ∈ gs, g ∈ s.dropped ↔ ¬c.keeps a when g) ∧
        (s.cancelled = true ↔ (∀ g ∈ gs, ¬c.keeps a when g) ∨
          ∃ g ∈ gs, ¬c.keeps a when g ∧ (c.rule g).Poison = true)) ↔
    c.exempt a = true ∨ c.room gs.length ∧
      if a.empty = true then ∀ g ∈ gs, ¬c.keeps a when g ∧ c.EXPkeepit g when a.expires ≠ .Keep
      else if c.OVkeep = true ∧ ∃ g ∈ gs, c.EXPkeepit g when a.expires = .Keep then ∀ g ∈ gs,
        c.keeps a when g
      else (∀ g ∈ gs, c.EXPkeepit g when a.expires = .Remove ↔ ¬c.keeps a when g) ∧
        ((∀ g ∈ gs, c.EXPkeepit g when a.expires ≠ .Keep) →
          (∀ g ∈ gs, c.keeps a when g) ∨ ∀ g ∈ gs, ¬c.keeps a when g) := by
  obtain ⟨one, hone⟩ : ∃ g, g ∈ gs := by
    obtain ⟨postings, -, hne, rfl, -⟩ := hlisted.postings
    exact List.exists_mem_of_ne_nil _ (by simpa using hne)
  have hstays : (∀ g ∈ gs, c.keeps a when g) →
      ¬((∀ g ∈ gs, ¬c.keeps a when g) ∨ ∃ g ∈ gs, ¬c.keeps a when g ∧
        (c.rule g).Poison = true) := by
    rintro hkeeps (h | ⟨g, hg, h, -⟩)
    · exact h one hone (hkeeps one hone)
    · exact h (hkeeps g hg)
  cases hexempt : c.exempt a with
  | true =>
    have hkeeps : ∀ g, c.keeps a when g := fun _ => .inl hexempt
    refine iff_of_true (fun order _ => ⟨_, sweep_exempt hexempt, fun g _ => ?_, ?_⟩) (.inl rfl)
    · simp [hkeeps g]
    · exact iff_of_false (by simp) (hstays fun g _ => hkeeps g)
  | false =>
  rw [or_iff_right Bool.false_ne_true]
  by_cases hroom : c.room gs.length
  · rw [and_iff_right hroom, sweep_iff hexempt hlisted hdated hroom]
    have hexpired : ∀ g ∈ gs, _ := fun g hg => (settle_default c a when hearliest hg).1
    have hremoved : ∀ g ∈ gs, _ := fun g hg => (settle_default c a when hearliest hg).2
    split
    next hempty =>
      have hall : ∀ g ∈ gs, (c.settle a when g gs).expired = true :=
        fun g hg => (hexpired g hg).mpr (.inl hempty)
      constructor
      · rintro ⟨hdue, hgone⟩
        have hnot : ∀ g ∈ gs, ¬c.keeps a when g := fun g hg => (hdue g hg).mp (hall g hg)
        obtain ⟨g, hg, hgremoved⟩ := hgone.mpr (.inl hnot)
        exact fun g' hg' => ⟨hnot g' hg', ((hremoved g hg).mp hgremoved).2 g' hg'⟩
      · intro hcond
        refine ⟨fun g hg => iff_of_true (hall g hg) (hcond g hg).1, iff_of_true ⟨one, hone, ?_⟩ ?_⟩
        · exact (hremoved one hone).mpr ⟨hall one hone, fun g hg => (hcond g hg).2⟩
        · exact .inl fun g hg => (hcond g hg).1
    next hempty =>
    split
    next hkeeper =>
      have hnone : ∀ g ∈ gs, ¬(c.settle a when g gs).expired = true := fun g hg h =>
        (((hexpired g hg).mp h).resolve_left hempty).1 hkeeper
      constructor
      · rintro ⟨hdue, -⟩ g hg
        exact not_not.mp fun h => hnone g hg ((hdue g hg).mpr h)
      · intro hkeeps
        refine ⟨fun g hg => iff_of_false (hnone g hg) (not_not.mpr (hkeeps g hg)),
          iff_of_false ?_ (hstays hkeeps)⟩
        rintro ⟨g, hg, hgremoved⟩
        exact hnone g hg ((hremoved g hg).mp hgremoved).1
    next hkeeper =>
      have hdrops : ∀ g ∈ gs, (c.settle a when g gs).expired = true ↔
          c.EXPkeepit g when a.expires = .Remove := by
        intro g hg
        rw [hexpired g hg, or_iff_right hempty, and_iff_right hkeeper]
      have hdue : (∀ g ∈ gs, (c.settle a when g gs).expired = true ↔ ¬c.keeps a when g) ↔
          ∀ g ∈ gs, c.EXPkeepit g when a.expires = .Remove ↔ ¬c.keeps a when g :=
        forall₂_congr fun g hg => by rw [hdrops g hg]
      rw [hdue]
      refine and_congr_right fun hrules => ?_
      -- a rule that poisons drops nothing, so that it has to keep the article
      have hplain : ¬∃ g ∈ gs, ¬c.keeps a when g ∧ (c.rule g).Poison = true := by
        rintro ⟨g, hg, hnot, hpoison⟩
        rw [Poison_of_EXPkeepit c ((hrules g hg).mpr hnot)] at hpoison
        exact absurd hpoison (by decide)
      rw [or_iff_left hplain]
      constructor
      · intro hgone hlet
        by_cases hkeeps : ∀ g ∈ gs, c.keeps a when g
        · exact .inl hkeeps
        · obtain ⟨g, hg, hnot⟩ : ∃ g ∈ gs, ¬c.keeps a when g := by simpa using hkeeps
          exact .inr (hgone.mp ⟨g, hg,
            (hremoved g hg).mpr ⟨(hdrops g hg).mpr ((hrules g hg).mpr hnot), hlet⟩⟩)
      · intro hcond
        constructor
        · rintro ⟨g, hg, hgremoved⟩
          obtain ⟨hgexpired, hlet⟩ := (hremoved g hg).mp hgremoved
          exact (hcond hlet).resolve_left fun hkeeps =>
            (hrules g hg).mp ((hdrops g hg).mp hgexpired) (hkeeps g hg)
        · intro hnot
          refine ⟨one, hone, (hremoved one hone).mpr ⟨?_, fun g hg hkeep => ?_⟩⟩
          · exact (hdrops one hone).mpr ((hrules one hone).mpr (hnot one hone))
          · exact absurd (hkeep.symm.trans ((hrules g hg).mpr (hnot g hg))) (by decide)
  · refine iff_of_false (fun hsweeps => ?_) fun h => hroom h.1
    obtain ⟨s, hsweep, hdue, hgone⟩ := hsweeps gs (.refl _)
    obtain rfl := sweep_crowded hexempt hlisted hdated hroom (.refl _) hsweep
    exact absurd (hgone.mpr (.inl fun g hg => (hdue g hg).mp hg)) (by simp)

/-- Each entry is dropped by the rule of its group, and the article with the last of them or by an X
flag. Of an article that is not dated in the future this is so if every rule with the X flag keeps
it. -/
theorem default_proper (hearliest : c.OVearliest = false) (hlisted : c.Listed a gs)
    (hdated : c.dated a = some when) :
    (∀ order : List Octets, order.Perm gs →
      ∃ s, c.sweep a order = .ok s ∧ (∀ g ∈ gs, g ∈ s.dropped ↔ ¬c.keeps a when g) ∧
        (s.cancelled = true ↔ (∀ g ∈ gs, ¬c.keeps a when g) ∨
          ∃ g ∈ gs, ¬c.keeps a when g ∧ (c.rule g).Poison = true)) ↔
    c.exempt a = true ∨ c.room gs.length ∧
      if c.OVrealnow + 86400 < when then
        if a.empty = true then ∀ g ∈ gs, ¬c.keeps a when g ∧ ¬c.keepsAtLimit a g
        else if c.OVkeep = true ∧ ∃ g ∈ gs, c.keepsAtLimit a g then ∀ g ∈ gs, c.keeps a when g
        else (∀ g ∈ gs, if c.keeps a when g then c.keepsAtLimit a g ∨ (c.rule g).Poison = true
            else ¬c.keepsAtLimit a g ∧ (c.rule g).Poison = false) ∧
          ((∀ g ∈ gs, ¬c.keepsAtLimit a g) → (∀ g ∈ gs, c.keeps a when g) ∨
            ∀ g ∈ gs, ¬c.keeps a when g)
      else if a.empty = true then ∀ g ∈ gs, ¬c.keeps a when g
      else if c.OVkeep = true ∧ ∃ g ∈ gs, c.keeps a when g then ∀ g ∈ gs, c.keeps a when g
      else ∀ g ∈ gs, (c.rule g).Poison = true → c.keeps a when g := by
  rw [default_iff hearliest hlisted hdated]
  cases hexempt : c.exempt a with
  | true => simp
  | false =>
    rw [or_iff_right Bool.false_ne_true, or_iff_right Bool.false_ne_true]
    refine and_congr_right fun _ => ?_
    by_cases hfuture : c.OVrealnow + 86400 < when
    · simp only [if_pos hfuture, EXPkeepit_future c a hfuture, ne_eq, krp_Keep_iff, krp_Remove_iff]
      by_cases hempty : a.empty = true
      · simp only [if_pos hempty]
      by_cases hkeeper : c.OVkeep = true ∧ ∃ g ∈ gs, c.keepsAtLimit a g
      · simp only [if_neg hempty, if_pos hkeeper]
      simp only [if_neg hempty, if_neg hkeeper]
      refine and_congr_left fun _ => forall₂_congr fun g _ => ?_
      split
      next hkeeps => cases (c.rule g).Poison <;> simp [hkeeps]
      next hkeeps => simp [hkeeps]
    · simp only [if_neg hfuture, EXPkeepit_dated c a hfuture hexempt, ne_eq, krp_Keep_iff,
        krp_Remove_iff, and_self]
      by_cases hempty : a.empty = true
      · simp only [if_pos hempty]
      by_cases hkeeper : c.OVkeep = true ∧ ∃ g ∈ gs, c.keeps a when g
      · simp only [if_neg hempty, if_pos hkeeper]
      simp only [if_neg hempty, if_neg hkeeper]
      refine (and_iff_left fun hnone => .inr hnone).trans (forall₂_congr fun g _ => ?_)
      cases (c.rule g).Poison <;> simp

theorem crosspost_default_proper :
    ∃ s, (rules false false).sweep crosspost [octets "b", octets "a"] = .ok s ∧
      (∀ g ∈ [octets "a", octets "b"], g ∈ s.dropped ↔
        ¬(rules false false).keeps crosspost 2000000 g) ∧
      (s.cancelled = true ↔
        (∀ g ∈ [octets "a", octets "b"], ¬(rules false false).keeps crosspost 2000000 g) ∨
        ∃ g ∈ [octets "a", octets "b"], ¬(rules false false).keeps crosspost 2000000 g ∧
          ((rules false false).rule g).Poison = true) :=
  (default_proper rfl (crosspost_listed false false) rfl).mpr (.inr (by decide)) [octets "b",
    octets "a"] (.swap _ _ _)

/-- The group whose rule takes an article out of all groups is the one that it stays in. -/
theorem not_default_proper :
    ¬∀ (c : Control) (a : Article) (gs : List Octets) (when : Int), c.OVearliest = false →
      c.OVkeep = false →
      c.Listed a gs → c.dated a = some when → ∀ order : List Octets, order.Perm gs →
        ∃ s, c.sweep a order = .ok s ∧ (∀ g ∈ gs, g ∈ s.dropped ↔ ¬c.keeps a when g) ∧
          (s.cancelled = true ↔ (∀ g ∈ gs, ¬c.keeps a when g) ∨
            ∃ g ∈ gs, ¬c.keeps a when g ∧ (c.rule g).Poison = true) := by
  intro hall
  obtain ⟨s, hsweep, hdue, -⟩ :=
    hall (rules false true) crosspost _ 2000000 rfl rfl (crosspost_listed false true) rfl
    _ (.refl _)
  have hkept : (rules false true).sweep crosspost [octets "a", octets "b"] = .ok ⟨[], false⟩ := by
    decide
  obtain rfl := Except.ok.inj (hkept.symm.trans hsweep)
  exact absurd ((hdue (octets "b") (mem_cons_of_mem _ mem_cons_self)).mpr (by decide)) (by simp)

end Modes

end Inn.Storage.GroupExpiry
