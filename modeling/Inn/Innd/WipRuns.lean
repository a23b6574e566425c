import Inn.Innd.WipOwners

/-!
# Runs of the channels

The channels take their steps in any order. The table and the rings stay sound
whatever they do. The entry of an article that a channel receives can only be lost to
another channel that clears it by its hash: a second `TAKETHIS` for the same
message-ID takes note of the entry of the first, and clears it when it is done.
-/

namespace Inn.Innd.Wip

open Foundation.Runs

variable {Hash : Octets → HASH} {innconf : Innconf} {s : State} {cp : Nat}

theorem State.idle_iff :
    s.idle cp = true ↔ (s.channels cp).isOpen = true ∧ (s.channels cp).receiving = none := by
  rw [State.idle, Bool.and_eq_true, Option.isNone_iff_eq_none]

theorem not_receives {e : WIP} (hidle : (s.channels cp).receiving = none) (hchan : e.Chan = cp) :
    ¬Receives Hash s e := by
  rintro ⟨mid, hreceiving, _⟩
  rw [hchan, hidle] at hreceiving
  cases hreceiving

def cleared (s : State) : Action → Option (Nat × HASH)
  | .create cp => if (s.channels cp).isOpen then none else some (cp, HashClear)
  | .ihave cp _ => if s.idle cp then some (cp, (s.channels cp).CurrentMessageIDHash) else none
  | .complete cp _ => if s.busy cp then some (cp, (s.channels cp).CurrentMessageIDHash) else none
  | .close cp => if (s.channels cp).isOpen then some (cp,
      (s.channels cp).CurrentMessageIDHash) else none
  | _ => none

def ClearsOwn (Hash : Octets → HASH) (innconf : Innconf) (s : State) (action : Action) : Prop :=
  ∀ c ∈ cleared s action, ∀ e ∈ WIPbyhash s c.2, e.Chan = c.1 ∨ ¬Receives Hash s e ∨
    Expired innconf s e

instance (s : State) (action : Action) : Decidable (ClearsOwn Hash innconf s action) :=
  inferInstanceAs (Decidable (∀ c ∈ cleared s action, ∀ e ∈ WIPbyhash s c.2,
    e.Chan = c.1 ∨ ¬Receives Hash s e ∨ Expired innconf s e))

def FinishedBy (cp : Nat) : Action → Prop
  | .complete other _ => other = cp
  | .close other => other = cp
  | _ => False

/-- An article that is being received stays until it is done. -/
def KeepsReceived (Hash : Octets → HASH) (innconf : Innconf) (s : State) (action : Action) : Prop :=
  ∀ e, s.Has e → Receives Hash s e → ¬(step Hash innconf s action).Has e →
    FinishedBy e.Chan action ∨ Expired innconf s e

theorem State.busy_iff :
    s.busy cp = true ↔ (s.channels cp).isOpen = true ∧ (s.channels cp).receiving.isSome = true := by
  rw [State.busy, Bool.and_eq_true]

theorem NCcheck_inv (hinv : Inv s) (hidle : s.idle cp = true) (msgid : Octets) :
    Inv (NCcheck Hash innconf s cp msgid) ∧
      ∀ e, s.Has e → ¬(NCcheck Hash innconf s cp msgid).Has e →
        e.Chan = cp ∨ Expired innconf s e := by
  unfold NCcheck
  rcases WIPinprogress_cases Hash innconf msgid cp hinv.table true with hsame | ⟨o, s', hfrees,
    hold, hnew, heq⟩
  · rw [hsame]
    exact ⟨hinv, fun e hhas hgone => absurd hhas hgone⟩
  · rw [heq]
    have hopen := (hfrees.isOpen cp).trans (State.idle_iff.mp hidle).1
    obtain ⟨hinv', hgone'⟩ := precommit_inv (hfrees.inv hinv) hopen hnew
    refine ⟨hinv', fun e hhas hgone => ?_⟩
    by_cases hfreed : o = some e
    · exact .inr (hold e hfreed)
    · exact .inl (hgone' e ((hfrees.has e).mpr ⟨hhas, hfreed⟩) hgone)

theorem NCihave_inv (hinv : Inv s) (hidle : s.idle cp = true) (msgid : Octets) :
    Inv (NCihave Hash innconf s cp msgid) ∧
      ∀ e, s.Has e → ¬(NCihave Hash innconf s cp msgid).Has e →
        WIPbyhash s (s.channels cp).CurrentMessageIDHash = some e ∨ Expired innconf s e := by
  obtain ⟨hopen, hnone⟩ := State.idle_iff.mp hidle
  unfold NCihave
  rcases WIPinprogress_cases Hash innconf msgid cp hinv.table false with hsame | ⟨o, s', hfrees,
    hold, hnew, heq⟩
  · split
    next s₁ heq =>
      rw [heq] at hsame
      obtain rfl : s₁ = s := hsame
      exact ⟨hinv, fun e hhas hgone => absurd hhas hgone⟩
    next s₁ heq =>
      rw [heq] at hsame
      obtain rfl : s₁ = s := hsame
      exact ⟨hinv.setChannel rfl hopen (hinv.ringed hnone), fun e hhas hgone => absurd hhas hgone⟩
  · rw [heq]
    have hnone' := (hfrees.receiving cp).trans hnone
    obtain ⟨htable, howned, hgone', hcurrent, hopen', hidle'⟩ :=
      commit_owned (hfrees.inv hinv) hnew hnone'
    refine ⟨receive_inv htable howned rfl ?_ rfl hidle' ?_, fun e hhas hgone => ?_⟩
    · exact hopen'.trans ((hfrees.isOpen cp).trans hopen)
    · intro e he
      cases he
      exact ⟨rfl, hcurrent⟩
    · by_cases hfreed : o = some e
      · exact .inr (hold e hfreed)
      · have hfound := hgone' e ((hfrees.has e).mpr ⟨hhas, hfreed⟩) hgone
        rw [hfrees.current] at hfound
        exact .inl ((WIPbyhash_eq_some hinv.table).mpr
          ⟨hhas, ((WIPbyhash_eq_some (hfrees.table hinv.table)).mp hfound).2⟩)

theorem NCtakethis_eq (s : State) (cp : Nat) (mid : Octets) :
    NCtakethis Hash s cp mid =
      match WIPbyid Hash s mid with
      | some wp =>
        s.setChannel cp
          { s.channels cp with
            ArtBeg := s.Now
            receiving := some mid
            CurrentMessageIDHash := wp.MessageID }
      | none =>
        (WIPnew Hash s mid cp).setChannel cp
          { s.channels cp with
            ArtBeg := s.Now
            receiving := some mid
            CurrentMessageIDHash := Hash mid } := by
  unfold NCtakethis
  have hsame : ∀ channel, WIPbyid Hash (s.setChannel cp channel) mid = WIPbyid Hash s mid :=
    fun _ => rfl
  have hnew : ∀ channel, WIPnew Hash (s.setChannel cp channel) mid cp =
      (WIPnew Hash s mid cp).setChannel cp channel :=
    fun _ => rfl
  simp only [hsame, hnew]
  cases WIPbyid Hash s mid with
  | none =>
    simp only [if_true, setChannel_self, setChannel_setChannel, Option.getD_none]
    rfl
  | some wp => simp only [reduceCtorEq, if_false, setChannel_self, setChannel_setChannel,
      Option.getD_some]

theorem NCtakethis_inv (hinv : Inv s) (hidle : s.idle cp = true) (mid : Octets) :
    Inv (NCtakethis Hash s cp mid) ∧ ∀ e, s.Has e → (NCtakethis Hash s cp mid).Has e := by
  obtain ⟨hopen, hnone⟩ := State.idle_iff.mp hidle
  rw [NCtakethis_eq]
  cases hfind : WIPbyid Hash s mid with
  | some wp => exact ⟨hinv.setChannel rfl hopen (hinv.ringed hnone), fun e hhas => hhas⟩
  | none =>
    have htable := WIPnew_table cp hinv.table ((WIPbyhash_eq_none hinv.table).mp hfind)
    refine ⟨receive_inv htable (?_ : OwnedBut (some (s.newWIP Hash mid cp)) _) rfl hopen rfl hnone
      ?_, fun e hhas => ?_⟩
    · intro e hhas hne
      have howned :=
        hinv.owned e (((WIPnew_has e).mp hhas).resolve_right fun h => hne (congrArg some h.symm))
      exact ⟨howned.isOpen, howned.held⟩
    · intro e he
      cases he
      exact ⟨rfl, rfl⟩
    · exact (WIPnew_has e).mpr (.inl hhas)

theorem ARTpost_inv (hinv : Inv s) (hopen : (s.channels cp).isOpen = true) :
    Inv (ARTpost s cp) where
  table := hinv.table.setChannel rfl
  owned := fun e hhas => by
    have howned := hinv.owned e hhas
    unfold ARTpost
    by_cases hchan : e.Chan = cp
    · subst hchan
      constructor
      · rw [setChannel_self]
        exact hopen
      · rw [setChannel_self]
        exact howned.held
    · constructor
      · rw [setChannel_of_ne s hchan]
        exact howned.isOpen
      · rw [setChannel_of_ne s hchan]
        exact howned.held

theorem clear_inv (hinv : Inv s) (hopen : (s.channels cp).isOpen = true) :
    Inv ((NCclearwip s cp).setChannel cp { (NCclearwip s cp).channels cp with receiving := none }) ∧
      ∀ e, s.Has e → ¬(NCclearwip s cp).Has e →
        WIPbyhash s (s.channels cp).CurrentMessageIDHash = some e := by
  obtain ⟨hclear, hringed⟩ := NCclearwip_inv hinv hopen
  have hopen' : ((NCclearwip s cp).channels cp).isOpen = true := by
    unfold NCclearwip
    rw [setChannel_self]
    exact ((WIPfree_frees hinv.table).isOpen cp).trans hopen
  refine ⟨hclear.setChannel rfl hopen' hringed, fun e hhas hgone => ?_⟩
  by_contra hne
  exact hgone ((NCclearwip_has hinv.table cp e).mpr ⟨hhas, hne⟩)

theorem complete_inv (hinv : Inv s) (hbusy : s.busy cp = true) (accepted : Bool) :
    Inv (complete s cp accepted) ∧
      ∀ e, s.Has e → ¬(complete s cp accepted).Has e →
        WIPbyhash s (s.channels cp).CurrentMessageIDHash = some e := by
  have hopen := (State.busy_iff.mp hbusy).1
  cases accepted with
  | false => exact clear_inv hinv hopen
  | true =>
    have hposted : (ARTpost s cp).channels cp = { s.channels cp with
        ArtMax := ((ARTpost s cp).channels cp).ArtMax
        ArtBeg := 0 } := by
      unfold ARTpost
      rw [setChannel_self]
    have hopen' : ((ARTpost s cp).channels cp).isOpen = true := by
      rw [hposted]
      exact hopen
    have hclear := clear_inv (ARTpost_inv hinv hopen) hopen'
    rw [hposted] at hclear
    exact hclear

theorem CHANclose_gone (hinv : Inv s) {e : WIP} (hhas : s.Has e) (hgone : ¬(CHANclose s cp).Has e) :
    e.Chan = cp ∨ WIPbyhash s (s.channels cp).CurrentMessageIDHash = some e := by
  have hfrees := WIPprecomfree_frees hinv.table cp
  by_cases hslot : ∃ i, (s.channels cp).PrecommitWIP i = some e
  · obtain ⟨i, hslot⟩ := hslot
    exact .inl (hinv.table.slots cp i e hslot).2
  · right
    have hkept := (hfrees.has e).mpr ⟨hhas, hslot⟩
    have hclose : (CHANclose s cp).Has e ↔ (NCclearwip (WIPprecomfree s cp) cp).Has e := by
      simp only [CHANclose, setChannel_has]
    rw [hclose, NCclearwip_has (hfrees.table hinv.table), hfrees.current] at hgone
    have hfound := not_not.mp fun hne => hgone ⟨hkept, hne⟩
    exact (WIPbyhash_eq_some hinv.table).mpr ⟨hhas,
      ((WIPbyhash_eq_some (hfrees.table hinv.table)).mp hfound).2⟩

theorem NCcreate_gone {e : WIP} (htable : Table s)
    (hring : (fun _ => none) = (s.channels cp).PrecommitWIP)
    (hhas : s.Has e) (hgone : ¬(NCcreate s cp).Has e) : WIPbyhash s HashClear = some e := by
  have hopened : Table (s.setChannel cp { CHANnull with isOpen := true }) := htable.setChannel hring
  by_contra hne
  refine hgone ((NCclearwip_has hopened cp e).mpr ⟨hhas, ?_⟩)
  rw [setChannel_self]
  exact hne

theorem step_create (hinv : Inv s) (hclears : ClearsOwn Hash innconf s (.create cp)) :
    Inv (step Hash innconf s (.create cp)) ∧ KeepsReceived Hash innconf s (.create cp) := by
  unfold KeepsReceived
  simp only [step]
  split
  next _ => exact ⟨hinv, fun e hhas _ hgone => absurd hhas hgone⟩
  next hclosed =>
    have hclosed := eq_false_of_ne_true hclosed
    refine ⟨NCcreate_inv hinv hclosed, fun e hhas hreceives hgone => .inr ?_⟩
    have hfound := NCcreate_gone hinv.table (hinv.ring_of_closed hclosed) hhas hgone
    rcases hclears (cp, HashClear) (by rw [cleared, hclosed]; rfl) e hfound with hchan |
      hnot | hexpired
    · exact absurd hchan (hinv.none_of_closed hclosed e hhas)
    · exact absurd hreceives hnot
    · exact hexpired

theorem step_ihave (hinv : Inv s) {msgid : Octets}
    (hclears : ClearsOwn Hash innconf s (.ihave cp msgid)) :
    Inv (step Hash innconf s (.ihave cp msgid)) ∧
      KeepsReceived Hash innconf s (.ihave cp msgid) := by
  unfold KeepsReceived
  simp only [step]
  split
  next hidle =>
    obtain ⟨hinv', hgone'⟩ := NCihave_inv hinv hidle msgid
    refine ⟨hinv', fun e hhas hreceives hgone => .inr ?_⟩
    refine (hgone' e hhas hgone).elim (fun hfound => ?_) id
    rcases hclears (cp, _) (by rw [cleared, hidle]; rfl) e hfound with hchan | hnot | hexpired
    · exact absurd hreceives (not_receives (State.idle_iff.mp hidle).2 hchan)
    · exact absurd hreceives hnot
    · exact hexpired
  next _ => exact ⟨hinv, fun e hhas _ hgone => absurd hhas hgone⟩

theorem step_complete (hinv : Inv s) {accepted : Bool}
    (hclears : ClearsOwn Hash innconf s (.complete cp accepted)) :
    Inv (step Hash innconf s (.complete cp accepted)) ∧
      KeepsReceived Hash innconf s (.complete cp accepted) := by
  unfold KeepsReceived
  simp only [step]
  split
  next hbusy =>
    obtain ⟨hinv', hgone'⟩ := complete_inv hinv hbusy accepted
    refine ⟨hinv', fun e hhas hreceives hgone => ?_⟩
    rcases hclears (cp, _) (by rw [cleared, hbusy]; rfl) e (hgone' e hhas hgone) with hchan |
      hnot | hexpired
    · exact .inl hchan.symm
    · exact absurd hreceives hnot
    · exact .inr hexpired
  next _ => exact ⟨hinv, fun e hhas _ hgone => absurd hhas hgone⟩

theorem step_close (hinv : Inv s) (hclears : ClearsOwn Hash innconf s (.close cp)) :
    Inv (step Hash innconf s (.close cp)) ∧ KeepsReceived Hash innconf s (.close cp) := by
  unfold KeepsReceived
  simp only [step]
  split
  next hopen =>
    refine ⟨CHANclose_inv hinv hopen, fun e hhas hreceives hgone => ?_⟩
    rcases CHANclose_gone hinv hhas hgone with hchan | hfound
    · exact .inl hchan.symm
    rcases hclears (cp, _) (by rw [cleared, hopen]; rfl) e hfound with hchan | hnot | hexpired
    · exact .inl hchan.symm
    · exact absurd hreceives hnot
    · exact .inr hexpired
  next _ => exact ⟨hinv, fun e hhas _ hgone => absurd hhas hgone⟩

theorem step_inv (s : State) (action : Action) (hinv : Inv s)
    (hclears : ClearsOwn Hash innconf s action) :
    Inv (step Hash innconf s action) ∧ KeepsReceived Hash innconf s action := by
  cases action with
  | tick Now =>
    have htable := hinv.table
    refine ⟨⟨{ htable with }, ?_⟩, ?_⟩
    · exact fun e hhas => ⟨(hinv.owned e hhas).isOpen, (hinv.owned e hhas).held⟩
    · exact fun e hhas _ hgone => absurd hhas hgone
  | create cp => exact step_create hinv hclears
  | check cp msgid =>
    unfold KeepsReceived
    simp only [step]
    split
    next hidle =>
      obtain ⟨hinv', hgone'⟩ := NCcheck_inv hinv hidle msgid
      refine ⟨hinv', fun e hhas hreceives hgone => .inr ?_⟩
      exact (hgone' e hhas hgone).resolve_left fun hchan =>
        not_receives (State.idle_iff.mp hidle).2 hchan hreceives
    next _ => exact ⟨hinv, fun e hhas _ hgone => absurd hhas hgone⟩
  | ihave cp msgid => exact step_ihave hinv hclears
  | takethis cp mid =>
    unfold KeepsReceived
    simp only [step]
    split
    next hidle =>
      obtain ⟨hinv', hkept⟩ := NCtakethis_inv hinv hidle mid
      exact ⟨hinv', fun e hhas _ hgone => absurd (hkept e hhas) hgone⟩
    next _ => exact ⟨hinv, fun e hhas _ hgone => absurd hhas hgone⟩
  | complete cp accepted => exact step_complete hinv hclears
  | close cp => exact step_close hinv hclears

theorem WIPsetup_inv (Now : Int) : Inv (WIPsetup Now) where
  table := by
    refine ⟨fun _ _ h => ?_, fun _ => List.nodup_nil, fun _ _ h => ?_, fun _ h => ?_, nofun, nofun⟩
    · cases h
    · cases h
    · cases h
  owned := fun _ h => by cases h

/-- No hash is in progress twice, or for a channel that is closed. -/
structure Sound (s : State) : Prop where
  once : ∀ b b' e e', e ∈ s.WIPtable b → e' ∈ s.WIPtable b' → e.MessageID = e'.MessageID →
    e = e' ∧ b = b'
  nodup : ∀ b, (s.WIPtable b).Nodup
  slots : ∀ cp i e, (s.channels cp).PrecommitWIP i = some e → s.Has e ∧ e.Chan = cp
  isOpen : ∀ b e, e ∈ s.WIPtable b → (s.channels e.Chan).isOpen = true

theorem Inv.sound (hinv : Inv s) : Sound s := by
  have hhas : ∀ b e, e ∈ s.WIPtable b → s.Has e := by
    intro b e hmem
    rw [State.Has, hinv.table.placed b e hmem]
    exact hmem
  refine ⟨fun b b' e e' he he' heq => ?_, hinv.table.nodup, hinv.table.slots, fun b e he => ?_⟩
  · obtain rfl := hinv.table.unique e e' (hhas b e he) (hhas b' e' he') heq
    exact ⟨rfl, (hinv.table.placed b e he).symm.trans (hinv.table.placed b' e he')⟩
  · exact (hinv.owned e (hhas b e he)).isOpen

/-- In a run whose channels clear only entries of their own among those of articles that are
being received, the table stays sound, and the entry of an article that a channel still
receives goes only when it has expired. -/
theorem workInProgress_sound (Hash : Octets → HASH) (innconf : Innconf) (Now : Int)
    (actions : List Action)
    (hclears : Throughout (step Hash innconf) (ClearsOwn Hash innconf) actions (WIPsetup Now)) :
    Sound (actions.foldl (step Hash innconf) (WIPsetup Now)) ∧
      Throughout (step Hash innconf) (KeepsReceived Hash innconf) actions (WIPsetup Now) := by
  obtain ⟨hend, hkeeps⟩ := throughout_invariant step_inv actions (WIPsetup_inv Now) hclears
  exact ⟨hend.sound, hkeeps⟩

/-- Two channels are offered one article. The second is asked to wait until the first has it. -/
theorem workInProgress_sound_deferred :
    Throughout (step (fun _ => HASH.fill 1) ⟨5, 10⟩) (ClearsOwn (fun _ => HASH.fill 1) ⟨5, 10⟩)
        [.create 1, .create 2, .takethis 1 (octets "<a@b>"), .ihave 2 (octets "<a@b>"),
          .complete 1 true, .close 2]
        (WIPsetup 0) ∧
      Sound ([.create 1, .create 2, .takethis 1 (octets "<a@b>"), .ihave 2 (octets "<a@b>"),
        .complete 1 true,
        .close 2].foldl (step (fun _ => HASH.fill 1) ⟨5, 10⟩) (WIPsetup 0)) :=
  ⟨by decide, (workInProgress_sound (fun _ => HASH.fill 1) ⟨5, 10⟩ 0
    [.create 1, .create 2, .takethis 1 (octets "<a@b>"), .ihave 2 (octets "<a@b>"),
      .complete 1 true, .close 2]
    (by decide)).1⟩

/-- Two channels are sent one article by `TAKETHIS`. The one that finishes first clears the
entry of the other. -/
theorem not_keepsReceived_takethis :
    ¬Throughout (step (fun _ => HASH.fill 1) ⟨5, 10⟩) (KeepsReceived (fun _ => HASH.fill 1) ⟨5, 10⟩)
      [.create 1, .create 2, .takethis 1 (octets "<a@b>"), .takethis 2 (octets "<a@b>"),
        .complete 2 true]
      (WIPsetup 0) := by
  intro hkeeps
  have hlast := hkeeps.2.2.2.2.1 ⟨0, HASH.fill 1, 0, 1⟩ (by decide) (by decide) (by decide)
  rcases hlast with hfinished | hexpired
  · exact absurd hfinished nofun
  · exact absurd hexpired (by decide)

end Inn.Innd.Wip
