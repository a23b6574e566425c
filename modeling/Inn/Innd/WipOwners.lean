import Inn.Innd.Wip

/-!
# Owners of the work in progress

An entry that the table holds belongs to an open channel, and either a slot of the
channel's ring points to it or it is the entry of the article that the channel
receives. Removing entries keeps this, whichever they are. What a channel receives
stays in the table if no other channel clears the entry.
-/

namespace Inn.Innd.Wip

open Foundation.Runs

def State.Has (s : State) (e : WIP) : Prop := e ∈ s.WIPtable (bucket e.MessageID)

instance (s : State) (e : WIP) : Decidable (s.Has e) := inferInstanceAs (Decidable (e ∈ _))

/-- Each hash is in the table once, and the slots point into it. -/
structure Table (s : State) : Prop where
  placed : ∀ b e, e ∈ s.WIPtable b → bucket e.MessageID = b
  nodup : ∀ b, (s.WIPtable b).Nodup
  unique : ∀ e e', s.Has e → s.Has e' → e.MessageID = e'.MessageID → e = e'
  fresh : ∀ e, s.Has e → e.address < s.next
  slots : ∀ cp i e, (s.channels cp).PrecommitWIP i = some e → s.Has e ∧ e.Chan = cp
  once : ∀ cp i j e, (s.channels cp).PrecommitWIP i = some e →
    (s.channels cp).PrecommitWIP j = some e → i = j

/-- The channel of an entry is open and holds it, or receives it. -/
structure Owned (s : State) (e : WIP) : Prop where
  isOpen : (s.channels e.Chan).isOpen = true
  held : (∃ i, (s.channels e.Chan).PrecommitWIP i = some e) ∨
    (s.channels e.Chan).receiving.isSome = true ∧
      (s.channels e.Chan).CurrentMessageIDHash = e.MessageID

/-- Every entry of the table is owned. -/
structure Inv (s : State) : Prop where
  table : Table s
  owned : ∀ e, s.Has e → Owned s e

/-- Just the entries of `gone` are freed. -/
structure Frees (gone : WIP → Prop) (s s' : State) : Prop where
  sub : ∀ b, (s'.WIPtable b).Sublist (s.WIPtable b)
  mem : ∀ b e, e ∈ s'.WIPtable b ↔ e ∈ s.WIPtable b ∧ ¬gone e
  slot : ∀ cp i e, (s'.channels cp).PrecommitWIP i = some e ↔
    (s.channels cp).PrecommitWIP i = some e ∧ ¬gone e
  isOpen : ∀ cp, (s'.channels cp).isOpen = (s.channels cp).isOpen
  receiving : ∀ cp, (s'.channels cp).receiving = (s.channels cp).receiving
  current : ∀ cp, (s'.channels cp).CurrentMessageIDHash = (s.channels cp).CurrentMessageIDHash
  next : s'.next = s.next
  Now : s'.Now = s.Now

variable {s s' s'' : State} {gone gone' : WIP → Prop}

theorem Frees.has (hfrees : Frees gone s s') (e : WIP) : s'.Has e ↔ s.Has e ∧ ¬gone e :=
  hfrees.mem (bucket e.MessageID) e

theorem Frees.refl (hnone : ∀ e, ¬gone e) (s : State) : Frees gone s s where
  sub := fun _ => List.Sublist.refl _
  mem := fun _ e => ⟨fun hmem => ⟨hmem, hnone e⟩, fun h => h.1⟩
  slot := fun _ _ e => ⟨fun hslot => ⟨hslot, hnone e⟩, fun h => h.1⟩
  isOpen := fun _ => rfl
  receiving := fun _ => rfl
  current := fun _ => rfl
  next := rfl
  Now := rfl

theorem Frees.trans (hfrees : Frees gone s s') (hfrees' : Frees gone' s' s'') :
    Frees (fun e => gone e ∨ gone' e) s s'' where
  sub := fun b => (hfrees'.sub b).trans (hfrees.sub b)
  mem := fun b e => by rw [hfrees'.mem, hfrees.mem, and_assoc, not_or]
  slot := fun cp i e => by rw [hfrees'.slot, hfrees.slot, and_assoc, not_or]
  isOpen := fun cp => (hfrees'.isOpen cp).trans (hfrees.isOpen cp)
  receiving := fun cp => (hfrees'.receiving cp).trans (hfrees.receiving cp)
  current := fun cp => (hfrees'.current cp).trans (hfrees.current cp)
  next := hfrees'.next.trans hfrees.next
  Now := hfrees'.Now.trans hfrees.Now

theorem Frees.table (hfrees : Frees gone s s') (htable : Table s) : Table s' where
  placed := fun b e hmem => htable.placed b e ((hfrees.mem b e).mp hmem).1
  nodup := fun b => (htable.nodup b).sublist (hfrees.sub b)
  unique :=
    fun e e' he he' heq =>
    htable.unique e e' ((hfrees.has e).mp he).1 ((hfrees.has e').mp he').1 heq
  fresh := fun e he => by
    rw [hfrees.next]
    exact htable.fresh e ((hfrees.has e).mp he).1
  slots := fun cp i e hslot => by
    obtain ⟨hslot, hkept⟩ := (hfrees.slot cp i e).mp hslot
    obtain ⟨hhas, hchan⟩ := htable.slots cp i e hslot
    exact ⟨(hfrees.has e).mpr ⟨hhas, hkept⟩, hchan⟩
  once := fun cp i j e hi hj =>
    htable.once cp i j e ((hfrees.slot cp i e).mp hi).1 ((hfrees.slot cp j e).mp hj).1

theorem Frees.owned (hfrees : Frees gone s s') {e : WIP} (hkept : ¬gone e) (howned : Owned s e) :
    Owned s' e where
  isOpen := (hfrees.isOpen e.Chan).trans howned.isOpen
  held := by
    rw [hfrees.receiving, hfrees.current]
    exact howned.held.imp_left fun ⟨i, hslot⟩ => ⟨i, (hfrees.slot e.Chan i e).mpr ⟨hslot, hkept⟩⟩

theorem Frees.inv (hfrees : Frees gone s s') (hinv : Inv s) : Inv s' where
  table := hfrees.table hinv.table
  owned := fun e he => hfrees.owned ((hfrees.has e).mp he).2 (hinv.owned e ((hfrees.has e).mp he).1)

theorem forget_eq {slots : Fin PRECOMMITCACHESIZE → Option WIP} {wp : WIP}
    (honce : ∀ i j, slots i = some wp → slots j = some wp → i = j) (i : Fin PRECOMMITCACHESIZE) :
    forget slots wp i = if slots i = some wp then none else slots i := by
  cases hfind : (List.finRange PRECOMMITCACHESIZE).find? fun i => slots i = some wp with
  | some j =>
    have hj : slots j = some wp := by simpa using List.find?_some hfind
    simp only [forget, hfind]
    by_cases hi : slots i = some wp
    · rw [honce i j hi hj, Function.update_self, if_pos hj]
    · rw [if_neg hi, Function.update_of_ne]
      rintro rfl
      exact hi hj
  | none =>
    simp only [forget, hfind]
    rw [if_neg]
    intro hi
    exact List.find?_eq_none.mp hfind i (List.mem_finRange i) (decide_eq_true hi)

theorem forget_channel (s : State) (wp : WIP) (cp : Nat) :
    (s.forget wp).channels cp =
      { s.channels cp with
        PrecommitWIP := if cp = wp.Chan then forget (s.channels cp).PrecommitWIP wp
          else (s.channels cp).PrecommitWIP } := by
  by_cases hcp : cp = wp.Chan
  · subst hcp
    rw [if_pos rfl, State.forget, setChannel_self]
  · rw [if_neg hcp, State.forget, setChannel_of_ne s hcp]

theorem forget_slot (htable : Table s) (wp : WIP) (cp : Nat)
    (i : Fin PRECOMMITCACHESIZE) (e : WIP) :
    ((s.forget wp).channels cp).PrecommitWIP i = some e ↔
      (s.channels cp).PrecommitWIP i = some e ∧ ¬some wp = some e := by
  rw [forget_channel]
  by_cases hcp : cp = wp.Chan
  · simp only [hcp, if_true]
    rw [forget_eq fun i j => htable.once wp.Chan i j wp]
    by_cases hi : (s.channels wp.Chan).PrecommitWIP i = some wp
    · rw [if_pos hi, hi]
      exact ⟨nofun, fun h => absurd h.1 h.2⟩
    · rw [if_neg hi]
      exact ⟨fun he => ⟨he, fun heq => hi (he.trans heq.symm)⟩, fun h => h.1⟩
  · simp only [hcp, if_false]
    refine ⟨fun he => ⟨he, fun heq => ?_⟩, fun h => h.1⟩
    cases heq
    exact hcp (htable.slots cp i wp he).2.symm

theorem WIPfree_frees (htable : Table s) {o : Option WIP} :
    Frees (fun e => o = some e) s (WIPfree s o) := by
  cases o with
  | none => exact Frees.refl nofun s
  | some wp =>
    have htables : ∀ b, (WIPfree s (some wp)).WIPtable b = (s.WIPtable b).erase wp := by
      intro b
      by_cases hb : b = bucket wp.MessageID
      · subst hb
        exact setBucket_self _ _ _
      · rw [List.erase_of_not_mem fun hmem => hb (htable.placed b wp hmem).symm]
        exact setBucket_of_ne (s.forget wp) hb _
    have hchannel : ∀ cp, (WIPfree s (some wp)).channels cp = (s.forget wp).channels cp :=
      fun _ => rfl
    constructor
    · intro b
      rw [htables]
      exact List.erase_sublist
    · intro b e
      rw [htables, (htable.nodup b).mem_erase_iff]
      constructor
      · exact fun h => ⟨h.2, fun heq => h.1 (Option.some.inj heq).symm⟩
      · exact fun h => ⟨fun heq => h.2 (congrArg some heq.symm), h.1⟩
    · intro cp i e
      rw [hchannel]
      exact forget_slot htable wp cp i e
    · intro cp
      rw [hchannel, forget_channel]
    · intro cp
      rw [hchannel, forget_channel]
    · intro cp
      rw [hchannel, forget_channel]
    · rfl
    · rfl

theorem WIPfree_forget (htable : Table s) (wp : WIP) :
    WIPfree (s.forget wp) (some wp) = WIPfree s (some wp) := by
  have hagain : (s.forget wp).forget wp = s.forget wp := by
    have hchannels : ((s.forget wp).forget wp).channels = (s.forget wp).channels := by
      funext cp
      rw [forget_channel, forget_channel]
      by_cases hcp : cp = wp.Chan
      · simp only [hcp, if_true]
        congr 1
        funext i
        have honce := fun i j => htable.once wp.Chan i j wp
        rw [forget_eq, forget_eq honce]
        · by_cases hi : (s.channels wp.Chan).PrecommitWIP i = some wp
          · rw [if_pos hi, if_neg nofun]
          · rw [if_neg hi, if_neg hi]
        · intro j k hj
          rw [forget_eq honce] at hj
          split at hj
          · cases hj
          next hne => exact absurd hj hne
      · simp only [hcp, if_false]
    calc (s.forget wp).forget wp
        = { s with channels := ((s.forget wp).forget wp).channels } := rfl
      _ = s.forget wp := by rw [hchannels]; rfl
  change ((s.forget wp).forget wp).setBucket _ ((((s.forget wp).forget wp).WIPtable _).erase wp) = _
  rw [hagain]
  rfl

theorem WIPbyhash_eq_some (htable : Table s) {hash : HASH} {e : WIP} :
    WIPbyhash s hash = some e ↔ s.Has e ∧ e.MessageID = hash := by
  constructor
  · intro hfind
    unfold WIPbyhash at hfind
    have hhash : e.MessageID = hash := by simpa using List.find?_some hfind
    refine ⟨?_, hhash⟩
    rw [State.Has, hhash]
    exact List.mem_of_find?_eq_some hfind
  · rintro ⟨hhas, rfl⟩
    cases hfind : WIPbyhash s e.MessageID with
    | none => exact absurd (decide_eq_true rfl) (List.find?_eq_none.mp hfind e hhas)
    | some e' =>
      unfold WIPbyhash at hfind
      have hhash : e'.MessageID = e.MessageID := by simpa using List.find?_some hfind
      have hhas' : s.Has e' := by
        rw [State.Has, hhash]
        exact List.mem_of_find?_eq_some hfind
      rw [htable.unique e' e hhas' hhas hhash]

theorem WIPbyhash_eq_none (htable : Table s) {hash : HASH} :
    WIPbyhash s hash = none ↔ ∀ e, s.Has e → e.MessageID ≠ hash := by
  rw [Option.eq_none_iff_forall_not_mem]
  constructor
  · exact fun hnone e hhas hhash => hnone e ((WIPbyhash_eq_some htable).mpr ⟨hhas, hhash⟩)
  · intro hnone e hfind
    obtain ⟨hhas, hhash⟩ := (WIPbyhash_eq_some htable).mp hfind
    exact hnone e hhas hhash

@[simp] theorem setChannel_has (s : State) (cp : Nat) (channel : CHANNEL) (e : WIP) :
    (s.setChannel cp channel).Has e ↔ s.Has e :=
  Iff.rfl

theorem Table.setChannel (htable : Table s) {cp : Nat} {channel : CHANNEL}
    (hring : channel.PrecommitWIP = (s.channels cp).PrecommitWIP) :
    Table (s.setChannel cp channel) := by
  have hrings : ∀ other, ((s.setChannel cp channel).channels other).PrecommitWIP =
      (s.channels other).PrecommitWIP := by
    intro other
    by_cases hother : other = cp
    · rw [hother, setChannel_self, hring]
    · rw [setChannel_of_ne s hother]
  refine ⟨htable.placed, htable.nodup, htable.unique, htable.fresh, fun other i e => ?_,
    fun other i j e => ?_⟩
  · rw [hrings]
    exact htable.slots other i e
  · rw [hrings]
    exact htable.once other i j e

def Ringed (s : State) (cp : Nat) : Prop :=
  ∀ e, s.Has e → e.Chan = cp → ∃ i, (s.channels cp).PrecommitWIP i = some e

theorem Inv.ringed (hinv : Inv s) {cp : Nat} (hidle : (s.channels cp).receiving = none) :
    Ringed s cp := by
  rintro e hhas rfl
  refine (hinv.owned e hhas).held.resolve_right fun h => ?_
  rw [hidle] at h
  exact Bool.false_ne_true h.1

theorem Owned.setChannel {e : WIP} (howned : Owned s e) {cp : Nat} {channel : CHANNEL}
    (hring : channel.PrecommitWIP = (s.channels cp).PrecommitWIP) (hopen : channel.isOpen = true)
    (hslot : e.Chan = cp → ∃ i, (s.channels cp).PrecommitWIP i = some e) :
    Owned (s.setChannel cp channel) e := by
  by_cases hchan : e.Chan = cp
  · constructor
    · rw [hchan, setChannel_self, hopen]
    · rw [hchan, setChannel_self, hring]
      exact .inl (hslot hchan)
  · constructor
    · rw [setChannel_of_ne s hchan]
      exact howned.isOpen
    · rw [setChannel_of_ne s hchan]
      exact howned.held

theorem Inv.setChannel (hinv : Inv s) {cp : Nat} {channel : CHANNEL}
    (hring : channel.PrecommitWIP = (s.channels cp).PrecommitWIP) (hopen : channel.isOpen = true)
    (hringed : Ringed s cp) : Inv (s.setChannel cp channel) where
  table := hinv.table.setChannel hring
  owned := fun e hhas => (hinv.owned e hhas).setChannel hring hopen (hringed e hhas)

theorem NCclearwip_has (htable : Table s) (cp : Nat) (e : WIP) :
    (NCclearwip s cp).Has e ↔ s.Has e ∧ ¬WIPbyhash s
    (s.channels cp).CurrentMessageIDHash = some e :=
  (WIPfree_frees htable).has e

theorem NCclearwip_inv (hinv : Inv s) {cp : Nat} (hopen : (s.channels cp).isOpen = true) :
    Inv (NCclearwip s cp) ∧ Ringed (NCclearwip s cp) cp := by
  have hfrees := WIPfree_frees hinv.table (o := WIPbyhash s (s.channels cp).CurrentMessageIDHash)
  have hringed : Ringed (WIPfree s (WIPbyhash s (s.channels cp).CurrentMessageIDHash)) cp := by
    rintro e hhas rfl
    obtain ⟨hhas', hkept⟩ := (hfrees.has e).mp hhas
    refine ((hfrees.inv hinv).owned e hhas).held.resolve_right fun h => hkept ?_
    rw [hfrees.current] at h
    exact (WIPbyhash_eq_some hinv.table).mpr ⟨hhas', h.2.symm⟩
  have hopen' := (hfrees.isOpen cp).trans hopen
  refine ⟨(hfrees.inv hinv).setChannel rfl hopen' hringed, fun e hhas hchan => ?_⟩
  unfold NCclearwip
  rw [setChannel_self]
  exact hringed e hhas hchan

theorem NCclearwip_slot (htable : Table s) {cp : Nat} {i : Fin PRECOMMITCACHESIZE} {e : WIP}
    (hslot : ((NCclearwip s cp).channels cp).PrecommitWIP i = some e) :
    (s.channels cp).PrecommitWIP i = some e := by
  unfold NCclearwip at hslot
  rw [setChannel_self] at hslot
  exact (((WIPfree_frees htable).slot cp i e).mp hslot).1

theorem precomfree_frees (htable : Table s) (cp : Nat) (slots : List (Fin PRECOMMITCACHESIZE)) :
    Frees (fun e => ∃ i ∈ slots, (s.channels cp).PrecommitWIP i = some e) s
      (slots.foldl (fun s i => WIPfree s ((s.channels cp).PrecommitWIP i)) s) := by
  induction slots generalizing s with
  | nil => exact Frees.refl (fun e h => by simp at h) s
  | cons i slots ih =>
    have hfirst := WIPfree_frees htable (o := (s.channels cp).PrecommitWIP i)
    have hrest := hfirst.trans (ih (hfirst.table htable))
    have hgone : ∀ e, ((s.channels cp).PrecommitWIP i = some e ∨ ∃ j ∈ slots,
        ((WIPfree s ((s.channels cp).PrecommitWIP i)).channels cp).PrecommitWIP j = some e) ↔
          ∃ j ∈ i :: slots, (s.channels cp).PrecommitWIP j = some e := by
      intro e
      simp only [hfirst.slot, List.mem_cons, exists_eq_or_imp]
      constructor
      · exact fun h => h.imp_right fun ⟨j, hj, hslot, _⟩ => ⟨j, hj, hslot⟩
      · rintro (h | ⟨j, hj, hslot⟩)
        · exact .inl h
        · exact or_iff_not_imp_left.mpr fun hne => ⟨j, hj, hslot, hne⟩
    simp only [hgone] at hrest
    exact hrest

theorem WIPprecomfree_frees (htable : Table s) (cp : Nat) :
    Frees (fun e => ∃ i, (s.channels cp).PrecommitWIP i = some e) s (WIPprecomfree s cp) := by
  have hfrees := precomfree_frees htable cp (List.finRange PRECOMMITCACHESIZE)
  simp only [List.mem_finRange, true_and] at hfrees
  exact hfrees

theorem Inv.shut (hinv : Inv s) {cp : Nat} {channel : CHANNEL}
    (hring : channel.PrecommitWIP = (s.channels cp).PrecommitWIP)
    (hnone : ∀ e, s.Has e → e.Chan ≠ cp) :
    Inv (s.setChannel cp channel) where
  table := hinv.table.setChannel hring
  owned := fun e hhas => by
    constructor
    · rw [setChannel_of_ne s (hnone e hhas)]
      exact (hinv.owned e hhas).isOpen
    · rw [setChannel_of_ne s (hnone e hhas)]
      exact (hinv.owned e hhas).held

theorem CHANclose_inv (hinv : Inv s) {cp : Nat} (hopen : (s.channels cp).isOpen = true) :
    Inv (CHANclose s cp) := by
  have hfrees := WIPprecomfree_frees hinv.table cp
  obtain ⟨hclear, hringed⟩ := NCclearwip_inv (hfrees.inv hinv) ((hfrees.isOpen cp).trans hopen)
  refine hclear.shut rfl fun e hhas hchan => ?_
  obtain ⟨i, hslot⟩ := hringed e hhas hchan
  obtain ⟨hbefore, hkept⟩ :=
    (hfrees.slot cp i e).mp (NCclearwip_slot (hfrees.table hinv.table) hslot)
  exact hkept ⟨i, hbefore⟩

theorem Inv.none_of_closed (hinv : Inv s) {cp : Nat} (hclosed : (s.channels cp).isOpen = false) :
    ∀ e, s.Has e → e.Chan ≠ cp := by
  rintro e hhas rfl
  exact Bool.false_ne_true (hclosed.symm.trans (hinv.owned e hhas).isOpen)

theorem Inv.ring_of_closed (hinv : Inv s) {cp : Nat} (hclosed : (s.channels cp).isOpen = false) :
    (fun _ => none) = (s.channels cp).PrecommitWIP := by
  funext i
  cases hslot : (s.channels cp).PrecommitWIP i with
  | none => rfl
  | some e =>
    obtain ⟨hhas, hchan⟩ := hinv.table.slots cp i e hslot
    exact absurd hchan (hinv.none_of_closed hclosed e hhas)

theorem NCcreate_inv (hinv : Inv s) {cp : Nat} (hclosed : (s.channels cp).isOpen = false) :
    Inv (NCcreate s cp) := by
  have hopened : Inv (s.setChannel cp { CHANnull with isOpen := true }) :=
    hinv.shut (hinv.ring_of_closed hclosed) (hinv.none_of_closed hclosed)
  apply (NCclearwip_inv hopened _).1
  rw [setChannel_self]

theorem point_inv (htable : Table s) {cp : Nat} {i : Fin PRECOMMITCACHESIZE} {wp : WIP}
    (hhas : s.Has wp) (hchan : wp.Chan = cp) (hopen : (s.channels cp).isOpen = true)
    (hempty : (s.channels cp).PrecommitWIP i = none)
    (hunheld : ∀ j, (s.channels cp).PrecommitWIP j ≠ some wp)
    (howned : ∀ e, s.Has e → e ≠ wp → Owned s e) :
    Inv (s.point cp i wp) := by
  have hself : ∀ j, ((s.point cp i wp).channels cp).PrecommitWIP j =
      if j = i then some wp else (s.channels cp).PrecommitWIP j := by
    intro j
    rw [State.point, setChannel_self]
    by_cases hj : j = i
    · simp only [hj, Function.update_self, if_true]
    · simp only [hj, Function.update_of_ne hj, if_false]
  have hother : ∀ other, other ≠ cp → (s.point cp i wp).channels other = s.channels other :=
    fun other hne => setChannel_of_ne s hne _
  refine ⟨⟨htable.placed, htable.nodup, htable.unique, htable.fresh, fun other j e hslot => ?_,
    fun other j k e hj hk => ?_⟩, fun e he => ?_⟩
  · by_cases hcp : other = cp
    · subst hcp
      rw [hself] at hslot
      split at hslot
      · cases hslot
        exact ⟨hhas, hchan⟩
      · exact htable.slots other j e hslot
    · rw [hother other hcp] at hslot
      exact htable.slots other j e hslot
  · by_cases hcp : other = cp
    · subst hcp
      rw [hself] at hj hk
      split at hj
      next hji =>
        split at hk
        next hki => rw [hji, hki]
        next hki =>
          cases hj
          exact absurd hk (hunheld k)
      next hji =>
        split at hk
        next hki =>
          cases hk
          exact absurd hj (hunheld j)
        next hki => exact htable.once other j k e hj hk
    · rw [hother other hcp] at hj hk
      exact htable.once other j k e hj hk
  · by_cases hwp : e = wp
    · subst hwp
      constructor
      · rw [hchan, State.point, setChannel_self]
        exact hopen
      · rw [hchan]
        exact .inl ⟨i, by rw [hself, if_pos rfl]⟩
    · have howned' := howned e he hwp
      by_cases hcp : e.Chan = cp
      · subst hcp
        constructor
        · rw [State.point, setChannel_self]
          exact howned'.isOpen
        · cases howned'.held with
          | inl hring =>
            obtain ⟨j, hslot⟩ := hring
            refine .inl ⟨j, ?_⟩
            rw [hself, if_neg, hslot]
            rintro rfl
            exact absurd (hempty.symm.trans hslot) nofun
          | inr hcurrent =>
            rw [State.point, setChannel_self]
            exact .inr hcurrent
      · constructor
        · rw [hother e.Chan hcp]
          exact howned'.isOpen
        · rw [hother e.Chan hcp]
          exact howned'.held

section Identified

variable {Hash : Octets → HASH} {msgid : Octets} {cp : Nat}

theorem WIPnew_mem (b : Nat) (e : WIP) :
    e ∈ (WIPnew Hash s msgid cp).WIPtable b ↔
      e ∈ s.WIPtable b ∨ e = s.newWIP Hash msgid cp ∧ bucket (Hash msgid) = b := by
  unfold WIPnew
  by_cases hb : b = bucket (Hash msgid)
  · subst hb
    simp only [State.newWIP, setBucket_self, List.mem_cons, and_true]
    exact or_comm
  · simp only [State.newWIP, setBucket_of_ne s hb]
    exact ⟨.inl, fun h => h.resolve_right fun h => hb h.2.symm⟩

theorem WIPnew_has (e : WIP) : (WIPnew Hash s msgid cp).Has e ↔
    s.Has e ∨ e = s.newWIP Hash msgid cp := by
  unfold State.Has
  rw [WIPnew_mem]
  exact or_congr_right ⟨fun h => h.1, fun h => ⟨h, by rw [h]; rfl⟩⟩

theorem newWIP_unknown (Hash : Octets → HASH) (msgid : Octets) (cp : Nat) (htable : Table s) :
    ¬s.Has (s.newWIP Hash msgid cp) :=
  fun hhas => Nat.lt_irrefl s.next (htable.fresh _ hhas)

theorem WIPnew_table (cp : Nat) (htable : Table s)
    (hnew : ∀ e, s.Has e → e.MessageID ≠ Hash msgid) :
    Table (WIPnew Hash s msgid cp) where
  placed := fun b e hmem => by
    rcases (WIPnew_mem b e).mp hmem with hold | ⟨rfl, hb⟩
    · exact htable.placed b e hold
    · exact hb
  nodup := fun b => by
    unfold WIPnew
    by_cases hb : b = bucket (Hash msgid)
    · subst hb
      simp only [State.newWIP, setBucket_self]
      exact (htable.nodup _).cons fun hmem => newWIP_unknown Hash msgid cp htable hmem
    · simp only [State.newWIP, setBucket_of_ne s hb]
      exact htable.nodup b
  unique := fun e e' he he' heq => by
    rcases (WIPnew_has e).mp he with he | rfl
    · rcases (WIPnew_has e').mp he' with he' | rfl
      · exact htable.unique e e' he he' heq
      · exact absurd heq (hnew e he)
    · rcases (WIPnew_has e').mp he' with he' | rfl
      · exact absurd heq.symm (hnew e' he')
      · rfl
  fresh := fun e he => by
    rcases (WIPnew_has e).mp he with he | rfl
    · exact Nat.lt_succ_of_lt (htable.fresh e he)
    · exact Nat.lt_succ_self s.next
  slots := fun other i e hslot =>
    ⟨(WIPnew_has e).mpr (.inl (htable.slots other i e hslot).1), (htable.slots other i e hslot).2⟩
  once := htable.once

theorem precommit_inv (hinv : Inv s) (hopen : (s.channels cp).isOpen = true)
    (hnew : ∀ e, s.Has e → e.MessageID ≠ Hash msgid) :
    Inv (precommit Hash s msgid cp) ∧
      ∀ e, s.Has e → ¬(precommit Hash s msgid cp).Has e → e.Chan = cp := by
  have htable := WIPnew_table cp hinv.table hnew
  have hunheld : ∀ other i, (s.channels other).PrecommitWIP i ≠ some (s.newWIP Hash msgid cp) :=
    fun other i hslot => newWIP_unknown Hash msgid cp hinv.table
      (hinv.table.slots other i _ hslot).1
  have hfrees := WIPfree_frees htable
    (o := ((WIPnew Hash s msgid cp).channels cp).PrecommitWIP
      ((WIPnew Hash s msgid cp).channels cp).slot)
  constructor
  · apply point_inv (hfrees.table htable)
    · exact (hfrees.has _).mpr ⟨(WIPnew_has _).mpr (.inr rfl), hunheld cp _⟩
    · rfl
    · exact (hfrees.isOpen cp).trans hopen
    · cases hslot : ((WIPfree (WIPnew Hash s msgid cp) _).channels cp).PrecommitWIP _ with
      | none => rfl
      | some e =>
        obtain ⟨hbefore, hkept⟩ := (hfrees.slot cp _ e).mp hslot
        exact absurd hbefore hkept
    · exact fun j hslot => hunheld cp j ((hfrees.slot cp j _).mp hslot).1
    · intro e hhas hne
      obtain ⟨hhas, hkept⟩ := (hfrees.has e).mp hhas
      have howned := hinv.owned e (((WIPnew_has e).mp hhas).resolve_right hne)
      exact hfrees.owned hkept ⟨howned.isOpen, howned.held⟩
  · intro e hhas hgone
    by_contra hchan
    refine hgone ((hfrees.has e).mpr ⟨(WIPnew_has e).mpr (.inl hhas), fun hslot => hchan ?_⟩)
    exact (hinv.table.slots cp _ e hslot).2

def Receives (Hash : Octets → HASH) (s : State) (e : WIP) : Prop :=
  ∃ mid ∈ (s.channels e.Chan).receiving, Hash mid = e.MessageID

instance (Hash : Octets → HASH) (s : State) (e : WIP) : Decidable (Receives Hash s e) :=
  inferInstanceAs (Decidable (∃ mid ∈ (s.channels e.Chan).receiving, Hash mid = e.MessageID))

def OwnedBut (wp : Option WIP) (s : State) : Prop := ∀ e, s.Has e → wp ≠ some e → Owned s e

theorem receive_inv (htable : Table s) {wp : Option WIP} (howned : OwnedBut wp s)
    {channel : CHANNEL}
    (hring : channel.PrecommitWIP = (s.channels cp).PrecommitWIP) (hopen : channel.isOpen = true)
    (hreceiving : channel.receiving.isSome = true) (hidle : (s.channels cp).receiving = none)
    (hwp : ∀ e, wp = some e → e.Chan = cp ∧ channel.CurrentMessageIDHash = e.MessageID) :
    Inv (s.setChannel cp channel) where
  table := htable.setChannel hring
  owned := fun e hhas => by
    by_cases he : wp = some e
    · obtain ⟨rfl, hcurrent⟩ := hwp e he
      constructor
      · rw [setChannel_self, hopen]
      · rw [setChannel_self]
        exact .inr ⟨hreceiving, hcurrent⟩
    · refine (howned e hhas he).setChannel hring hopen fun hchan => ?_
      subst hchan
      refine (howned e hhas he).held.resolve_right fun h => ?_
      rw [hidle] at h
      exact Bool.false_ne_true h.1

theorem commit_owned (hinv : Inv s) (hnew : ∀ e, s.Has e → e.MessageID ≠ Hash msgid)
    (hidle : (s.channels cp).receiving = none) :
    Table (commit Hash s msgid cp) ∧
      OwnedBut (some (s.newWIP Hash msgid cp)) (commit Hash s msgid cp) ∧
      (∀ e, s.Has e → ¬(commit Hash s msgid cp).Has e →
        WIPbyhash s (s.channels cp).CurrentMessageIDHash = some e) ∧
      ((commit Hash s msgid cp).channels cp).CurrentMessageIDHash = Hash msgid ∧
      ((commit Hash s msgid cp).channels cp).isOpen = (s.channels cp).isOpen ∧
      ((commit Hash s msgid cp).channels cp).receiving = none := by
  have htable := WIPnew_table cp hinv.table hnew
  have hfrees := WIPfree_frees htable
    (o := WIPbyhash (WIPnew Hash s msgid cp) (s.channels cp).CurrentMessageIDHash)
  have hringed : ∀ e, s.Has e → e.Chan = cp → ∃ i, (s.channels cp).PrecommitWIP i = some e :=
    hinv.ringed hidle
  refine ⟨(hfrees.table htable).setChannel rfl, fun e hhas hne => ?_,
    fun e hhas hgone => ?_, ?_, ?_, ?_⟩
  · obtain ⟨hhas, hkept⟩ := (hfrees.has e).mp hhas
    have hold := ((WIPnew_has e).mp hhas).resolve_right fun h => hne (congrArg some h.symm)
    have howned := hinv.owned e hold
    have hfreed : Owned (WIPfree (WIPnew Hash s msgid cp) _) e :=
      hfrees.owned hkept ⟨howned.isOpen, howned.held⟩
    by_cases hchan : e.Chan = cp
    · obtain ⟨i, hslot⟩ := hringed e hold hchan
      have hopen : (s.channels cp).isOpen = true := hchan ▸ howned.isOpen
      exact hfreed.setChannel rfl ((hfrees.isOpen cp).trans hopen) fun _ =>
        ⟨i, (hfrees.slot cp i e).mpr ⟨hslot, hkept⟩⟩
    · constructor
      · unfold commit
        rw [setChannel_of_ne _ hchan]
        exact hfreed.isOpen
      · unfold commit
        rw [setChannel_of_ne _ hchan]
        exact hfreed.held
  · have hfound :
        WIPbyhash (WIPnew Hash s msgid cp) (s.channels cp).CurrentMessageIDHash = some e := by
      by_contra hne
      exact hgone ((hfrees.has e).mpr ⟨(WIPnew_has e).mpr (.inl hhas), hne⟩)
    exact (WIPbyhash_eq_some hinv.table).mpr ⟨hhas, ((WIPbyhash_eq_some htable).mp hfound).2⟩
  · unfold commit
    rw [setChannel_self]
    rfl
  · unfold commit
    rw [setChannel_self]
    exact hfrees.isOpen cp
  · unfold commit
    rw [setChannel_self]
    exact (hfrees.receiving cp).trans hidle

variable {innconf : Innconf}

def register (Hash : Octets → HASH) (s : State) (msgid : Octets) (cp : Nat)
    (Precommit : Bool) : State :=
  if Precommit then precommit Hash s msgid cp else commit Hash s msgid cp

theorem WIPinprogress_cases (Hash : Octets → HASH) (innconf : Innconf) (msgid : Octets) (cp : Nat)
    (htable : Table s) (Precommit : Bool) :
    (WIPinprogress Hash innconf s msgid cp Precommit).2 = s ∨
      ∃ o s', Frees (fun e => o = some e) s s' ∧ (∀ e, o = some e → Expired innconf s e) ∧
        (∀ e, s'.Has e → e.MessageID ≠ Hash msgid) ∧
        WIPinprogress Hash innconf s msgid cp Precommit =
          (false, register Hash s' msgid cp Precommit) := by
  unfold WIPinprogress inprogress
  cases hfind : WIPbyid Hash s msgid with
  | none => exact .inr ⟨none, s, Frees.refl nofun s, nofun,
      (WIPbyhash_eq_none htable).mp hfind, rfl⟩
  | some wp =>
    simp only
    by_cases hyoung : s.Now - wp.Timestamp < s.allowance wp + innconf.wipcheck
    · rw [if_pos hyoung]
      exact .inl rfl
    · rw [if_neg hyoung]
      by_cases hexpired : Expired innconf s wp
      · rw [if_pos hexpired, WIPfree_forget htable]
        have hfrees := WIPfree_frees htable (o := some wp)
        obtain ⟨hhas, hhash⟩ := (WIPbyhash_eq_some htable).mp hfind
        have hnone : WIPbyid Hash (WIPfree s (some wp)) msgid = none := by
          refine (WIPbyhash_eq_none (hfrees.table htable)).mpr fun e he heq => ?_
          obtain ⟨he, hkept⟩ := (hfrees.has e).mp he
          exact hkept (congrArg some (htable.unique wp e hhas he (hhash.trans heq.symm)))
        -- The freed entry was in the bucket, so the recursion goes on.
        obtain ⟨fuel, hfuel⟩ : ∃ fuel, (s.WIPtable (bucket (Hash msgid))).length = fuel + 1 := by
          have hpos := List.length_pos_of_mem hhas
          rw [hhash] at hpos
          exact ⟨_, (Nat.succ_pred_eq_of_pos hpos).symm⟩
        refine .inr ⟨some wp, _, hfrees, fun e he => Option.some.inj he ▸ hexpired,
          (WIPbyhash_eq_none (hfrees.table htable)).mp hnone, ?_⟩
        rw [hfuel, inprogress, hnone]
        rfl
      · rw [if_neg hexpired]
        exact .inl rfl

end Identified

end Inn.Innd.Wip
