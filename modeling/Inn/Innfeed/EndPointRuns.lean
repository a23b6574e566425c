import Inn.Innfeed.EndPoints

/-!
# Runs of the event loop

A callback is called for an operation that is prepared, and for a descriptor that was reported for
its end point, as long as the callbacks do not prepare anything on a descriptor that was reported
for another end point, and the main end point prepares again what has been completed.
-/

namespace Inn.Innfeed.EndPoints

open Function (update update_self update_apply update_of_ne)

variable {s s' : State} {kind : Kind} {ep fd : Nat}

def State.Dispatching (s : State) : Prop :=
  match s.phase with
  | .visit _ | .read .. | .write .. => True
  | _ => False

def OpSafe (s : State) : Op → Prop
  | .newEndPoint fd => s.endPoints fd = none → fd < FD_SETSIZE →
      s.priorityList.length < tableSize s.maxEndPoints fd
  | .prepare kind ep _ _ => s.Live ep → s.Dispatching → s.ready kind (s.eps ep).myFd →
      s.reported kind (s.eps ep).myFd = some ep
  | _ => True

def OpsSafe : State → List Op → Prop
  | _, [] => True
  | s, op :: ops => OpSafe s op ∧ ∀ s', s.perform op = .ok s' → OpsSafe s' ops

def ServiceSafe (s : State) (kind : Kind) (ep fd : Nat) (result : IoResult)
    (ops : List Op) : Prop :=
  s.ready kind fd →
    let s := s.counted
    match doIo kind ((s.eps ep).io kind).buffers result with
    | .completes =>
      ((s.eps ep).io kind).cbk →
        OpsSafe (s.calling kind ep fd) ops ∧
          ∀ s', (s.calling kind ep fd).performAll ops = .ok s' →
            s'.mainEndPoint = some ep → s'.mainEpIsReg = false →
              s'.sets kind fd ∨ ((s'.eps ep).io kind).cbk = false
    | .incomplete => True
    | .progress => OpsSafe s ops
    | .interrupted => OpsSafe s ops ∧ ∀ s', s.performAll ops = .ok s' → s'.Live ep

/-- No callback of the step does what the loop gets wrong. -/
def StepSafe (s : State) (input : Input) : Prop :=
  match s.phase, input with
  | .start, .start ops _ => OpsSafe s ops
  | .select, .select wake result =>
    OpsSafe s wake ∧ ∀ s', s.performAll wake = .ok s' →
      OpsSafe (s'.select result).1 (s'.select result).2
  | .read idx ep fd specialCheck, .io result ops =>
    ServiceSafe { s with phase := .write idx fd specialCheck } .read ep fd result ops
  | .write idx fd specialCheck, .io result ops =>
    ∀ ep, s.again idx specialCheck = some ep →
      ServiceSafe { s with phase := .visit (if specialCheck then idx else idx + 1) } .write
        ep fd result ops
  | .work idx, .work ops =>
    ∀ ep, s.priorityList[idx]? = some (some ep) →
      OpsSafe ({ s with phase := .work (idx + 1) }.setWork ep false) ops
  | _, _ => True

def RunSafe : State → List Input → Prop
  | _, [] => True
  | s, input :: inputs => StepSafe s input ∧ ∀ s', s.step input = .ok s' → RunSafe s' inputs

/-- Callbacks are called once, for requests that are ready. -/
structure Proper (s : State) : Prop where
  called : ∀ call ∈ s.calls, call.prepared = true ∧ call.reportedFor = some call.ep
  once : (s.calls.map Call.request).Nodup
  listed : ∀ ep, s.Live ep → s.priorityList.count (some ep) = 1

/-- The tables of descriptors and priorities have the live endpoints. -/
structure Owned (s : State) : Prop where
  owner : ∀ fd ep, s.endPoints fd = some ep → (s.eps ep).myFd = fd ∧ ep < s.nextEp
  listed : ∀ ep, some ep ∈ s.priorityList ↔ s.Live ep
  once : (s.priorityList.filterMap id).Nodup
  prepared : ∀ kind fd, s.sets kind fd = true → (s.endPoints fd).isSome
  main : ∀ ep, s.mainEndPoint = some ep → s.Live ep

/-- No two requests have one number, nor has one that was called. -/
structure Numbered (s : State) : Prop where
  request : ∀ kind ep, s.Live ep → s.sets kind (s.eps ep).myFd = true →
    ((s.eps ep).io kind).request < s.nextRequest ∧
      ((s.eps ep).io kind).request ∉ s.calls.map Call.request
  distinct : ∀ kind kind' ep ep', s.Live ep → s.Live ep' → s.sets kind (s.eps ep).myFd = true →
    s.sets kind' (s.eps ep').myFd = true →
      ((s.eps ep).io kind).request = ((s.eps ep').io kind').request →
      kind = kind' ∧ ep = ep'
  below : ∀ call ∈ s.calls, call.request < s.nextRequest
  once : (s.calls.map Call.request).Nodup
  called : ∀ call ∈ s.calls, call.prepared = true ∧ call.reportedFor = some call.ep

def State.passed (s : State) (kind : Kind) : Nat :=
  match s.phase with
  | .visit idx | .read idx _ _ _ => idx
  | .write idx _ specialCheck => if specialCheck = false ∧ kind = .read then idx + 1 else idx
  | _ => 0

def State.Special (s : State) (ep : Nat) : Prop := s.mainEndPoint = some ep ∧ s.mainEpIsReg = false

def State.Passed (s : State) (kind : Kind) (ep : Nat) : Prop :=
  ¬s.Special ep ∧ some ep ∈ s.priorityList.take (s.passed kind)

/-- What is ready is called in this round, if it has not been yet. -/
structure Answered (but : Kind → Nat → Prop) (s : State) : Prop where
  fresh : ∀ kind ep, s.Live ep → s.ready kind (s.eps ep).myFd = true →
    ((s.eps ep).io kind).cbk = true →
    s.reported kind (s.eps ep).myFd = some ep
  armed : ∀ kind ep, ¬but kind ep → s.Live ep → s.ready kind (s.eps ep).myFd = true →
    ((s.eps ep).io kind).cbk = true →
    s.sets kind (s.eps ep).myFd = true ∨ s.Passed kind ep

def State.Placed (s : State) : Prop :=
  match s.phase with
  | .read idx ep fd specialCheck =>
    idx < s.priorityList.length ∧ s.Live ep ∧ (s.eps ep).myFd = fd ∧
      if specialCheck then s.Special ep else s.priorityList[idx]? = some (some ep)
  | .write idx fd specialCheck =>
    idx < s.priorityList.length ∧ ∀ ep, s.again idx specialCheck = some ep →
      (s.eps ep).myFd = fd ∧ (specialCheck = true → s.Special ep)
  | _ => True

structure Inv (but : Kind → Nat → Prop) (s : State) : Prop where
  owned : Owned s
  numbered : Numbered s
  answered : s.Dispatching → Answered but s
  placed : s.Placed

def nothing : Kind → Nat → Prop := fun _ _ => False

section Updates

variable {io : Io} {b : Bool} {e : Nat} {k : Kind} {f : Nat}

def State.edit (s : State) (kind : Kind) (ep : Nat) (io : Io) (b : Bool) : State :=
  (s.setIo ep kind io).setSet kind (s.eps ep).myFd b

@[simp] theorem edit_myFd : ((s.edit kind ep io b).eps e).myFd = (s.eps e).myFd := by
  simp only [State.edit, State.setIo, State.setSet, update_apply]
  split
  next h => rw [h]
  next => rfl

theorem edit_io : ((s.edit kind ep io b).eps e).io k = if e = ep ∧ k = kind then io else
    (s.eps e).io k := by
  simp only [State.edit, State.setIo, State.setSet, update_apply]
  by_cases he : e = ep
  · subst he
    by_cases hk : k = kind <;> simp [hk]
  · simp [he]

theorem edit_sets :
    (s.edit kind ep io b).sets k f = if k = kind ∧ f = (s.eps ep).myFd then b else s.sets k f := by
  simp only [State.edit, State.setIo, State.setSet, update_apply]
  by_cases hk : k = kind
  · subst hk
    simp [update_apply]
  · simp [hk]

@[simp] theorem edit_live : (s.edit kind ep io b).Live e ↔ s.Live e := by
  unfold State.Live
  rw [edit_myFd]
  exact Iff.rfl

@[simp] theorem edit_passed : (s.edit kind ep io b).Passed k e ↔ s.Passed k e := Iff.rfl

theorem live_inj (hep : s.Live ep) (he : s.Live e)
    (hfd : (s.eps ep).myFd = (s.eps e).myFd) : ep = e := by
  unfold State.Live at hep he
  rw [hfd, he] at hep
  exact (Option.some.inj hep).symm

theorem Owned.edit (howned : Owned s) (hlive : s.Live ep) (kind : Kind) (io : Io) (b : Bool) :
    Owned (s.edit kind ep io b) where
  owner fd e h := by
    rw [edit_myFd]
    exact howned.owner fd e h
  listed e := by
    rw [edit_live]
    exact howned.listed e
  once := howned.once
  prepared k f h := by
    rw [edit_sets] at h
    split at h
    next hsame =>
      rw [hsame.2]
      exact Option.isSome_of_eq_some hlive
    next => exact howned.prepared k f h
  main e h := edit_live.mpr (howned.main e h)

theorem Numbered.edit (hnumbered : Numbered s) : Numbered (s.edit kind ep io false) := by
  have hother {k e} (h : (s.edit kind ep io false).sets k (s.eps e).myFd = true) :
      ¬(e = ep ∧ k = kind) ∧ s.sets k (s.eps e).myFd = true := by
    rw [edit_sets] at h
    split at h
    · cases h
    next hsame =>
      refine ⟨?_, h⟩
      rintro ⟨rfl, rfl⟩
      exact hsame ⟨rfl, rfl⟩
  constructor
  · intro k e he h
    rw [edit_live] at he
    rw [edit_myFd] at h
    obtain ⟨hne, hset⟩ := hother h
    rw [edit_io, if_neg hne]
    exact hnumbered.request k e he hset
  · intro k k' e e' he he' h h'
    rw [edit_live] at he he'
    rw [edit_myFd] at h h'
    obtain ⟨hne, hset⟩ := hother h
    obtain ⟨hne', hset'⟩ := hother h'
    rw [edit_io, edit_io, if_neg hne, if_neg hne']
    exact hnumbered.distinct k k' e e' he he' hset hset'
  · exact hnumbered.below
  · exact hnumbered.once
  · exact hnumbered.called

theorem Numbered.prepare (hnumbered : Numbered s) (hlive : s.Live ep)
    (hnumber : io.request = s.nextRequest) :
    Numbered { s.edit kind ep io true with nextRequest := s.nextRequest + 1 } := by
  have hcases {k e} (he : s.Live e) (h : (s.edit kind ep io true).sets k (s.eps e).myFd = true) :
      (e = ep ∧ k = kind) ∨ ¬(e = ep ∧ k = kind) ∧ s.sets k (s.eps e).myFd = true := by
    by_cases hsame : e = ep ∧ k = kind
    · exact .inl hsame
    · rw [edit_sets, if_neg fun h => hsame ⟨live_inj he hlive h.2, h.1⟩] at h
      exact .inr ⟨hsame, h⟩
  constructor
  · intro k e he h
    change (s.edit kind ep io true).Live e at he
    change (s.edit kind ep io true).sets k ((s.edit kind ep io true).eps e).myFd = true at h
    change (((s.edit kind ep io true).eps e).io k).request < s.nextRequest + 1 ∧
      (((s.edit kind ep io true).eps e).io k).request ∉ s.calls.map Call.request
    rw [edit_live] at he
    rw [edit_myFd] at h
    rw [edit_io]
    rcases hcases he h with hsame | ⟨hne, hset⟩
    · rw [if_pos hsame, hnumber]
      refine ⟨Nat.lt_succ_self _, fun hmem => ?_⟩
      obtain ⟨call, hcall, hrequest⟩ := List.mem_map.mp hmem
      exact absurd (hnumbered.below call hcall) (by rw [hrequest]; exact Nat.lt_irrefl _)
    · rw [if_neg hne]
      obtain ⟨hlt, hnotMem⟩ := hnumbered.request k e he hset
      exact ⟨Nat.lt_succ_of_lt hlt, hnotMem⟩
  · intro k k' e e' he he' h h'
    change (s.edit kind ep io true).Live e at he
    change (s.edit kind ep io true).Live e' at he'
    change (s.edit kind ep io true).sets k ((s.edit kind ep io true).eps e).myFd = true at h
    change (s.edit kind ep io true).sets k' ((s.edit kind ep io true).eps e').myFd = true at h'
    change (((s.edit kind ep io true).eps e).io k).request =
      (((s.edit kind ep io true).eps e').io k').request → _
    rw [edit_live] at he he'
    rw [edit_myFd] at h h'
    rw [edit_io, edit_io]
    rcases hcases he h with hsame | ⟨hne, hset⟩ <;> rcases hcases he' h' with hsame' | ⟨hne', hset'⟩
    · exact fun _ => ⟨hsame.2.trans hsame'.2.symm, hsame.1.trans hsame'.1.symm⟩
    · rw [if_pos hsame, if_neg hne', hnumber]
      intro hrequest
      exact absurd (hnumbered.request k' e' he' hset').1 (by rw [← hrequest]; exact Nat.lt_irrefl _)
    · rw [if_neg hne, if_pos hsame', hnumber]
      intro hrequest
      exact absurd (hnumbered.request k e he hset).1 (by rw [hrequest]; exact Nat.lt_irrefl _)
    · rw [if_neg hne, if_neg hne']
      exact hnumbered.distinct k k' e e' he he' hset hset'
  · exact fun call hcall => Nat.lt_succ_of_lt (hnumbered.below call hcall)
  · exact hnumbered.once
  · exact hnumbered.called

variable {but : Kind → Nat → Prop}

theorem Answered.edit (hanswered : Answered but s) (hlive : s.Live ep) (kind : Kind)
    (io : Io) (b : Bool) (hfresh : io.cbk = true → s.ready kind (s.eps ep).myFd = true →
      s.reported kind (s.eps ep).myFd = some ep)
    (harmed : b = true ∨ io.cbk = false ∨ but kind ep ∨ s.Passed kind ep) :
    Answered but (s.edit kind ep io b) where
  fresh k e he hready hcbk := by
    rw [edit_live] at he
    rw [edit_myFd] at hready ⊢
    rw [edit_io] at hcbk
    split at hcbk
    next hsame =>
      obtain ⟨rfl, rfl⟩ := hsame
      exact hfresh hcbk hready
    next => exact hanswered.fresh k e he hready hcbk
  armed k e hbut he hready hcbk := by
    rw [edit_live] at he
    rw [edit_myFd] at hready ⊢
    rw [edit_io] at hcbk
    rw [edit_sets, edit_passed]
    by_cases hsame : e = ep ∧ k = kind
    · obtain ⟨rfl, rfl⟩ := hsame
      rw [if_pos ⟨rfl, rfl⟩] at hcbk ⊢
      rcases harmed with h | h | h | h
      · exact .inl h
      · rw [h] at hcbk
        cases hcbk
      · exact absurd h hbut
      · exact .inr h
    · rw [if_neg hsame] at hcbk
      rw [if_neg fun h => hsame ⟨live_inj he hlive h.2, h.1⟩]
      exact hanswered.armed k e hbut he hready hcbk

theorem Placed.keep (hplaced : s.Placed) (hphase : s'.phase = s.phase)
    (hlist : s'.priorityList = s.priorityList)
    (hmain : s'.mainEndPoint = s.mainEndPoint) (hreg : s'.mainEpIsReg = s.mainEpIsReg)
    (hfd : ∀ e, (s'.eps e).myFd = (s.eps e).myFd) (hlive : ∀ e, s'.Live e ↔ s.Live e) :
    s'.Placed := by
  unfold State.Placed State.Special State.again at hplaced ⊢
  rw [hphase, hlist, hmain, hreg]
  cases hs : s.phase with
  | read idx ep fd specialCheck =>
    rw [hs] at hplaced
    dsimp only at hplaced ⊢
    rw [hlive, hfd]
    exact hplaced
  | write idx fd specialCheck =>
    rw [hs] at hplaced
    refine ⟨hplaced.1, fun e he => ?_⟩
    rw [hfd]
    exact hplaced.2 e he
  | start | select | visit | work | stopped => trivial

theorem Placed.edit (hplaced : s.Placed) (kind : Kind) (ep : Nat) (io : Io) (b : Bool) :
    (s.edit kind ep io b).Placed :=
  Placed.keep hplaced rfl rfl rfl rfl (fun _ => edit_myFd) fun _ => edit_live

end Updates

section Making

variable {but : Kind → Nat → Prop} {e : Nat}

def State.made (s : State) (fd : Nat) : State :=
  { s with
    endPoints := update s.endPoints fd (some s.nextEp)
    eps := update s.eps s.nextEp ⟨fun _ => ⟨none, false, 0⟩, false, fd⟩
    priorityList := s.priorityList ++ [some s.nextEp]
    nextEp := s.nextEp + 1 }

theorem Owned.ne_next (howned : Owned s) (hlive : s.Live e) : e ≠ s.nextEp :=
    Nat.ne_of_lt (howned.owner _ e hlive).2

theorem made_eps (hne : e ≠ s.nextEp) : (s.made fd).eps e = s.eps e := update_of_ne hne _ _

theorem made_live (hfree : s.endPoints fd = none) :
    (s.made fd).Live e ↔ s.Live e ∨ e = s.nextEp := by
  by_cases hnext : e = s.nextEp
  · subst hnext
    simp [State.Live, State.made]
  · unfold State.Live
    rw [made_eps hnext]
    simp only [State.made, update_apply, hnext, or_false]
    split
    next hfd =>
      rw [hfd, hfree]
      simp [Ne.symm hnext]
    next => rfl

theorem Owned.made (howned : Owned s) (hfree : s.endPoints fd = none) : Owned (s.made fd) where
  owner fd' e h := by
    by_cases hfd : fd' = fd
    · subst hfd
      simp only [State.made, update_self] at h
      cases h
      simp [State.made]
    · simp only [State.made, update_of_ne hfd] at h
      obtain ⟨hmyFd, hlt⟩ := howned.owner fd' e h
      rw [made_eps (Nat.ne_of_lt hlt)]
      exact ⟨hmyFd, Nat.lt_succ_of_lt hlt⟩
  listed e := by
    rw [made_live hfree]
    simp [State.made, howned.listed]
  once := by
    simp only [State.made, List.filterMap_append]
    refine List.nodup_append.mpr ⟨howned.once, by simp, ?_⟩
    rintro a ha b hb rfl
    obtain rfl : a = s.nextEp := by simpa using hb
    have hlive : s.Live s.nextEp := (howned.listed s.nextEp).mp (by simpa using ha)
    exact howned.ne_next hlive rfl
  prepared kind fd' h := by
    simp only [State.made, update_apply]
    split
    · rfl
    · exact howned.prepared kind fd' h
  main e h := (made_live hfree).mpr (.inl (howned.main e h))

theorem made_old (howned : Owned s) (hfree : s.endPoints fd = none) {k : Kind}
    (he : (s.made fd).Live e)
    (h : s.sets k ((s.made fd).eps e).myFd = true ∨ (((s.made fd).eps e).io k).cbk = true) :
    s.Live e ∧ (s.made fd).eps e = s.eps e := by
  rcases (made_live hfree).mp he with hlive | rfl
  · exact ⟨hlive, made_eps (howned.ne_next hlive)⟩
  · rcases h with h | h
    · have hthere := howned.prepared k _ h
      simp [State.made, hfree] at hthere
    · simp [State.made] at h

theorem Numbered.made (howned : Owned s) (hnumbered : Numbered s) (hfree : s.endPoints fd = none) :
    Numbered (s.made fd) where
  request k e he h := by
    obtain ⟨hlive, heps⟩ := made_old howned hfree he (.inl h)
    rw [heps] at h ⊢
    exact hnumbered.request k e hlive h
  distinct k k' e e' he he' h h' := by
    obtain ⟨hlive, heps⟩ := made_old howned hfree he (.inl h)
    obtain ⟨hlive', heps'⟩ := made_old howned hfree he' (.inl h')
    rw [heps] at h ⊢
    rw [heps'] at h' ⊢
    exact hnumbered.distinct k k' e e' hlive hlive' h h'
  below := hnumbered.below
  once := hnumbered.once
  called := hnumbered.called

theorem Answered.made (howned : Owned s) (hanswered : Answered but s)
    (hfree : s.endPoints fd = none) :
    Answered but (s.made fd) where
  fresh k e he hready hcbk := by
    obtain ⟨hlive, heps⟩ := made_old howned hfree he (.inr hcbk)
    rw [heps] at hready hcbk ⊢
    exact hanswered.fresh k e hlive hready hcbk
  armed k e hbut he hready hcbk := by
    obtain ⟨hlive, heps⟩ := made_old howned hfree he (.inr hcbk)
    rw [heps] at hready hcbk ⊢
    refine (hanswered.armed k e hbut hlive hready hcbk).imp_right fun hpassed => ⟨hpassed.1, ?_⟩
    have hmem : some e ∈ s.priorityList.take (s.passed k) := hpassed.2
    change some e ∈ (s.priorityList ++ [some s.nextEp]).take (s.passed k)
    rw [List.take_append]
    exact List.mem_append_left _ hmem

def State.Calls (s : State) : Prop :=
    ∀ idx ep fd specialCheck, s.phase ≠ .read idx ep fd specialCheck

theorem again_live (howned : Owned s) {idx : Nat} {specialCheck : Bool}
    (hagain : s.again idx specialCheck = some e) : s.Live e := by
  unfold State.again at hagain
  split at hagain
  · exact howned.main e hagain
  · refine (howned.listed e).mp ?_
    rw [List.getD_eq_getElem?_getD] at hagain
    cases hslot : s.priorityList[idx]? with
    | none =>
      rw [hslot] at hagain
      cases hagain
    | some slot =>
      rw [hslot] at hagain
      obtain rfl : slot = some e := hagain
      exact List.mem_of_getElem? hslot

theorem Placed.made (howned : Owned s) (hcalls : s.Calls) (hplaced : s.Placed) :
    (s.made fd).Placed := by
  unfold State.Placed at hplaced ⊢
  change match s.phase with
    | .read idx ep' fd specialCheck => _
    | .write idx fd specialCheck => _
    | _ => True
  split
  next hphase => exact absurd hphase (hcalls _ _ _ _)
  next idx fd' specialCheck hphase =>
    rw [hphase] at hplaced
    obtain ⟨hidx, hrest⟩ := hplaced
    have hagain : (s.made fd).again idx specialCheck = s.again idx specialCheck := by
      simp only [State.again, State.made]
      rw [List.getD_eq_getElem?_getD, List.getD_eq_getElem?_getD, List.getElem?_append_left hidx]
    refine ⟨by simp only [State.made, List.length_append]; omega, fun e he => ?_⟩
    rw [hagain] at he
    rw [made_eps (howned.ne_next (again_live howned he))]
    exact hrest e he
  next => trivial

end Making

section Deleting

variable {but : Kind → Nat → Prop} {e : Nat} {slots : List (Option Nat)}

theorem delEndPoint_live (hlive : s.Live ep) : (s.delEndPoint ep).Live e ↔ s.Live e ∧ e ≠ ep := by
  have hlive' : s.endPoints (s.eps ep).myFd = some ep := hlive
  unfold State.Live
  simp only [State.delEndPoint, update_apply]
  split
  next hfd =>
    rw [hfd, hlive']
    simp [eq_comm]
  next hfd =>
    refine ⟨fun h => ⟨h, ?_⟩, And.left⟩
    rintro rfl
    exact hfd rfl

theorem mem_cleared : some e ∈ slots.map (fun slot => if slot = some ep then none else slot) ↔
    some e ∈ slots ∧ e ≠ ep := by
  rw [List.mem_map]
  constructor
  · rintro ⟨slot, hmem, hslot⟩
    split at hslot
    · cases hslot
    next hne =>
      subst hslot
      exact ⟨hmem, fun h => hne (congrArg some h)⟩
  · rintro ⟨hmem, hne⟩
    exact ⟨some e, hmem, if_neg fun h => hne (Option.some.inj h)⟩

theorem cleared_nodup (hnodup : (slots.filterMap id).Nodup) :
    ((slots.map fun slot => if slot = some ep then none else slot).filterMap id).Nodup := by
  induction slots with
  | nil => exact hnodup
  | cons slot slots ih =>
    cases slot with
    | none => simpa using ih (by simpa using hnodup)
    | some e =>
      simp only [List.filterMap_cons, id, List.nodup_cons] at hnodup
      rw [List.map_cons]
      split
      · simpa using ih hnodup.2
      · simp only [List.filterMap_cons, id, List.nodup_cons]
        refine ⟨fun hmem => hnodup.1 ?_, ih hnodup.2⟩
        simp only [List.mem_filterMap, exists_eq_right] at hmem ⊢
        exact (mem_cleared.mp hmem).1

theorem Owned.delEndPoint (howned : Owned s) (hlive : s.Live ep) : Owned (s.delEndPoint ep) where
  owner fd e h := by
    simp only [State.delEndPoint, update_apply] at h ⊢
    split at h
    · cases h
    · exact howned.owner fd e h
  listed e := by
    rw [delEndPoint_live hlive, ← howned.listed]
    exact mem_cleared
  once := cleared_nodup howned.once
  prepared kind fd h := by
    simp only [State.delEndPoint, update_apply] at h ⊢
    split at h
    · cases h
    next hfd =>
      rw [if_neg hfd]
      exact howned.prepared kind fd h
  main e h := by
    simp only [State.delEndPoint] at h
    split at h
    · cases h
    next hmain =>
      refine (delEndPoint_live hlive).mpr ⟨howned.main e h, ?_⟩
      rintro rfl
      exact hmain h

theorem delEndPoint_sets {f : Nat} (h : (s.delEndPoint ep).sets kind f = true) :
    s.sets kind f = true := by
  simp only [State.delEndPoint, update_apply] at h
  split at h
  · cases h
  · exact h

theorem Numbered.delEndPoint (hnumbered : Numbered s) (hlive : s.Live ep) :
    Numbered (s.delEndPoint ep) where
  request k e he h := hnumbered.request k e ((delEndPoint_live hlive).mp he).1 (delEndPoint_sets h)
  distinct k k' e e' he he' h h' :=
    hnumbered.distinct k k' e e' ((delEndPoint_live hlive).mp he).1
      ((delEndPoint_live hlive).mp he').1
      (delEndPoint_sets h) (delEndPoint_sets h')
  below := hnumbered.below
  once := hnumbered.once
  called := hnumbered.called

theorem delEndPoint_main (h : (s.delEndPoint ep).mainEndPoint = some e) :
    s.mainEndPoint = some e := by
  simp only [State.delEndPoint] at h
  split at h
  · cases h
  · exact h

theorem Answered.delEndPoint (hanswered : Answered but s) (hlive : s.Live ep) :
    Answered but (s.delEndPoint ep) where
  fresh k e he hready hcbk := hanswered.fresh k e ((delEndPoint_live hlive).mp he).1 hready hcbk
  armed k e hbut he hready hcbk := by
    obtain ⟨he, hne⟩ := (delEndPoint_live hlive).mp he
    rcases hanswered.armed k e hbut he hready hcbk with hset | ⟨hspecial, hmem⟩
    · refine .inl ?_
      have hfd : (s.eps e).myFd ≠ (s.eps ep).myFd := fun h => hne (live_inj he hlive h)
      simp only [State.delEndPoint, update_apply]
      rw [if_neg hfd]
      exact hset
    · refine .inr ⟨fun h => hspecial ⟨delEndPoint_main h.1, h.2⟩, ?_⟩
      change some e ∈ (s.priorityList.map fun slot =>
        if slot = some ep then none else slot).take (s.passed k)
      rw [← List.map_take]
      exact mem_cleared.mpr ⟨hmem, hne⟩

theorem delEndPoint_again {idx : Nat} {specialCheck : Bool}
    (h : (s.delEndPoint ep).again idx specialCheck = some e) :
    s.again idx specialCheck = some e := by
  unfold State.again at h ⊢
  split at h
  next hspecial =>
    rw [if_pos hspecial]
    exact delEndPoint_main h
  next hspecial =>
    rw [if_neg hspecial]
    simp only [State.delEndPoint, List.getD_eq_getElem?_getD, List.getElem?_map] at h ⊢
    cases hslot : s.priorityList[idx]? with
    | none =>
      rw [hslot] at h
      cases h
    | some slot =>
      rw [hslot] at h
      simp only [Option.map_some, Option.getD_some] at h ⊢
      split at h
      · cases h
      · exact h

theorem Placed.delEndPoint (hcalls : s.Calls) (hplaced : s.Placed) : (s.delEndPoint ep).Placed := by
  unfold State.Placed at hplaced ⊢
  change match s.phase with
    | .read idx ep' fd specialCheck => _
    | .write idx fd specialCheck => _
    | _ => True
  split
  next hphase => exact absurd hphase (hcalls _ _ _ _)
  next idx fd' specialCheck hphase =>
    rw [hphase] at hplaced
    refine ⟨by simpa [State.delEndPoint] using hplaced.1, fun e he => ?_⟩
    obtain ⟨hfd, hspecial⟩ := hplaced.2 e (delEndPoint_again he)
    refine ⟨hfd, fun hcheck => ⟨?_, (hspecial hcheck).2⟩⟩
    rw [hcheck] at he
    exact he
  next => trivial

end Deleting

section Performing

variable {but : Kind → Nat → Prop} {e : Nat}

theorem Inv.count (hinv : Inv but s) (maxEndPoints : Nat) (keepSelecting : Bool) (thisTime : Nat)
    (readyCount : Int) (endpointsServiced : Nat) :
    Inv but
      { s with
        maxEndPoints := maxEndPoints
        keepSelecting := keepSelecting
        thisTime := thisTime
        readyCount := readyCount
        endpointsServiced := endpointsServiced } where
  owned := { hinv.owned with }
  numbered := { hinv.numbered with }
  answered h := ⟨(hinv.answered h).fresh, (hinv.answered h).armed⟩
  placed := hinv.placed

theorem setWork_eps (s : State) (ep e : Nat) (cbk : Bool) : ((s.setWork ep cbk).eps e).io =
    (s.eps e).io ∧ ((s.setWork ep cbk).eps e).myFd = (s.eps e).myFd := by
  simp only [State.setWork, update_apply]
  split
  next h =>
    rw [h]
    exact ⟨rfl, rfl⟩
  next => exact ⟨rfl, rfl⟩

theorem Inv.setWork (hinv : Inv but s) (ep : Nat) (cbk : Bool) : Inv but (s.setWork ep cbk) := by
  have hio (e : Nat) := (setWork_eps s ep e cbk).1
  have hfd (e : Nat) := (setWork_eps s ep e cbk).2
  have hlive (e : Nat) : (s.setWork ep cbk).Live e ↔ s.Live e := by
    unfold State.Live
    rw [hfd]
    exact Iff.rfl
  obtain ⟨⟨howner, hlisted, honce, hprepared, hmain⟩,
      ⟨hrequest, hdistinct, hbelow, hcalls, hcalled⟩, hanswered, hplaced⟩ := hinv
  constructor
  · refine ⟨fun fd e h => ?_, fun e => (hlisted e).trans (hlive e).symm, honce, hprepared,
      fun e h => (hlive e).mpr (hmain e h)⟩
    rw [hfd]
    exact howner fd e h
  · refine ⟨fun k e he h => ?_, fun k k' e e' he he' h h' => ?_, hbelow, hcalls, hcalled⟩
    · rw [hfd] at h
      rw [hio]
      exact hrequest k e ((hlive e).mp he) h
    · rw [hfd] at h h'
      rw [hio, hio]
      exact hdistinct k k' e e' ((hlive e).mp he) ((hlive e').mp he') h h'
  · intro hdispatching
    obtain ⟨hfresh, harmed⟩ := hanswered hdispatching
    refine ⟨fun k e he hready hcbk => ?_, fun k e hbut he hready hcbk => ?_⟩
    · rw [hfd] at hready ⊢
      rw [hio] at hcbk
      exact hfresh k e ((hlive e).mp he) hready hcbk
    · rw [hfd] at hready ⊢
      rw [hio] at hcbk
      exact harmed k e hbut ((hlive e).mp he) hready hcbk
  · exact Placed.keep hplaced rfl rfl rfl rfl hfd hlive

structure Stays (s s' : State) : Prop where
  phase : s'.phase = s.phase
  ready : s'.ready = s.ready
  mainEpIsReg : s'.mainEpIsReg = s.mainEpIsReg
  main : ∀ e, s'.mainEndPoint = some e → s.mainEndPoint = some e
  numbers : s.nextEp ≤ s'.nextEp
  myFd : ∀ e < s.nextEp, (s'.eps e).myFd = (s.eps e).myFd
  live : ∀ e < s.nextEp, s'.Live e → s.Live e
  taken : ∀ e < s.nextEp, s'.Live e → ∀ n, some e ∈ s.priorityList.take n →
    some e ∈ s'.priorityList.take n
  mainStays : ∀ e < s.nextEp, s'.Live e → s.mainEndPoint = some e → s'.mainEndPoint = some e

theorem Stays.refl (s : State) : Stays s s where
  phase := rfl
  ready := rfl
  mainEpIsReg := rfl
  main _ := id
  numbers := Nat.le_refl _
  myFd _ _ := rfl
  live _ _ := id
  taken _ _ _ _ := id
  mainStays _ _ _ := id

theorem Stays.trans {s'' : State} (h : Stays s s') (h' : Stays s' s'') : Stays s s'' where
  phase := h'.phase.trans h.phase
  ready := h'.ready.trans h.ready
  mainEpIsReg := h'.mainEpIsReg.trans h.mainEpIsReg
  main e he := h.main e (h'.main e he)
  numbers := Nat.le_trans h.numbers h'.numbers
  myFd e he := (h'.myFd e (Nat.lt_of_lt_of_le he h.numbers)).trans (h.myFd e he)
  live e he hlive := h.live e he (h'.live e (Nat.lt_of_lt_of_le he h.numbers) hlive)
  taken e he hlive n hmem :=
    have he' := Nat.lt_of_lt_of_le he h.numbers
    h'.taken e he' hlive n (h.taken e he (h'.live e he' hlive) n hmem)
  mainStays e he hlive hmain :=
    have he' := Nat.lt_of_lt_of_le he h.numbers
    h'.mainStays e he' hlive (h.mainStays e he (h'.live e he' hlive) hmain)

theorem Stays.count (s : State) (maxEndPoints : Nat) (keepSelecting : Bool) :
    Stays s { s with maxEndPoints := maxEndPoints, keepSelecting := keepSelecting } where
  phase := rfl
  ready := rfl
  mainEpIsReg := rfl
  main _ := id
  numbers := Nat.le_refl _
  myFd _ _ := rfl
  live _ _ := id
  taken _ _ _ _ := id
  mainStays _ _ _ := id

theorem Stays.made (hfree : s.endPoints fd = none) : Stays s (s.made fd) where
  phase := rfl
  ready := rfl
  mainEpIsReg := rfl
  main _ := id
  numbers := Nat.le_succ _
  myFd e he := by rw [made_eps (Nat.ne_of_lt he)]
  live e he hlive := ((made_live hfree).mp hlive).resolve_right (Nat.ne_of_lt he)
  taken e he hlive n hmem := by
    change some e ∈ (s.priorityList ++ [some s.nextEp]).take n
    rw [List.take_append]
    exact List.mem_append_left _ hmem
  mainStays _ _ _ := id

theorem Stays.delEndPoint (hlive : s.Live ep) : Stays s (s.delEndPoint ep) where
  phase := rfl
  ready := rfl
  mainEpIsReg := rfl
  main e h := delEndPoint_main h
  numbers := Nat.le_refl _
  myFd _ _ := rfl
  live e _ he := ((delEndPoint_live hlive).mp he).1
  taken e _ he n hmem := by
    change some e ∈ (s.priorityList.map fun slot => if slot = some ep then none else slot).take n
    rw [← List.map_take]
    exact mem_cleared.mpr ⟨hmem, ((delEndPoint_live hlive).mp he).2⟩
  mainStays e _ he hmain := by
    simp only [State.delEndPoint]
    rw [if_neg, hmain]
    rw [hmain]
    exact fun h => ((delEndPoint_live hlive).mp he).2 (Option.some.inj h)

theorem Stays.edit (kind : Kind) (ep : Nat) (io : Io) (b : Bool) (nextRequest : Nat) :
    Stays s { s.edit kind ep io b with nextRequest := nextRequest } where
  phase := rfl
  ready := rfl
  mainEpIsReg := rfl
  main _ := id
  numbers := Nat.le_refl _
  myFd e _ := by
    change ((s.edit kind ep io b).eps e).myFd = _
    rw [edit_myFd]
  live e _ hlive := by
    change (s.edit kind ep io b).Live e at hlive
    rwa [edit_live] at hlive
  taken _ _ _ _ := id
  mainStays _ _ _ := id

theorem Stays.setWork (s : State) (ep : Nat) (cbk : Bool) : Stays s (s.setWork ep cbk) where
  phase := rfl
  ready := rfl
  mainEpIsReg := rfl
  main _ := id
  numbers := Nat.le_refl _
  myFd e _ := (setWork_eps s ep e cbk).2
  live e _ hlive := by
    unfold State.Live at hlive ⊢
    rw [(setWork_eps s ep e cbk).2] at hlive
    exact hlive
  taken _ _ _ _ := id
  mainStays _ _ _ := id

theorem Inv.newEndPoint (hinv : Inv but s) (hcalls : s.Calls) (hsafe : OpSafe s (.newEndPoint fd)) :
    ∃ s', s.newEndPoint fd = .ok s' ∧ Inv but s' ∧ Stays s s' := by
  have hcount :=
    hinv.count (tableSize s.maxEndPoints fd) s.keepSelecting s.thisTime s.readyCount
    s.endpointsServiced
  unfold State.newEndPoint
  dsimp only
  split
  · exact ⟨_, rfl, hcount, Stays.count s _ _⟩
  next hfree =>
    have hfree : s.endPoints fd = none := by simpa using hfree
    split
    · exact ⟨_, rfl, hcount, Stays.count s _ _⟩
    next hsize =>
      rw [if_neg (Nat.not_le.mpr (hsafe hfree (Nat.not_le.mp hsize)))]
      refine ⟨_, rfl, ?_, (Stays.count s (tableSize s.maxEndPoints fd) s.keepSelecting).trans
        (Stays.made hfree)⟩
      exact ⟨hcount.owned.made hfree, hcount.numbered.made hcount.owned hfree,
        fun h => (hcount.answered h).made hcount.owned hfree,
          Placed.made (s := { s with maxEndPoints := tableSize s.maxEndPoints fd }) hcount.owned
            hcalls hcount.placed⟩

theorem Inv.delEndPoint (hinv : Inv but s) (hcalls : s.Calls) (hlive : s.Live ep) :
    Inv but (s.delEndPoint ep) :=
  ⟨hinv.owned.delEndPoint hlive, hinv.numbered.delEndPoint hlive,
    fun h => (hinv.answered h).delEndPoint hlive,
    Placed.delEndPoint hcalls hinv.placed⟩

theorem Inv.prepare (hinv : Inv but s) (hlive : s.Live ep) {buffers : Option Nat} {func : Bool}
    (hsafe : OpSafe s (.prepare kind ep buffers func)) :
    Inv but (s.prepare kind ep buffers func) := by
  unfold State.prepare
  split
  · exact hinv
  · have howned := hinv.owned.edit hlive kind ⟨buffers, func, s.nextRequest⟩ true
    have hplaced := Placed.edit hinv.placed kind ep ⟨buffers, func, s.nextRequest⟩ true
    refine ⟨{ howned with },
      hinv.numbered.prepare hlive rfl, ?_, hplaced⟩
    intro hdispatching
    have hanswered :=
      (hinv.answered hdispatching).edit hlive kind ⟨buffers, func, s.nextRequest⟩ true
      (fun _ hready => hsafe hlive hdispatching hready) (.inl rfl)
    exact ⟨hanswered.fresh, hanswered.armed⟩

theorem Inv.cancel (hinv : Inv but s) (hlive : s.Live ep) : Inv but (s.cancel kind ep) :=
  ⟨hinv.owned.edit hlive kind _ false, hinv.numbered.edit,
    fun h => (hinv.answered h).edit hlive kind _ false (fun h => absurd h Bool.false_ne_true)
      (.inr (.inl rfl)),
    Placed.edit hinv.placed kind ep _ false⟩

theorem Inv.perform (hinv : Inv but s) (hcalls : s.Calls) {op : Op} (hsafe : OpSafe s op) :
    ∃ s', s.perform op = .ok s' ∧ Inv but s' ∧ Stays s s' := by
  cases op with
  | newEndPoint fd => exact hinv.newEndPoint hcalls hsafe
  | delEndPoint ep =>
    refine ⟨_, rfl, ?_⟩
    split
    next hlive => exact ⟨hinv.delEndPoint hcalls hlive, Stays.delEndPoint hlive⟩
    next => exact ⟨hinv, Stays.refl s⟩
  | prepare kind ep buffers func =>
    refine ⟨_, rfl, ?_⟩
    split
    next hlive =>
      refine ⟨hinv.prepare hlive hsafe, ?_⟩
      unfold State.prepare
      split
      · exact Stays.refl s
      · exact Stays.edit kind ep _ true _
    next => exact ⟨hinv, Stays.refl s⟩
  | cancel kind ep =>
    refine ⟨_, rfl, ?_⟩
    split
    next hlive => exact ⟨hinv.cancel hlive, Stays.edit kind ep _ false s.nextRequest⟩
    next => exact ⟨hinv, Stays.refl s⟩
  | addWorkCallback ep cbk =>
    refine ⟨_, rfl, ?_⟩
    split
    next => exact ⟨hinv.setWork ep cbk, Stays.setWork s ep cbk⟩
    next => exact ⟨hinv, Stays.refl s⟩
  | stopRun =>
    exact ⟨_, rfl, hinv.count s.maxEndPoints false s.thisTime s.readyCount s.endpointsServiced,
      Stays.count s _ _⟩

theorem Inv.performAll (hinv : Inv but s) (hcalls : s.Calls) {ops : List Op}
    (hsafe : OpsSafe s ops) :
    ∃ s', s.performAll ops = .ok s' ∧ Inv but s' ∧ Stays s s' := by
  induction ops generalizing s with
  | nil => exact ⟨s, rfl, hinv, Stays.refl s⟩
  | cons op ops ih =>
    obtain ⟨s', hperform, hinv', hstays⟩ := hinv.perform hcalls hsafe.1
    have hcalls' : s'.Calls := by
      intro idx ep fd specialCheck
      rw [hstays.phase]
      exact hcalls idx ep fd specialCheck
    obtain ⟨s'', hrest, hinv'', hstays'⟩ := ih hinv' hcalls' (hsafe.2 s' hperform)
    refine ⟨s'', ?_, hinv'', hstays.trans hstays'⟩
    unfold State.performAll
    rw [hperform]
    exact hrest

end Performing

section Servicing

variable {result : IoResult} {ops : List Op}

theorem Inv.calling (hinv : Inv nothing s) (hlive : s.Live ep) (hdispatching : s.Dispatching)
    (hready : s.ready kind (s.eps ep).myFd = true) (hcbk : ((s.eps ep).io kind).cbk = true)
    (hset : s.sets kind (s.eps ep).myFd = true) :
    Inv (fun k e => k = kind ∧ e = ep) (s.calling kind ep (s.eps ep).myFd) := by
  have hreported := (hinv.answered hdispatching).fresh kind ep hlive hready hcbk
  have howned := hinv.owned.edit hlive kind { (s.eps ep).io kind with buffers := none } false
  have hnumbered : Numbered (s.edit kind ep { (s.eps ep).io kind with buffers := none } false) :=
    hinv.numbered.edit
  obtain ⟨hbelow, hnotMem⟩ := hinv.numbered.request kind ep hlive hset
  have hother {k : Kind} {e : Nat} (he : s.Live e)
      (h : (s.edit kind ep { (s.eps ep).io kind with buffers := none } false).sets k
        (s.eps e).myFd = true) :
      ((s.eps e).io k).request ≠ ((s.eps ep).io kind).request ∧
        ((s.edit kind ep { (s.eps ep).io kind with buffers := none } false).eps e).io k =
          (s.eps e).io k := by
    rw [edit_sets] at h
    split at h
    · cases h
    next hne =>
      have hsame : ¬(e = ep ∧ k = kind) := by
        rintro ⟨rfl, rfl⟩
        exact hne ⟨rfl, rfl⟩
      rw [edit_io, if_neg hsame]
      refine ⟨fun hrequest => hsame ?_, rfl⟩
      obtain ⟨hkind, hep⟩ := hinv.numbered.distinct k kind e ep he hlive h hset hrequest
      exact ⟨hep, hkind⟩
  refine ⟨{ howned with }, ?_, ?_, ?_⟩
  · refine ⟨fun k e he h => ?_, hnumbered.distinct, ?_, ?_, ?_⟩
    · obtain ⟨hlt, hmem⟩ := hnumbered.request k e he h
      have he' : (s.edit kind ep { (s.eps ep).io kind with buffers := none } false).Live e := he
      rw [edit_live] at he'
      have h' : (s.edit kind ep { (s.eps ep).io kind with buffers := none } false).sets k
          ((s.edit kind ep { (s.eps ep).io kind with buffers := none } false).eps e).myFd = true :=
            h
      rw [edit_myFd] at h'
      obtain ⟨hne, hio⟩ := hother he' h'
      refine ⟨hlt, ?_⟩
      change (((s.edit kind ep { (s.eps ep).io kind with buffers := none } false).eps
        e).io k).request ∉
        ((s.eps ep).io kind).request :: s.calls.map Call.request
      rw [List.mem_cons, not_or]
      refine ⟨?_, hmem⟩
      rw [hio]
      exact hne
    · exact List.forall_mem_cons.mpr ⟨hbelow, hinv.numbered.below⟩
    · exact List.nodup_cons.mpr ⟨hnotMem, hinv.numbered.once⟩
    · exact List.forall_mem_cons.mpr ⟨⟨hset, hreported⟩, hinv.numbered.called⟩
  · intro h
    have hanswered : Answered (fun k e => k = kind ∧
        e = ep) (s.edit kind ep { (s.eps ep).io kind with buffers := none } false) := by
      have hless : Answered (fun k e => k = kind ∧ e = ep) s :=
        ⟨(hinv.answered hdispatching).fresh, fun k e _ => (hinv.answered hdispatching).armed k e id⟩
      exact hless.edit hlive kind _ false (fun _ _ => hreported) (.inr (.inr (.inl ⟨rfl, rfl⟩)))
    exact ⟨hanswered.fresh, hanswered.armed⟩
  · exact Placed.edit hinv.placed kind ep _ false

theorem Inv.service (hinv : Inv nothing s) (hcalls : s.Calls) (hdispatching : s.Dispatching)
    (hlive : s.Live ep) (hfd : (s.eps ep).myFd = fd)
    (hset : s.ready kind fd = true → ((s.eps ep).io kind).cbk = true → s.sets kind fd = true)
    (hpassed : ¬s.Special ep → s.Passed kind ep) (hsafe : ServiceSafe s kind ep fd result ops) :
    ∃ s', s.service kind ep fd result ops = .ok s' ∧ Inv nothing s' := by
  subst hfd
  unfold State.service
  split
  next hready =>
    have hcount : Inv nothing s.counted :=
      hinv.count s.maxEndPoints s.keepSelecting s.thisTime (s.readyCount - 1)
        (s.endpointsServiced + 1)
    have hsafe := hsafe hready
    dsimp only at hsafe ⊢
    rw [if_neg (not_not.mpr (show s.counted.Live ep from hlive))]
    cases hresult : doIo kind ((s.counted.eps ep).io kind).buffers result with
    | completes =>
      rw [hresult] at hsafe
      dsimp only at hsafe ⊢
      split
      next hcbk =>
        obtain ⟨hops, hend⟩ := hsafe hcbk
        have hcalled := Inv.calling hcount hlive hdispatching hready hcbk (hset hready hcbk)
        obtain ⟨s', hperform, hinv', hstays⟩ := hcalled.performAll hcalls hops
        refine ⟨s', hperform, hinv'.owned, hinv'.numbered,
          fun h => ⟨(hinv'.answered h).fresh, ?_⟩, hinv'.placed⟩
        intro k e _ he hready' hcbk'
        by_cases hsame : k = kind ∧ e = ep
        · obtain ⟨rfl, rfl⟩ := hsame
          have hlt : e < s.nextEp := (hinv.owned.owner _ e hlive).2
          have hmyFd : (s'.eps e).myFd = (s.eps e).myFd := by
            rw [hstays.myFd e hlt]
            change ((s.counted.edit k e { (s.eps e).io k with buffers := none } false).eps e).myFd =
              (s.eps e).myFd
            rw [edit_myFd]
            rfl
          by_cases hspecial : s'.Special e
          · rcases hend s' hperform hspecial.1 hspecial.2 with h | h
            · rw [hmyFd]
              exact .inl h
            · rw [h] at hcbk'
              cases hcbk'
          · refine .inr ⟨hspecial, ?_⟩
            have hbefore : ¬s.Special e := by
              intro h
              refine hspecial ⟨hstays.mainStays e hlt he h.1, ?_⟩
              rw [hstays.mainEpIsReg]
              exact h.2
            have hmem := hstays.taken e hlt he _ (hpassed hbefore).2
            unfold State.passed at hmem ⊢
            rw [hstays.phase]
            exact hmem
        · exact (hinv'.answered h).armed k e hsame he hready' hcbk'
      next hcbk =>
        have hcbk : ((s.counted.eps ep).io kind).cbk = false := by simpa using hcbk
        refine ⟨_, rfl, hcount.owned.edit hlive kind _ false, hcount.numbered.edit, fun h => ?_,
          Placed.edit hcount.placed kind ep _ false⟩
        refine (hcount.answered h).edit hlive kind _ false (fun h => ?_) (.inr (.inl hcbk))
        exact absurd (hcbk.symm.trans h) Bool.false_ne_true
    | incomplete =>
      exact ⟨_, rfl, hcount⟩
    | progress =>
      rw [hresult] at hsafe
      obtain ⟨s', hperform, hinv', _⟩ := hcount.performAll hcalls hsafe
      exact ⟨s', hperform, hinv'⟩
    | interrupted =>
      rw [hresult] at hsafe
      dsimp only
      obtain ⟨s', hperform, hinv', _⟩ := hcount.performAll hcalls hsafe.1
      rw [hperform]
      dsimp only
      rw [if_pos (hsafe.2 s' hperform)]
      exact ⟨s', rfl, hinv'⟩
  next => exact ⟨s, rfl, hinv⟩

end Servicing

section Steps

variable {idx : Nat} {specialCheck : Bool} {result : IoResult} {ops : List Op} {input : Input}

theorem notMem_take {slots : List (Option Nat)} (hnodup : (slots.filterMap id).Nodup)
    (hslot : slots[idx]? = some (some ep)) :
    some ep ∉ slots.take idx := by
  intro hmem
  obtain ⟨hidx, hget⟩ := List.getElem?_eq_some_iff.mp hslot
  rw [← List.take_append_drop idx slots, List.filterMap_append, List.nodup_append] at hnodup
  refine hnodup.2.2 ep ?_ ep ?_ rfl
  · exact List.mem_filterMap.mpr ⟨some ep, hmem, rfl⟩
  · rw [List.drop_eq_getElem_cons hidx, hget]
    exact List.mem_filterMap.mpr ⟨some ep, List.mem_cons_self, rfl⟩

theorem mem_take_succ {slots : List (Option Nat)} (hslot : slots[idx]? = some (some ep)) :
    some ep ∈ slots.take (idx + 1) := by
  obtain ⟨hidx, hget⟩ := List.getElem?_eq_some_iff.mp hslot
  rw [List.take_succ_eq_append_getElem hidx, hget]
  exact List.mem_append_right _ List.mem_cons_self

theorem passed_visit {idx : Nat} (hphase : s.phase = .visit idx) (kind : Kind) :
    s.passed kind = idx := by
  unfold State.passed
  rw [hphase]

theorem dispatching_visit {idx : Nat} (hphase : s.phase = .visit idx) : s.Dispatching := by
  unfold State.Dispatching
  rw [hphase]
  trivial

theorem dispatching_read {idx : Nat} {specialCheck : Bool}
    (hphase : s.phase = .read idx ep fd specialCheck) : s.Dispatching := by
  unfold State.Dispatching
  rw [hphase]
  trivial

theorem dispatching_write {idx : Nat} {specialCheck : Bool}
    (hphase : s.phase = .write idx fd specialCheck) : s.Dispatching := by
  unfold State.Dispatching
  rw [hphase]
  trivial

section Invariant

variable (hinv : Inv nothing s)

include hinv

theorem Inv.goTo (hdispatching : s.Dispatching) (phase : Phase)
    (hpassed : ∀ kind, s.passed kind ≤ ({ s with phase := phase } : State).passed kind)
    (hplaced : ({ s with phase := phase } : State).Placed) :
    Inv nothing { s with phase := phase } where
  owned := { hinv.owned with }
  numbered := { hinv.numbered with }
  answered _ := by
    refine ⟨(hinv.answered hdispatching).fresh, fun k e hbut he hready hcbk => ?_⟩
    refine ((hinv.answered hdispatching).armed k e hbut he hready hcbk).imp_right fun h => ⟨h.1, ?_⟩
    exact List.take_subset_take_left _ (hpassed k) h.2
  placed := hplaced

theorem Inv.leave (phase : Phase) (ready : Kind → Nat → Bool) (keepSelecting : Bool)
    (hphase : ¬({ s with phase := phase } : State).Dispatching) :
    Inv nothing { s with ready := ready, keepSelecting := keepSelecting, phase := phase } where
  owned := { hinv.owned with }
  numbered := { hinv.numbered with }
  answered h := absurd h hphase
  placed := by
    unfold State.Dispatching at hphase
    unfold State.Placed
    cases phase <;> first | trivial | exact absurd trivial hphase

theorem Inv.start (hphase : s.phase = .start) (ops : List Op) (main : Option (Nat × Bool))
    (hsafe : OpsSafe s ops) : ∃ s', s.step (.start ops main) = .ok s' ∧ Inv nothing s' := by
  have hcalls : s.Calls := by
    intro idx ep fd specialCheck
    rw [hphase]
    exact nofun
  obtain ⟨s', hperform, hinv', _⟩ := hinv.performAll hcalls hsafe
  unfold State.step
  rw [hphase]
  dsimp only
  rw [hperform]
  have howned := hinv'.owned
  refine ⟨_, rfl, ⟨howned.owner, howned.listed, howned.once, howned.prepared, ?_⟩, ?_,
    False.elim, trivial⟩
  · intro e he
    obtain ⟨m, _, hm⟩ := Option.bind_eq_some_iff.mp he
    split at hm
    next hlive =>
      obtain rfl := Option.some.inj hm
      exact hlive
    next => cases hm
  · have hnumbered := hinv'.numbered
    exact { hnumbered with }

theorem Inv.select (result : SelectResult) : Inv nothing (s.select result).1 := by
  cases result with
  | nothing => exact hinv.leave .stopped s.ready s.keepSelecting id
  | interrupted handler => exact hinv.leave (.work 0) s.sets s.keepSelecting id
  | failed => exact hinv.leave (.work 0) s.sets false id
  | timeout callbacks => exact hinv.leave (.work 0) (fun _ _ => false) s.keepSelecting id
  | ready sets count handler =>
    refine ⟨{ hinv.owned with },
      { hinv.numbered with },
      fun _ => ⟨fun k e he _ _ => he, fun k e _ _ hready _ => ?_⟩, trivial⟩
    exact .inl (Bool.and_eq_true_iff.mp hready).1

theorem Inv.selected (hphase : s.phase = .select) (wake : List Op) (result : SelectResult)
    (hsafe : OpsSafe s wake ∧ ∀ s', s.performAll wake = .ok s' →
      OpsSafe (s'.select result).1 (s'.select result).2) :
    ∃ s', s.step (.select wake result) = .ok s' ∧ Inv nothing s' := by
  have hcalls : s.Calls := by
    intro idx ep fd specialCheck
    rw [hphase]
    exact nofun
  obtain ⟨s', hperform, hinv', _⟩ := hinv.performAll hcalls hsafe.1
  unfold State.step
  rw [hphase]
  dsimp only
  split
  · exact ⟨_, rfl, hinv.leave .stopped s.ready s.keepSelecting id⟩
  · rw [hperform]
    dsimp only
    have hcalls' : (s'.select result).1.Calls := by
      intro idx ep fd specialCheck
      cases result <;> exact nofun
    obtain ⟨s'', hrest, hinv'', _⟩ := (hinv'.select result).performAll hcalls' (hsafe.2 s' hperform)
    exact ⟨s'', hrest, hinv''⟩

theorem Inv.reportMain (hlive : s.Live ep) (found : Kind → Bool) (hplaced : s.Placed) :
    Inv nothing (s.reportMain ep (s.eps ep).myFd found) where
  owned := { hinv.owned with }
  numbered := { hinv.numbered with }
  answered h := by
    obtain ⟨hfresh, harmed⟩ := hinv.answered h
    have hcases {k : Kind} {e : Nat} (he : s.Live e)
        (hready : (s.reportMain ep (s.eps ep).myFd found).ready k (s.eps e).myFd = true) :
        (e = ep ∧ s.sets k (s.eps e).myFd = true ∧
          (s.reportMain ep (s.eps ep).myFd found).reported k (s.eps e).myFd = some ep) ∨
        s.ready k (s.eps e).myFd = true ∧
          (s.reportMain ep (s.eps ep).myFd found).reported k (s.eps e).myFd =
            s.reported k (s.eps e).myFd := by
      simp only [State.reportMain] at hready ⊢
      by_cases hhit : (s.sets k (s.eps ep).myFd && found k) = true
      · rw [if_pos hhit] at hready ⊢
        by_cases hfd : (s.eps e).myFd = (s.eps ep).myFd
        · rw [hfd, update_self]
          exact .inl ⟨live_inj he hlive hfd, (Bool.and_eq_true_iff.mp hhit).1, rfl⟩
        · rw [update_of_ne hfd] at hready ⊢
          exact .inr ⟨hready, rfl⟩
      · rw [if_neg hhit] at hready ⊢
        exact .inr ⟨hready, rfl⟩
    refine ⟨fun k e he hready hcbk => ?_, fun k e hbut he hready hcbk => ?_⟩
    · rcases hcases he hready with ⟨rfl, _, hreported⟩ | ⟨hready, hreported⟩
      · exact hreported
      · exact hreported.trans (hfresh k e he hready hcbk)
    · rcases hcases he hready with ⟨_, hset, _⟩ | ⟨hready, _⟩
      · exact .inl hset
      · exact harmed k e hbut he hready hcbk
  placed := hplaced

theorem Inv.choose (hphase : s.phase = .visit idx) (hslot : s.priorityList[idx]? = some (some ep))
    (special : SpecialResult) : Inv nothing (s.choose idx ep special) := by
  obtain ⟨hidx, _⟩ := List.getElem?_eq_some_iff.mp hslot
  have hlive : s.Live ep := (hinv.owned.listed ep).mp (List.mem_of_getElem? hslot)
  have hdispatching : s.Dispatching := dispatching_visit hphase
  have hplain (serviced : Nat) :
      Inv nothing { s with
        endpointsServiced := serviced, phase := .read idx ep (s.eps ep).myFd false } := by
    have hcount := hinv.count s.maxEndPoints s.keepSelecting s.thisTime s.readyCount serviced
    refine hcount.goTo hdispatching (.read idx ep (s.eps ep).myFd false) (fun kind => ?_)
      ⟨hidx, hlive, rfl, hslot⟩
    exact Nat.le_of_eq (passed_visit hphase kind)
  unfold State.choose
  dsimp only
  split
  · exact hplain s.endpointsServiced
  next main hmain =>
    split
    next hspecial =>
      split
      · have hcount :=
          hinv.count s.maxEndPoints s.keepSelecting s.thisTime s.readyCount
          (s.endpointsServiced + 1)
        split
        · exact hcount.leave .stopped s.ready false id
        · exact hplain (s.endpointsServiced + 1)
        next found =>
          have hplaced : s.Placed := by
            unfold State.Placed
            rw [hphase]
            trivial
          have hmainLive : s.Live main := hinv.owned.main main hmain
          have hreport := hcount.reportMain hmainLive found hplaced
          refine hreport.goTo hdispatching (.read idx main (s.eps main).myFd true) (fun kind => ?_)
            ⟨hidx, hmainLive, rfl, hmain, hspecial.2.2⟩
          exact Nat.le_of_eq (passed_visit hphase kind)
      · exact hplain (s.endpointsServiced + 1)
    · exact hplain s.endpointsServiced

theorem Inv.visit (hphase : s.phase = .visit idx) (special : SpecialResult) :
    ∃ s', s.step (.visit special) = .ok s' ∧ Inv nothing s' := by
  have hdispatching : s.Dispatching := dispatching_visit hphase
  have hnext : Inv nothing { s with phase := .visit (idx + 1) } := by
    refine hinv.goTo hdispatching (.visit (idx + 1)) (fun kind => ?_) trivial
    unfold State.passed
    rw [hphase]
    exact Nat.le_succ idx
  unfold State.step
  rw [hphase]
  dsimp only
  split
  · exact ⟨_, rfl, hinv⟩
  · exact ⟨_, rfl, hnext⟩
  next ep hslot =>
    refine ⟨_, rfl, ?_⟩
    split
    · exact hinv.choose hphase hslot special
    · exact hnext

theorem Inv.reorder (hphase : s.phase = .visit idx) (order : List Nat) :
    ∃ s', s.step (.reorder order) = .ok s' ∧ Inv nothing s' := by
  unfold State.step
  rw [hphase]
  refine ⟨_, rfl, ?_⟩
  split
  · unfold State.reorderPriorityList
    split
    · exact (hinv.count s.maxEndPoints s.keepSelecting
        (s.thisTime - 1) s.readyCount s.endpointsServiced).leave (.work 0) s.ready
        s.keepSelecting id
    · dsimp only
      have hperm :
          (if order.Perm (s.priorityList.filterMap id) then order
            else s.priorityList.filterMap id).Perm
          (s.priorityList.filterMap id) := by
        split
        next h => exact h
        next => exact List.Perm.refl _
      generalize (if order.Perm (s.priorityList.filterMap id) then order
        else s.priorityList.filterMap id) = held at hperm
      refine ⟨⟨hinv.owned.owner, fun e => ?_, ?_, hinv.owned.prepared, hinv.owned.main⟩,
        { hinv.numbered with },
        False.elim, trivial⟩
      · have hlisted := hinv.owned.listed e
        change some e ∈ held.map some ↔ s.Live e
        rw [← hlisted]
        simp [hperm.mem_iff]
      · change ((held.map some).filterMap id).Nodup
        rw [List.filterMap_map, Function.id_comp, List.filterMap_some]
        exact hperm.nodup_iff.mpr hinv.owned.once
  · exact hinv

theorem Inv.prepared (hdispatching : s.Dispatching) (hlive : s.Live ep)
    (hpassed : ¬s.Passed kind ep) :
    s.ready kind (s.eps ep).myFd = true → ((s.eps ep).io kind).cbk = true →
      s.sets kind (s.eps ep).myFd = true := by
  intro hready hcbk
  exact ((hinv.answered hdispatching).armed kind ep id hlive hready hcbk).resolve_right hpassed

theorem Inv.read (hphase : s.phase = .read idx ep fd specialCheck)
    (hsafe : ServiceSafe { s with phase := .write idx fd specialCheck } .read ep fd result ops) :
    ∃ s', s.step (.io result ops) = .ok s' ∧ Inv nothing s' := by
  have hdispatching : s.Dispatching := dispatching_read hphase
  have hplaced := hinv.placed
  unfold State.Placed at hplaced
  rw [hphase] at hplaced
  obtain ⟨hidx, hlive, hfd, hplace⟩ := hplaced
  have hpassed (kind : Kind) : s.passed kind = idx := by
    unfold State.passed
    rw [hphase]
  have hagain {e : Nat} (h : s.again idx specialCheck = some e) : e = ep := by
    unfold State.again at h
    cases specialCheck with
    | true => exact Option.some.inj (h.symm.trans hplace.1)
    | false =>
      simp only [Bool.false_eq_true, if_false] at h hplace
      rw [List.getD_eq_getElem?_getD, hplace] at h
      exact (Option.some.inj h).symm
  have hnext : Inv nothing { s with phase := .write idx fd specialCheck } := by
    refine hinv.goTo hdispatching (.write idx fd specialCheck) (fun kind => ?_) ⟨hidx,
      fun e he => ?_⟩
    · rw [hpassed]
      unfold State.passed
      dsimp only
      split
      · exact Nat.le_succ idx
      · exact Nat.le_refl idx
    · obtain rfl := hagain he
      refine ⟨hfd, ?_⟩
      rintro rfl
      exact hplace
  unfold State.step
  rw [hphase]
  dsimp only
  refine hnext.service ?_ trivial hlive hfd ?_ ?_ hsafe
  · exact fun _ _ _ _ => nofun
  · rw [← hfd]
    refine hinv.prepared hdispatching hlive fun h => ?_
    cases specialCheck with
    | true => exact h.1 hplace
    | false =>
      have hmem := h.2
      rw [hpassed] at hmem
      exact notMem_take hinv.owned.once hplace hmem
  · intro hspecial
    cases specialCheck with
    | true => exact absurd hplace hspecial
    | false => exact ⟨hspecial, mem_take_succ hplace⟩

theorem Inv.write (hphase : s.phase = .write idx fd specialCheck)
    (hsafe : ∀ ep, s.again idx specialCheck = some ep →
      ServiceSafe { s with phase := .visit (if specialCheck then idx else idx + 1) } .write ep
        fd result ops) :
    ∃ s', s.step (.io result ops) = .ok s' ∧ Inv nothing s' := by
  have hdispatching : s.Dispatching := dispatching_write hphase
  have hplaced := hinv.placed
  unfold State.Placed at hplaced
  rw [hphase] at hplaced
  have hnext : Inv nothing { s with phase := .visit (if specialCheck then idx else idx + 1) } := by
    refine hinv.goTo hdispatching (.visit (if specialCheck then idx else idx + 1))
      (fun kind => ?_) trivial
    unfold State.passed
    rw [hphase]
    dsimp only
    cases specialCheck with
    | true => exact Nat.le_refl idx
    | false =>
      split
      · exact Nat.le_refl _
      · exact Nat.le_succ idx
  unfold State.step
  rw [hphase]
  dsimp only
  split
  · exact ⟨_, rfl, hnext⟩
  next ep hagain =>
    split
    · obtain ⟨hfd, hspecial⟩ := hplaced.2 ep hagain
      have hlive : s.Live ep := again_live hinv.owned hagain
      have hslot (hplain : specialCheck = false) : s.priorityList[idx]? = some (some ep) := by
        unfold State.again at hagain
        rw [hplain] at hagain
        simp only [Bool.false_eq_true, if_false] at hagain
        rw [List.getD_eq_getElem?_getD, List.getElem?_eq_getElem hplaced.1,
          Option.getD_some] at hagain
        rw [List.getElem?_eq_getElem hplaced.1, hagain]
      refine hnext.service ?_ trivial hlive hfd ?_ ?_ (hsafe ep hagain)
      · exact fun _ _ _ _ => nofun
      · rw [← hfd]
        refine hinv.prepared hdispatching hlive fun h => ?_
        cases specialCheck with
        | true => exact h.1 (hspecial rfl)
        | false =>
          have hmem := h.2
          unfold State.passed at hmem
          rw [hphase] at hmem
          exact notMem_take hinv.owned.once (hslot rfl) hmem
      · intro hnot
        cases specialCheck with
        | true => exact absurd (hspecial rfl) hnot
        | false => exact ⟨hnot, mem_take_succ (hslot rfl)⟩
    · exact ⟨_, rfl, hnext⟩

theorem Inv.work (hphase : s.phase = .work idx)
    (hsafe : ∀ ep, s.priorityList[idx]? = some (some ep) →
      OpsSafe ({ s with phase := .work (idx + 1) }.setWork ep false) ops) :
    ∃ s', s.step (.work ops) = .ok s' ∧ Inv nothing s' := by
  have hnext : Inv nothing { s with phase := .work (idx + 1) } :=
    hinv.leave (.work (idx + 1)) s.ready s.keepSelecting id
  unfold State.step
  rw [hphase]
  dsimp only
  split
  · exact ⟨_, rfl, hinv.leave .select s.ready s.keepSelecting id⟩
  · exact ⟨_, rfl, hnext⟩
  next ep hslot =>
    split
    · obtain ⟨s', hperform, hinv', _⟩ :=
        (hnext.setWork ep false).performAll (fun _ _ _ _ => nofun) (hsafe ep hslot)
      exact ⟨s', hperform, hinv'⟩
    · exact ⟨_, rfl, hnext⟩

theorem step_inv (hsafe : StepSafe s input) : ∃ s', s.step input = .ok s' ∧ Inv nothing s' := by
  unfold StepSafe at hsafe
  have hstays (h : s.step input = .ok s) :
      ∃ s', s.step input = .ok s' ∧ Inv nothing s' := ⟨s, h, hinv⟩
  cases hphase : s.phase with
  | start =>
    rw [hphase] at hsafe
    cases input with
    | start ops main => exact hinv.start hphase ops main hsafe
    | visit | reorder | select | io | work => exact hstays (by unfold State.step; rw [hphase])
  | select =>
    rw [hphase] at hsafe
    cases input with
    | select wake result => exact hinv.selected hphase wake result hsafe
    | visit | reorder | start | io | work => exact hstays (by unfold State.step; rw [hphase])
  | visit idx =>
    cases input with
    | visit special => exact hinv.visit hphase special
    | reorder order => exact hinv.reorder hphase order
    | start | select | io | work => exact hstays (by unfold State.step; rw [hphase])
  | read idx ep fd specialCheck =>
    rw [hphase] at hsafe
    cases input with
    | io result ops => exact hinv.read hphase hsafe
    | visit | reorder | start | select | work => exact hstays (by unfold State.step; rw [hphase])
  | write idx fd specialCheck =>
    rw [hphase] at hsafe
    cases input with
    | io result ops => exact hinv.write hphase hsafe
    | visit | reorder | start | select | work => exact hstays (by unfold State.step; rw [hphase])
  | work idx =>
    rw [hphase] at hsafe
    cases input with
    | work ops => exact hinv.work hphase hsafe
    | visit | reorder | start | select | io => exact hstays (by unfold State.step; rw [hphase])
  | stopped =>
    cases input <;> exact hstays (by unfold State.step; rw [hphase])

end Invariant

end Steps

theorem empty_inv : Inv nothing State.empty := by
  have hdead (ep : Nat) : ¬State.empty.Live ep := nofun
  refine ⟨⟨nofun, fun ep => ⟨nofun, fun h => absurd h (hdead ep)⟩, List.nodup_nil, nofun, nofun⟩,
    ?_, False.elim, trivial⟩
  exact ⟨fun _ ep h => absurd h (hdead ep), fun _ _ ep _ h => absurd h (hdead ep), nofun,
    List.nodup_nil, nofun⟩

theorem run_inv (hinv : Inv nothing s) {inputs : List Input} (hsafe : RunSafe s inputs) :
    ∃ s', s.run inputs = .ok s' ∧ Inv nothing s' := by
  induction inputs generalizing s with
  | nil => exact ⟨s, rfl, hinv⟩
  | cons input inputs ih =>
    obtain ⟨s', hstep, hinv'⟩ := step_inv hinv hsafe.1
    obtain ⟨s'', hrun, hinv''⟩ := ih hinv' (hsafe.2 s' hstep)
    refine ⟨s'', ?_, hinv''⟩
    unfold State.run
    rw [hstep]
    exact hrun

theorem count_filterMap {slots : List (Option Nat)} :
    slots.count (some ep) = (slots.filterMap id).count ep := by
  induction slots with
  | nil => rfl
  | cons slot slots ih =>
    cases slot with
    | none => simp [ih]
    | some e => simp [List.count_cons, ih]

theorem Inv.proper (hinv : Inv nothing s) : Proper s where
  called := hinv.numbered.called
  once := hinv.numbered.once
  listed ep hlive := by
    rw [count_filterMap]
    refine List.count_eq_one_of_mem hinv.owned.once ?_
    exact List.mem_filterMap.mpr ⟨some ep, (hinv.owned.listed ep).mpr hlive, rfl⟩

/-- In a run with safe steps the loop uses no end point that has been deleted, and calls
properly. -/
theorem run_proper {inputs : List Input} (hsafe : RunSafe State.empty inputs) :
    ∃ s, State.empty.run inputs = .ok s ∧ Proper s := by
  obtain ⟨s, hrun, hinv⟩ := run_inv empty_inv hsafe
  exact ⟨s, hrun, hinv.proper⟩

def oneRead : List Input :=
  [ .start [.newEndPoint 5, .prepare .read 0 (some 1) true] none,
    .select [] (.ready (fun _ _ => true) 1 []),
    .visit .none,
    .io .completes [],
    .io .completes [] ]

theorem one_read_proper : ∃ s, State.empty.run oneRead = .ok s ∧ Proper s := by
  refine run_proper ?_
  refine ⟨⟨fun _ _ => ?_, fun s hs => ?_⟩, fun s hs => ?_⟩
  · decide
  · obtain rfl := Except.ok.inj hs
    exact ⟨fun _ => False.elim, fun _ _ => trivial⟩
  obtain rfl := Except.ok.inj hs
  refine ⟨⟨trivial, fun s hs => ?_⟩, fun s hs => ?_⟩
  · obtain rfl := Except.ok.inj hs
    exact trivial
  obtain rfl := Except.ok.inj hs
  refine ⟨trivial, fun s hs => ?_⟩
  obtain rfl := Except.ok.inj hs
  refine ⟨fun _ _ => ⟨trivial, fun s hs => ?_⟩, fun s hs => ?_⟩
  · obtain rfl := Except.ok.inj hs
    exact nofun
  obtain rfl := Except.ok.inj hs
  refine ⟨fun ep hep => ?_, fun s hs => ?_⟩
  · exact fun h => absurd h (by decide)
  · exact trivial

def reusedDescriptor : List Input :=
  [ .start [.newEndPoint 5, .newEndPoint 6, .prepare .read 0 (some 1) true,
    .prepare .read 1 (some 1) true] none,
    .select [] (.ready (fun _ _ => true) 2 []),
    .visit .none,
    .io .completes [.delEndPoint 1, .newEndPoint 6, .prepare .read 2 (some 1) true],
    .io .completes [],
    .visit .none,
    .visit .none,
    .io .completes [] ]

/-- The new end point is read for because the descriptor was reported for the one that was
deleted. -/
theorem not_reused_proper : ¬∃ s, State.empty.run reusedDescriptor = .ok s ∧ Proper s := by
  rintro ⟨s, hrun, hproper⟩
  have hcalls : (State.empty.run reusedDescriptor).map State.calls =
      .ok [⟨.read, 2, 2, true, some 1⟩, ⟨.read, 0, 0, true, some 0⟩] := by
    rfl
  rw [hrun] at hcalls
  have hcall :=
    hproper.called ⟨.read, 2, 2, true,
      some 1⟩ (by rw [Except.ok.inj hcalls]; exact List.mem_cons_self)
  exact absurd hcall.2 (by decide)

end Inn.Innfeed.EndPoints
