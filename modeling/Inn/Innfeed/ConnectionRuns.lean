import Inn.Innfeed.ConnectionResponses

/-!
# Runs of a connection

Every call that the network, the timers and the host make to a connection keeps the account
of the articles. So each article that the host has given is in exactly one place after any
run, and a read fails only on a response that is not expected.
-/

namespace Inn.Innfeed.Connections

open Foundation.Runs

variable {cfg : Config} {quiet : Prop} {cxn cxn' : Connection} {endp : EndPoint}
    {art : Article} {env : Env}

/-- The invariant holds, or the connection is deleted. -/
def Kept (cfg : Config) (quiet : Prop) (cxn : Connection) : Prop :=
  Inv cfg quiet [] [] cxn ∨ cxn.deleted = true ∧ cxn.myEp = none ∧ Ledger quiet [] cxn ∧
    cxn.missing = []

theorem Kept.ledger (hkept : Kept cfg quiet cxn) : Ledger quiet [] cxn ∧ cxn.missing = [] := by
  rcases hkept with hinv | ⟨_, _, hledger, hmissing⟩
  · exact ⟨hinv.ledger, hinv.missing⟩
  · exact ⟨hledger, hmissing⟩

theorem delete_kept (hledger : Ledger quiet [] cxn) (hmissing : cxn.missing = [])
    (hdelete : cxn.delete = .ok cxn') :
    Kept cfg quiet cxn' := by
  obtain ⟨_, hrest⟩ := of_assert_bind hdelete
  cases hrest
  exact .inr ⟨rfl, rfl, { hledger with }, hmissing⟩

section Invariant

variable (hinv : Inv cfg quiet [] [] cxn)

include hinv

theorem Inv.prepareRead (hreads : cxn.reads) (done : ReadCbk) :
    Inv cfg quiet [] [] (cxn.prepareRead done) := hinv.mapEp hreads fun _ => rfl

theorem Inv.switchMode (env : Env) : Inv cfg quiet [] [] (cxn.switchMode env) := by
  unfold Connection.switchMode
  split
  next hmode =>
    obtain ⟨endp, h⟩ := hinv.isFeeding hmode.1
    have hswitched (needsChecks : Bool) :
        Inv cfg quiet [] [] { cxn with needsChecks := needsChecks } := by
      have hfeeding : IsFeeding cfg { cxn with needsChecks := needsChecks } endp := { h with }
      exact ⟨{ hinv.ledger with }, hinv.missing,
        fun hplain => absurd (hmode.2.symm.trans hplain) Bool.true_eq_false.mp,
          shape_feeding hmode.1 hfeeding⟩
    split
    · exact hswitched false
    split
    · exact hswitched true
    · exact hinv
  · exact hinv

omit hinv in
theorem switchMode_state (cxn : Connection) (env : Env) :
    (cxn.switchMode env).state = cxn.state := by
  unfold Connection.switchMode
  split
  · split
    · rfl
    split <;> rfl
  · rfl

omit hinv in
theorem readOn_ok (hsound : Sound cfg quiet cxn) (env : Env) :
    ∃ cxn', cxn.readOn cfg env = .ok cxn' ∧ Kept cfg quiet cxn' := by
  obtain ⟨hinv, hstarted⟩ := hsound
  have hon (hreads : cxn.reads) : ∃ cxn', (do
      let cxn := (cxn.switchMode env).prepareRead .responseIsRead
      cxn.VALIDATE cfg
      let cxn ← cxn.doSomeWrites cfg env.gone
      cxn.VALIDATE cfg
      return cxn) = Except.ok cxn' ∧ Kept cfg quiet cxn' := by
    have hreads' : (cxn.switchMode env).reads := by
      unfold Connection.reads Connection.transfers Connection.leaving
      rw [switchMode_state]
      exact hreads
    have hready := (hinv.switchMode env).prepareRead hreads' .responseIsRead
    obtain ⟨cxn', heq, hinv', _⟩ := doSomeWrites_ok hready hreads' env.gone
    refine ⟨cxn', ?_, .inl hinv'⟩
    rw [hready.validate, heq, ok_bind, hinv'.validate]
    rfl
  unfold Connection.readOn
  cases hstate : cxn.state with
  | cxnIdleS => exact hon (.inr hstate)
  | cxnFeedingS => exact hon (.inl (.inl hstate))
  | cxnClosingS => exact hon (.inl (.inr (.inr hstate)))
  | cxnFlushingS => exact hon (.inl (.inr (.inl hstate)))
  | cxnWaitingS | cxnConnectingS | cxnSleepingS => exact ⟨cxn, rfl, .inl hinv⟩
  | cxnDeadS =>
    obtain ⟨cxn', heq, _⟩ := delete_ok hinv.ledger (hinv.rests (.inr (.inl hstate))).total
    exact ⟨cxn', heq, delete_kept hinv.ledger hinv.missing heq⟩
  | cxnStartingS => exact absurd hstate hstarted
  | cxnIdleTimeoutS =>
    have hshape := hinv.shape
    unfold Shape at hshape
    rw [hstate] at hshape
    exact hshape.elim

theorem responseIsRead_ok (hreads : cxn.reads) {read : Read}
    (hexpects : ∀ lines, read = .responses lines → cxn.expectsAll cfg env lines) :
    ∃ cxn', cxn.responseIsRead cfg env read = .ok cxn' ∧ Kept cfg quiet cxn' := by
  unfold Connection.responseIsRead
  rw [assert_bind hreads, hinv.validate]
  cases read with
  | failed =>
    dsimp only
    split
    next hclosing =>
      have heq := die_eq hinv.valid
      obtain ⟨hinv', _, hzero⟩ := of_die hinv.ledger hinv.missing heq
      obtain ⟨cxn', hdelete, _⟩ := delete_ok hinv'.ledger hzero
      rw [heq, ok_bind]
      exact ⟨cxn', hdelete, delete_kept hinv'.ledger hinv'.missing hdelete⟩
    next hopen =>
      have hsame : cxn.sleep cfg = cxn.sleepOrDie cfg := (if_neg hopen).symm
      obtain ⟨cxn', heq, hsound⟩ := sleepOrDie_sound hinv (.inl hreads)
      rw [hsame]
      exact ⟨cxn', heq, .inl hsound.1⟩
  | incomplete => exact ⟨_, rfl, .inl (hinv.prepareRead hreads .responseIsRead)⟩
  | responses lines =>
    obtain ⟨malformed, cxn', heq, hsound⟩ := handleResponses_ok hinv hreads (hexpects lines rfl)
    dsimp only
    rw [heq, ok_bind]
    dsimp only
    split
    · exact ⟨cxn', rfl, .inl hsound.1⟩
    · exact readOn_ok hsound env

theorem of_responseIsRead {read : Read} (heq : cxn.responseIsRead cfg env read = .ok cxn') :
    ∀ lines, read = .responses lines → cxn.expectsAll cfg env lines := by
  rintro lines rfl
  obtain ⟨hreads, hrest⟩ := of_assert_bind heq
  obtain ⟨_, hrest⟩ := of_assert_bind hrest
  obtain ⟨⟨malformed, cxn''⟩, hall, _⟩ := of_bind hrest
  exact of_handleResponses hinv hreads hall

theorem responseIsRead_kept {read : Read} (heq : cxn.responseIsRead cfg env read = .ok cxn') :
    Kept cfg quiet cxn' := by
  obtain ⟨hreads, _⟩ := of_assert_bind heq
  obtain ⟨cxn'', heq', hkept⟩ := responseIsRead_ok hinv hreads (of_responseIsRead hinv heq)
  cases heq.symm.trans heq'
  exact hkept

theorem Inv.states : cxn.reads ∨ cxn.state = .cxnConnectingS ∨ Off cxn := by
  have hshape := hinv.shape
  unfold Shape at hshape
  cases hstate : cxn.state with
  | cxnIdleS => exact .inl (.inr hstate)
  | cxnFeedingS => exact .inl (.inl (.inl hstate))
  | cxnFlushingS => exact .inl (.inl (.inr (.inl hstate)))
  | cxnClosingS => exact .inl (.inl (.inr (.inr hstate)))
  | cxnConnectingS => exact .inr (.inl rfl)
  | cxnStartingS | cxnWaitingS =>
    rw [hstate] at hshape
    exact .inr (.inr hshape.1)
  | cxnSleepingS | cxnDeadS =>
    rw [hstate] at hshape
    exact .inr (.inr hshape)
  | cxnIdleTimeoutS =>
    rw [hstate] at hshape
    exact hshape.elim

theorem Inv.replaceEp {endp' : EndPoint} (hep : cxn.myEp = some endp)
    (hwriting : endp'.writing = endp.writing)
    (hreading : endp'.reading = none ∨ endp'.reading = endp.reading)
    (hwork : endp'.workCbk = true → endp.workCbk = true) :
    Inv cfg quiet [] [] { cxn with myEp := some endp' } := by
  rcases hinv.states with hreads | hstate | hoff
  · have hmapped : Inv cfg quiet [] [] { cxn with myEp := cxn.myEp.map fun old =>
        { endp' with writing := old.writing } } :=
      hinv.mapEp hreads fun _ => rfl
    rw [hep, Option.map_some, ← hwriting] at hmapped
    exact hmapped
  · obtain ⟨old, h⟩ := hinv.isConnecting hstate
    cases hep.symm.trans h.myEp
    have hconnecting : IsConnecting cfg { cxn with myEp := some endp' } endp' :=
      { h with
        myEp := rfl
        timed := by rw [Connection.timed, EndPoint.writeIsPending, hwriting]; exact h.timed
        work := Bool.eq_false_iff.mpr fun hw =>
          absurd (h.work.symm.trans (hwork hw)) Bool.false_ne_true
        banner := by
          rw [hwriting]
          intro hread
          exact h.banner (hreading.resolve_left hread ▸ hread)
        reading := by
          rcases hreading with hnone | hsame
          · rw [hnone]
            rintro ⟨⟩
          · rw [hsame]
            exact h.reading }
    exact ⟨{ hinv.ledger with }, hinv.missing, hinv.plain,
      shape_connecting hstate hconnecting⟩
  · rw [hoff.myEp] at hep
    cases hep

def Connection.isMade (cxn : Connection) : Prop :=
    ∀ endp, cxn.myEp = some endp → endp.writing ≠ some .connectionDone

theorem Inv.readGreeting {done : ReadCbk} (hstate : cxn.state = .cxnConnectingS)
    (hmade : cxn.isMade) (hdone : done ≠ .responseIsRead) :
    Inv cfg quiet [] [] (cxn.prepareRead done) := by
  obtain ⟨endp, h⟩ := hinv.isConnecting hstate
  have hconnecting : IsConnecting cfg (cxn.prepareRead done) { endp with reading := some done } :=
    { h with
      myEp := congrArg (Option.map _) h.myEp
      banner := fun _ => hmade endp h.myEp
      reading := fun hread => hdone (Option.some.inj hread) }
  exact ⟨{ hinv.ledger with }, hinv.missing, hinv.plain,
    shape_connecting hstate hconnecting⟩

theorem Inv.sleepOrDie (heq : cxn.sleepOrDie cfg = .ok cxn') : Sound cfg quiet cxn' := by
  obtain ⟨hinv', hrests⟩ := of_sleepOrDie hinv.ledger hinv.missing heq
  exact ⟨hinv', Connection.rests_started hrests⟩

end Invariant

theorem connecting_started (hstate : cxn.state = .cxnConnectingS) : cxn.state ≠ .cxnStartingS := by
  rw [hstate]
  nofun

theorem issueCommand_sound (written : WriteCbk) (done : ReadCbk) (hinv : Inv cfg quiet [] [] cxn)
    (hstate : cxn.state = .cxnConnectingS) (hwritten : written ≠ .connectionDone)
    (hdone : done ≠ .responseIsRead)
    (heq : Connection.issueCommand cfg written done cxn = .ok cxn') : Sound cfg quiet cxn' := by
  obtain ⟨endp, h⟩ := hinv.isConnecting hstate
  obtain ⟨next, hwrite, hrest⟩ := of_bind heq
  cases hrest
  unfold Connection.prepareWrite at hwrite
  rw [h.myEp] at hwrite
  dsimp only at hwrite
  split at hwrite
  · cases hwrite
  · cases hwrite
    have hsome :
        ({ endp with writing := some written, reading := some done } : EndPoint).writeIsPending =
        true :=
      decide_eq_true hwritten
    have htimed : ((cxn.writes cfg endp written).prepareRead done).timed cfg
        { endp with writing := some written, reading := some done } := by
      rw [Connection.timed, hsome, Bool.and_true]
      rfl
    have hconnecting : IsConnecting cfg ((cxn.writes cfg endp written).prepareRead done)
        { endp with writing := some written, reading := some done } :=
      { h with
        myEp := rfl
        timed := htimed
        banner := fun _ h => hwritten (Option.some.inj h)
        reading := fun h => hdone (Option.some.inj h) }
    exact ⟨⟨{ hinv.ledger with }, hinv.missing, hinv.plain,
      shape_connecting hstate hconnecting⟩,
      connecting_started hstate⟩

theorem getBanner_sound {read : Read} (hinv : Inv cfg quiet [] [] cxn) (hmade : cxn.isMade)
    (heq : cxn.getBanner cfg read = .ok cxn') : Sound cfg quiet cxn' := by
  obtain ⟨hstate, hrest⟩ := of_assert_bind heq
  obtain ⟨pending, _, hrest⟩ := of_bind hrest
  obtain ⟨_, hrest⟩ := of_assert_bind hrest
  cases read with
  | failed => exact hinv.sleepOrDie hrest
  | incomplete =>
    cases hrest
    exact ⟨hinv.readGreeting hstate hmade nofun, connecting_started hstate⟩
  | responses lines =>
    dsimp only at hrest
    split at hrest
    · split at hrest
      · exact issueCommand_sound .authUserIssued .getAuthUserResponse hinv hstate nofun nofun hrest
      · exact issueCommand_sound .modeCmdIssued .getModeResponse hinv hstate nofun nofun hrest
    · exact hinv.sleepOrDie hrest

theorem getResponse_sound (done : ReadCbk) {read : Read}
    {use : Nat → Connection → Except Fault Connection}
    (hinv : Inv cfg quiet [] [] cxn) (hmade : cxn.isMade) (hdone : done ≠ .responseIsRead)
    (huse : ∀ code, Inv cfg quiet [] [] { cxn with readBlockedTimer := false } →
      cxn.state = .cxnConnectingS →
      cxn.writeIsPending = .ok false → use code { cxn with readBlockedTimer := false } = .ok cxn' →
        Sound cfg quiet cxn')
    (heq : cxn.getResponse cfg done read use = .ok cxn') : Sound cfg quiet cxn' := by
  obtain ⟨hstate, hrest⟩ := of_assert_bind heq
  obtain ⟨_, hrest⟩ := of_assert_bind hrest
  obtain ⟨pending, hpending, hrest⟩ := of_bind hrest
  cases read with
  | failed => exact hinv.sleepOrDie hrest
  | incomplete =>
    dsimp only at hrest
    split at hrest
    · exact hinv.sleepOrDie hrest
    · cases hrest
      exact ⟨hinv.readGreeting hstate hmade hdone, connecting_started hstate⟩
  | responses lines =>
    dsimp only at hrest
    split at hrest
    · exact hinv.sleepOrDie hrest
    next hquiet =>
      obtain ⟨endp, h⟩ := hinv.isConnecting hstate
      have hconnecting : IsConnecting cfg { cxn with readBlockedTimer := false } endp := { h with }
      have hinv' : Inv cfg quiet [] [] { cxn with readBlockedTimer := false } :=
        ⟨{ hinv.ledger with }, hinv.missing, hinv.plain,
          shape_connecting hstate hconnecting⟩
      split at hrest
      · exact hinv'.sleepOrDie hrest
      next code _ =>
        rw [Bool.eq_false_iff.mpr hquiet] at hpending
        exact huse code hinv' hstate hpending hrest

section Invariant2

variable (hinv : Inv cfg quiet [] [] cxn)

include hinv

theorem Inv.authenticated (hstate : cxn.state = .cxnConnectingS) :
    Inv cfg quiet [] [] { cxn with authenticated := true } := by
  obtain ⟨endp, h⟩ := hinv.isConnecting hstate
  have hconnecting : IsConnecting cfg { cxn with authenticated := true } endp := { h with }
  exact ⟨{ hinv.ledger with }, hinv.missing, hinv.plain,
    shape_connecting hstate hconnecting⟩

theorem getAuthUserResponse_sound {read : Read} (hmade : cxn.isMade)
    (heq : cxn.getAuthUserResponse cfg read = .ok cxn') : Sound cfg quiet cxn' := by
  refine getResponse_sound .getAuthUserResponse hinv hmade nofun
    (fun code hinv' hstate _ huse => ?_) heq
  split at huse
  · exact issueCommand_sound .authPassIssued .getAuthPassResponse hinv' hstate nofun nofun huse
  · exact issueCommand_sound .modeCmdIssued .getModeResponse (hinv'.authenticated hstate) hstate
      nofun nofun huse

theorem getAuthPassResponse_sound {read : Read} (hmade : cxn.isMade)
    (heq : cxn.getAuthPassResponse cfg read = .ok cxn') : Sound cfg quiet cxn' := by
  refine getResponse_sound .getAuthPassResponse hinv hmade nofun
    (fun code hinv' hstate _ huse => ?_) heq
  split at huse
  · exact issueCommand_sound .modeCmdIssued .getModeResponse (hinv'.authenticated hstate) hstate
      nofun nofun huse
  · exact hinv'.sleepOrDie huse

theorem writeOn_sound (hreads : cxn.reads)
    (heq : (if cxn.writesNeeded then cxn.doSomeWrites cfg env.gone
      else do
        let (gaveSomething, cxn) ← cxn.gimmeArticle cfg
        if gaveSomething then cxn.doSomeWrites cfg env.gone else return cxn) = Except.ok cxn') :
          Sound cfg quiet cxn' := by
  have hwrites {cxn : Connection} (hinv : Inv cfg quiet [] [] cxn) (hreads : cxn.reads)
      (heq : cxn.doSomeWrites cfg env.gone = .ok cxn') : Sound cfg quiet cxn' := by
    obtain ⟨cxn'', heq', hinv', hlast⟩ := doSomeWrites_ok hinv hreads env.gone
    cases heq.symm.trans heq'
    exact ⟨hinv', hlast.elim Connection.reads_started Connection.rests_started⟩
  split at heq
  · exact hwrites hinv hreads heq
  · obtain ⟨gave, next, hgimme, hinv', hreads'⟩ := gimmeArticle_ok hinv hreads
    rw [hgimme, ok_bind] at heq
    dsimp only at heq
    split at heq
    · exact hwrites hinv' hreads' heq
    · cases heq
      exact ⟨hinv', Connection.reads_started hreads'⟩

theorem Inv.feed {streaming : Bool} {maxCheck : Nat} (hstate : cxn.state = .cxnConnectingS)
    (hmode : streaming = false → maxCheck = 1) (hep : cxn.myEp = some endp)
    (hnone : endp.writing = none)
    (hread : cxn.readBlockedTimer = false) (hmore : cxn.articleQTotal ≠ 0) :
    Inv cfg quiet [] [] { cxn with
      doesStreaming := streaming, maxCheck := maxCheck, timeCon := true,
        state := .cxnFeedingS } := by
  obtain ⟨endp', h⟩ := hinv.isConnecting hstate
  cases hep.symm.trans h.myEp
  have hplain := hinv.plain h.streaming
  have hfew := h.total
  have hfeeding : IsFeeding cfg { cxn with
      doesStreaming := streaming, maxCheck := maxCheck, timeCon := true,
        state := .cxnFeedingS } endp :=
    { myEp := hep
      writing := by rw [hnone]; rfl
      waits := fun _ _ => .inr h.queues
      readTimer := fun hblocked => absurd (hread.symm.trans hblocked) Bool.false_ne_true
      timed := h.timed
      artReceipt := h.artReceipt
      sleep := h.sleep
      timeCon := rfl
      streams := fun _ => .inl (Nat.pos_of_ne_zero hmore)
      ihave := fun _ => by dsimp only; omega }
  exact ⟨{ hinv.ledger with }, hinv.missing,
    fun hstreaming => ⟨hmode hstreaming, hplain.2⟩,
    shape_feeding rfl hfeeding⟩

theorem Inv.rest {streaming : Bool} {maxCheck : Nat} (hstate : cxn.state = .cxnConnectingS)
    (hmode : streaming = false → maxCheck = 1) (hep : cxn.myEp = some endp) (hnone : endp.writing = none)
    (heq : Connection.idle cfg { cxn with doesStreaming := streaming, maxCheck := maxCheck, timeCon := true } = .ok cxn') :
    Inv cfg quiet [] [] cxn' ∧ cxn'.reads := by
  obtain ⟨endp', h⟩ := hinv.isConnecting hstate
  cases hep.symm.trans h.myEp
  have hplain := hinv.plain h.streaming
  obtain ⟨_, hrest⟩ := of_assert_bind heq
  obtain ⟨⟨hzero, hwrite⟩, hrest⟩ := of_assert_bind hrest
  obtain ⟨pending, _, hrest⟩ := of_bind hrest
  obtain ⟨_, hrest⟩ := of_assert_bind hrest
  rw [if_pos (.inr hstate)] at hrest
  obtain ⟨hblocked, hlast⟩ := of_assert_bind hrest
  cases hlast
  refine ⟨⟨{ hinv.ledger with }, hinv.missing,
    fun hstreaming => ⟨hmode hstreaming, hplain.2⟩,
    ⟨endp, hep, hnone, hzero, ?_, hblocked, hwrite, h.sleep, rfl⟩⟩, .inr rfl⟩
  cases htimeout : cfg.articleReceiptTimeout with
  | zero => exact .inl rfl
  | succ n => exact .inr (by rw [decide_eq_true (Nat.succ_pos n), Bool.or_true])

theorem getModeResponse_sound {read : Read} (hmade : cxn.isMade)
    (heq : cxn.getModeResponse cfg env read = .ok cxn') : Sound cfg quiet cxn' := by
  refine getResponse_sound .getModeResponse hinv hmade nofun
    (fun code hinv' hstate hpending huse => ?_) heq
  obtain ⟨endp, h⟩ := hinv'.isConnecting hstate
  have hep : cxn.myEp = some endp := h.myEp
  have hnone : endp.writing = none := by
    rw [writeIsPending_eq hep] at hpending
    cases hcase : endp.writing with
    | none => rfl
    | some done =>
      have hquiet := Except.ok.inj hpending
      rw [EndPoint.writeIsPending, hcase, Option.any_some, decide_eq_false_iff_not, not_not] at hquiet
      exact absurd (hcase.trans (congrArg some hquiet)) (hmade endp hep)
  have hmode : (cxn.doesStreaming || decide (code = 203 ∧ cfg.wantsStreaming = true)) = false →
      (if code = 203 ∧ cfg.wantsStreaming = true then cfg.maxChecks else 1) = 1 := fun hplain =>
    if_neg (decide_eq_false_iff_not.mp (Bool.or_eq_false_iff.mp hplain).2)
  dsimp only at huse
  split at huse
  · obtain ⟨next, hidle, hrest⟩ := of_bind huse
    obtain ⟨hinv'', hreads⟩ := hinv'.rest hstate hmode hep hnone hidle
    exact writeOn_sound (hinv''.prepareRead hreads .responseIsRead) hreads hrest
  next hmore =>
    have hinv'' := hinv'.feed hstate hmode hep hnone rfl hmore
    exact writeOn_sound (hinv''.prepareRead (.inl (.inl rfl)) .responseIsRead)
      (.inl (.inl rfl)) huse

def Connection.done (cxn : Connection) (endp : EndPoint) : Connection :=
  { cxn with myEp := some { endp with writing := none }, writeBlockedTimer := false }

omit hinv in
theorem Ledger.done (hledger : Ledger quiet [] cxn) (endp : EndPoint) :
    Ledger quiet [] (cxn.done endp) :=
  { hledger with }

theorem initReadBlockedTimeout_sound (hep : cxn.myEp = some endp)
    (hcount : cxn.state = .cxnFeedingS → 0 < cxn.articleQTotal)
    (heq : (cxn.done endp).initReadBlockedTimeout cfg = .ok cxn') :
    Sound cfg quiet cxn' ∧ (cxn'.doesStreaming = true → cxn'.reads) := by
  obtain ⟨hidle, hrest⟩ := of_assert_bind heq
  cases hrest
  have hnone :
      (decide (0 < cfg.writeTimeout) && ({ endp with writing := none } : EndPoint).writeIsPending) =
      false :=
    Bool.and_false _
  rcases hinv.states with hreads | hstate | hoff
  · rcases Connection.reads_cases hreads with hstate | hstate | hleaving
    · exact absurd hstate hidle
    · obtain ⟨old, h⟩ := hinv.isFeeding hstate
      have hfeeding : IsFeeding cfg { cxn.done endp with readBlockedTimer := 0 < cfg.readTimeout }
          { endp with writing := none } :=
        { h with
          myEp := rfl
          writing := rfl
          waits := fun htimeout _ => .inl (decide_eq_true htimeout)
          readTimer := of_decide_eq_true
          timed := hnone.symm
          streams := fun _ => .inl (hcount hstate) }
      exact ⟨⟨⟨{ hinv.ledger with }, hinv.missing, hinv.plain,
        shape_feeding hstate hfeeding⟩,
        Connection.reads_started hreads⟩, fun _ => hreads⟩
    · obtain ⟨old, h⟩ := hinv.isLeaving hleaving
      have hleaves : IsLeaving cfg { cxn.done endp with readBlockedTimer := 0 < cfg.readTimeout }
          { endp with writing := none } :=
            { h with myEp := rfl, writing := rfl, timed := hnone.symm }
      exact ⟨⟨⟨{ hinv.ledger with }, hinv.missing, hinv.plain,
        shape_leaving hleaving hleaves⟩,
        Connection.reads_started hreads⟩, fun _ => hreads⟩
  · obtain ⟨old, h⟩ := hinv.isConnecting hstate
    cases hep.symm.trans h.myEp
    have hconnecting :
        IsConnecting cfg { cxn.done endp with readBlockedTimer := 0 < cfg.readTimeout }
        { endp with writing := none } :=
      { h with myEp := rfl, timed := hnone.symm, banner := nofun }
    exact ⟨⟨⟨{ hinv.ledger with }, hinv.missing, hinv.plain,
      shape_connecting hstate hconnecting⟩,
      connecting_started hstate⟩,
        fun hstreaming => absurd (h.streaming.symm.trans hstreaming) Bool.false_ne_true⟩
  · rw [hoff.myEp] at hep
    cases hep

omit hinv in
theorem of_idle (hledger : Ledger quiet [] cxn) (heq : cxn.idle cfg = .ok cxn') :
    Ledger quiet [] cxn' ∧ cxn'.missing = cxn.missing := by
  obtain ⟨_, hrest⟩ := of_assert_bind heq
  obtain ⟨_, hrest⟩ := of_assert_bind hrest
  obtain ⟨_, _, hrest⟩ := of_bind hrest
  obtain ⟨_, hrest⟩ := of_assert_bind hrest
  split at hrest
  · obtain ⟨_, hlast⟩ := of_assert_bind hrest
    cases hlast
    exact ⟨{ hledger with }, rfl⟩
  · cases hrest
    exact ⟨hledger, rfl⟩

theorem idleOrWait_sound (hep : cxn.myEp = some endp)
    (heq : (cxn.done endp).idleOrWait cfg = .ok cxn') :
    Sound cfg quiet cxn' ∧ (cxn'.doesStreaming = true → cxn'.reads) := by
  unfold Connection.idleOrWait at heq
  split at heq
  next hrest =>
    obtain ⟨hstate, hzero⟩ := hrest
    change cxn.state = .cxnFeedingS at hstate
    obtain ⟨old, h⟩ := hinv.isFeeding hstate
    have hqueues := hinv.ledger.queues_nil hzero
    have hfeeds : Transfers cfg (cxn.done endp) { endp with writing := none } :=
      .inl ⟨hstate, { h with
        myEp := rfl
        writing := rfl
        waits := fun _ _ => .inr ⟨hqueues.2.1, hqueues.2.2.2⟩
        timed := (Bool.and_false _).symm }⟩
    obtain ⟨cxn'', heq', hinv', hreads'⟩ :=
      idle_ok (hinv.ledger.done endp) hinv.missing hinv.plain hfeeds hzero rfl
    cases heq.symm.trans heq'
    exact ⟨⟨hinv', Connection.reads_started hreads'⟩, fun _ => hreads'⟩
  next hwait =>
    refine initReadBlockedTimeout_sound hinv hep (fun hstate =>
      Nat.pos_of_ne_zero fun hzero => ?_) heq
    exact hwait ⟨hstate, hzero⟩

omit hinv in
theorem dieAndDelete_kept (hledger : Ledger quiet [] cxn) (hmissing : cxn.missing = [])
    (heq : cxn.dieAndDelete cfg = .ok cxn') : Kept cfg quiet cxn' := by
  obtain ⟨next, hdie, hdelete⟩ := of_bind heq
  obtain ⟨hinv, _⟩ := of_die hledger hmissing hdie
  exact delete_kept hinv.ledger hinv.missing hdelete

theorem commandWriteDone_kept {ok : Bool} (hep : cxn.myEp = some endp)
    (heq : Connection.commandWriteDone cfg env ok
      { cxn with myEp := some { endp with writing := none } } = .ok cxn') :
    Kept cfg quiet cxn' := by
  have hdone := hinv.ledger.done endp
  cases ok with
  | true =>
    obtain ⟨next, hidle, hrest⟩ := of_bind heq
    obtain ⟨hsound, hreads⟩ := idleOrWait_sound hinv hep hidle
    split at hrest
    next hstreaming =>
      obtain ⟨cxn'', heq', hinv', _⟩ := doSomeWrites_ok hsound.1 (hreads hstreaming) env.gone
      cases hrest.symm.trans heq'
      exact .inl hinv'
    · cases hrest
      exact .inl hsound.1
  | false =>
    change (if cxn.state = .cxnClosingS then (cxn.done endp).dieAndDelete cfg
      else (cxn.done endp).deferAllArticles cfg >>= fun cxn => cxn.idle cfg >>= fun cxn =>
        cxn.sleep cfg) = _ at heq
    split at heq
    · exact dieAndDelete_kept hdone hinv.missing heq
    · rw [deferAllArticles_eq hdone.total, ok_bind] at heq
      obtain ⟨next, hidle, hsleep⟩ := of_bind heq
      obtain ⟨hledger, hmissing⟩ := of_idle hdone.emptied hidle
      exact .inl (of_sleep hledger (hmissing.trans hinv.missing) hsleep).1

theorem ihaveBodyDone_kept {ok : Bool} (hep : cxn.myEp = some endp)
    (heq : Connection.ihaveBodyDone cfg ok { cxn with myEp := some { endp with writing := none } } =
      .ok cxn') :
    Kept cfg quiet cxn' := by
  have hdone := hinv.ledger.done endp
  cases ok with
  | true => exact .inl (idleOrWait_sound hinv hep heq).1.1
  | false =>
    change (if cxn.state = .cxnClosingS then (cxn.done endp).dieAndDelete cfg
      else (cxn.done endp).sleep cfg) = _ at heq
    split at heq
    · exact dieAndDelete_kept hdone hinv.missing heq
    · exact .inl (of_sleep hdone hinv.missing heq).1

omit hinv in
theorem count_of_valid (hvalid : (cxn.done endp).valid cfg = true)
    (hstate : cxn.state = .cxnFeedingS) :
    0 < cxn.articleQTotal := by
  unfold Connection.valid Connection.done at hvalid
  dsimp only at hvalid
  rw [hstate, Option.any_some] at hvalid
  simp only [Bool.and_eq_true] at hvalid
  have hcount := hvalid.2.1.1.1.1.1
  split at hcount
  · rw [Bool.or_eq_true, decide_eq_true_eq] at hcount
    exact hcount.resolve_right nofun
  · rw [of_decide_eq_true hcount]
    exact Nat.one_pos

theorem quitWritten_kept {ok : Bool} (hep : cxn.myEp = some endp)
    (heq : Connection.quitWritten cfg ok { cxn with myEp := some { endp with writing := none } } =
      .ok cxn') :
    Kept cfg quiet cxn' := by
  have hdone := hinv.ledger.done endp
  obtain ⟨hvalid, hrest⟩ := of_assert_bind heq
  cases ok with
  | true => exact .inl (initReadBlockedTimeout_sound hinv hep (count_of_valid hvalid) hrest).1.1
  | false =>
    change (if cxn.state = .cxnClosingS then (cxn.done endp).dieAndDelete cfg
      else (cxn.done endp).wait cfg) = _ at hrest
    split at hrest
    · exact dieAndDelete_kept hdone hinv.missing hrest
    · exact .inl (of_wait hdone hinv.missing hrest).1

theorem commandIssued_kept {ok : Bool} {done : WriteCbk} (hep : cxn.myEp = some endp)
    (hwriting : endp.writing = some done) (hdone : done.feeds = false)
    (heq : Connection.commandIssued cfg ok { cxn with myEp := some { endp with writing := none } } =
      .ok cxn') :
    Kept cfg quiet cxn' := by
  obtain ⟨next, hwait, hrest⟩ := of_bind heq
  have hcount (hstate : cxn.state = .cxnFeedingS) : 0 < cxn.articleQTotal := by
    obtain ⟨old, h⟩ := hinv.isFeeding hstate
    cases hep.symm.trans h.myEp
    have hfeeds := h.writing
    rw [hwriting, Option.all_some, hdone] at hfeeds
    cases hfeeds
  obtain ⟨hsound, _⟩ := initReadBlockedTimeout_sound hinv hep hcount hwait
  split at hrest
  · cases hrest
    exact .inl hsound.1
  · exact .inl (hsound.1.sleepOrDie hrest).1

theorem connectionDone_kept {ok : Bool} (hep : cxn.myEp = some endp)
    (hwriting : endp.writing = some .connectionDone) (heq : Connection.connectionDone cfg ok
      { cxn with myEp := some { endp with writing := none } } = .ok cxn') :
    Kept cfg quiet cxn' := by
  obtain ⟨hstate, _⟩ := of_assert_bind heq
  obtain ⟨old, h⟩ := hinv.isConnecting hstate
  cases hep.symm.trans h.myEp
  have hquiet : endp.writeIsPending = false := by
    rw [EndPoint.writeIsPending, hwriting]
    rfl
  have htimed : cxn.writeBlockedTimer = false := by
    rw [h.timed, hquiet, Bool.and_false]
  have hconnecting : IsConnecting cfg { cxn with myEp := some { endp with writing := none } }
      { endp with writing := none } :=
    { h with myEp := rfl, timed := htimed.trans (Bool.and_false _).symm, banner := by rintro _ ⟨⟩ }
  have hinv' : Inv cfg quiet [] [] { cxn with myEp := some { endp with writing := none } } :=
    ⟨{ hinv.ledger with }, hinv.missing, hinv.plain,
      shape_connecting hstate hconnecting⟩
  obtain ⟨cxn'', heq', hsound⟩ := connectionDone_ok hinv' hstate hconnecting rfl ok
  cases heq.symm.trans heq'
  exact .inl hsound.1

theorem Inv.leaveIdle {state : CxnState} (hidle : IsIdle cfg cxn endp)
    (hstate : state = .cxnFlushingS ∨ state = .cxnClosingS) :
    Inv cfg quiet [] [] { cxn with artReceiptTimer := false, flushTimer := false, state := state } := by
  have hleaves : IsLeaving cfg { cxn with artReceiptTimer := false, flushTimer := false, state := state } endp :=
    { myEp := hidle.myEp
      writing := by rw [hidle.writing]; rfl
      ihave := fun _ => by dsimp only; rw [hidle.total]; exact Nat.zero_le 1
      timed := by
        rw [Connection.timed, writeIsPending_none hidle.writing, Bool.and_false]
        exact hidle.writeBlocked
      artReceipt := rfl
      flush := rfl
      sleep := hidle.sleep
      timeCon := hidle.timeCon }
  exact ⟨{ hinv.ledger with }, hinv.missing, hinv.plain, shape_leaving hstate hleaves⟩

theorem Inv.leaveFeeding (hfeeding : IsFeeding cfg cxn endp) (immedRecon : Bool) {state : CxnState}
    (hstate : state = .cxnFlushingS ∨ state = .cxnClosingS) :
    Inv cfg quiet [] [] { cxn with immedRecon := immedRecon, flushTimer := false, state := state } := by
  have hleaves : IsLeaving cfg { cxn with immedRecon := immedRecon, flushTimer := false, state := state } endp :=
    { myEp := hfeeding.myEp
      writing := hfeeding.writing
      ihave := fun hplain => Nat.le_of_eq (hfeeding.ihave hplain)
      timed := hfeeding.timed
      artReceipt := hfeeding.artReceipt
      flush := rfl
      sleep := hfeeding.sleep
      timeCon := hfeeding.timeCon }
  exact ⟨{ hinv.ledger with }, hinv.missing, hinv.plain,
    shape_leaving hstate hleaves⟩

theorem quit_kept (hleaving : cxn.leaving) (hzero : cxn.articleQTotal = 0)
    (heq : cxn.issueQUIT cfg = .ok cxn') : Inv cfg quiet [] [] cxn' := by
  obtain ⟨cxn'', heq', hinv', _⟩ := issueQUIT_ok hinv hleaving hzero
  cases heq.symm.trans heq'
  exact hinv'

theorem workProc_kept (hreads : cxn.reads) (heq : cxn.workProc cfg env = .ok cxn') :
    Inv cfg quiet [] [] cxn' := by
  unfold Connection.workProc at heq
  split at heq
  · obtain ⟨cxn'', heq', hinv', _⟩ := doSomeWrites_ok hinv hreads env.gone
    cases heq.symm.trans heq'
    exact hinv'
  split at heq
  next hquit => exact quit_kept hinv hquit.1 hquit.2 heq
  · cases heq
    exact hinv

theorem connect_sound {connecting : Bool} (hoff : Off cxn) (hsleep : cxn.sleepTimer = false)
    (heq : cxn.connect cfg env = .ok (connecting, cxn')) : Inv cfg quiet [] [] cxn' := by
  have hplain := hinv.plain hoff.streaming
  have hqueues := hinv.ledger.queues_nil hoff.total
  have htimers := hoff.timers
  rw [Connection.timersOff] at htimers
  simp only [Bool.and_eq_true, Bool.not_eq_true'] at htimers
  obtain ⟨_, hrest⟩ := of_assert_bind heq
  split at hrest
  · obtain ⟨next, hsleeps, hlast⟩ := of_bind hrest
    obtain ⟨_, rfl⟩ := Prod.mk.inj (Except.ok.inj hlast)
    exact (hinv.sleepOrDie hsleeps).1
  next hstate =>
    obtain ⟨htotal, _⟩ := of_assert_bind hrest
    obtain ⟨connecting', cxn'', heq', hsound⟩ :=
      connect_ok hinv.ledger hinv.missing hoff.myEp ⟨hoff.streaming, hplain⟩
      (not_not.mp hstate) htotal ⟨hqueues.2.1, hqueues.2.2.2⟩ ⟨htimers.1.1.1, htimers.1.2, hsleep⟩ env
    obtain ⟨_, rfl⟩ := Prod.mk.inj (Except.ok.inj (heq.symm.trans heq'))
    exact hsound.1

theorem Inv.off (hstate : cxn.state = .cxnStartingS ∨ cxn.state = .cxnWaitingS) :
    Off cxn ∧ cxn.sleepTimer = false := by
  have hshape := hinv.shape
  unfold Shape at hshape
  rcases hstate with hstate | hstate
  · rw [hstate] at hshape
    exact hshape
  · rw [hstate] at hshape
    exact hshape

theorem flush_kept (heq : cxn.flush cfg env = .ok cxn') : Inv cfg quiet [] [] cxn' := by
  obtain ⟨_, hrest⟩ := of_assert_bind heq
  obtain ⟨_, hrest⟩ := of_assert_bind hrest
  have hlinger (hleaving : cxn.leaving) (hrest : (if cxn.articleQTotal = 0 then do
      let pending ← cxn.writeIsPending
      if pending then return cxn else cxn.issueQUIT cfg
      else return cxn) = Except.ok cxn') : Inv cfg quiet [] [] cxn' := by
    split at hrest
    next hzero =>
      obtain ⟨pending, _, hrest⟩ := of_bind hrest
      split at hrest
      · cases hrest
        exact hinv
      · exact quit_kept hinv hleaving hzero hrest
    · cases hrest
      exact hinv
  cases hstate : cxn.state with
  | cxnSleepingS =>
    rw [hstate] at hrest
    exact (of_wait hinv.ledger hinv.missing hrest).1
  | cxnConnectingS =>
    rw [hstate] at hrest
    obtain ⟨next, hwait, hrest⟩ := of_bind hrest
    obtain ⟨⟨connecting, last⟩, hconnect, hlast⟩ := of_bind hrest
    cases hlast
    obtain ⟨hinv', hstate'⟩ := of_wait hinv.ledger hinv.missing hwait
    obtain ⟨hoff, hsleep⟩ := hinv'.off (.inr hstate')
    exact connect_sound hinv' hoff hsleep hconnect
  | cxnIdleS =>
    rw [hstate] at hrest
    obtain ⟨endp, h⟩ := hinv.isIdle hstate
    obtain ⟨hzero, hquit⟩ := of_assert_bind hrest
    have hnot : decide (CxnState.cxnIdleS = CxnState.cxnIdleTimeoutS) = false := rfl
    rw [hnot, Bool.and_false] at hquit
    exact quit_kept (hinv.leaveIdle h (.inl rfl)) (.inl rfl) hzero hquit
  | cxnIdleTimeoutS =>
    have hshape := hinv.shape
    unfold Shape at hshape
    rw [hstate] at hshape
    exact hshape.elim
  | cxnClosingS =>
    rw [hstate] at hrest
    exact hlinger (.inr hstate) hrest
  | cxnFlushingS =>
    rw [hstate] at hrest
    exact hlinger (.inl hstate) hrest
  | cxnWaitingS =>
    rw [hstate] at hrest
    obtain ⟨hoff, _⟩ := hinv.off (.inr hstate)
    dsimp only at hrest
    rw [if_pos hoff.total, Connection.writeIsPending, hoff.myEp] at hrest
    cases hrest
  | cxnFeedingS =>
    rw [hstate] at hrest
    obtain ⟨endp, h⟩ := hinv.isFeeding hstate
    have hleft := hinv.leaveFeeding h (cxn.immedRecon || 0 < cxn.articleQTotal) (.inl rfl : CxnState.cxnFlushingS = _ ∨ _)
    dsimp only at hrest
    split at hrest
    next hzero =>
      obtain ⟨pending, _, hrest⟩ := of_bind hrest
      split at hrest
      · cases hrest
        exact hleft
      · exact quit_kept hleft (.inl rfl) hzero hrest
    · cases hrest
      exact hleft
  | cxnStartingS | cxnDeadS =>
    rw [hstate] at hrest
    cases hrest

theorem flushIdle_kept (hidle : IsIdle cfg cxn endp)
    (heq : Connection.flush cfg env { cxn with artReceiptTimer := false, state := .cxnIdleTimeoutS } = .ok cxn') :
    Inv cfg quiet [] [] cxn' := by
  obtain ⟨_, hrest⟩ := of_assert_bind heq
  obtain ⟨_, hrest⟩ := of_assert_bind hrest
  obtain ⟨hzero, hquit⟩ := of_assert_bind hrest
  exact quit_kept (hinv.leaveIdle hidle (.inl rfl)) (.inl rfl) hzero hquit

omit hinv in
theorem IsLeaving.fewer (h : IsLeaving cfg cxn endp) {total : Nat}
    {handedBack : List (Outcome × Article)} {spoiled : Bool}
    (hihave : cxn.doesStreaming = false → total ≤ 1) :
    IsLeaving cfg { cxn with
      checkHead := [], takeHead := [], articleQTotal := total, handedBack := handedBack,
        spoiled := spoiled } endp :=
  { h with ihave := hihave }

theorem Inv.deferQueuedArticles (hclosing : cxn.state = .cxnClosingS) :
    Inv cfg quiet [] [] (cxn.deferQueuedArticles cfg) ∧
      (cxn.deferQueuedArticles cfg).state = .cxnClosingS := by
  have htotal := hinv.ledger.total
  obtain ⟨endp, h⟩ := hinv.isLeaving (.inr hclosing)
  have hcheck (hquiet : quiet) : cxn.offered = [] ∧ cxn.spoils cfg false cxn.checkHead = false :=
    have hcalm := hinv.ledger.calm hquiet
    ⟨hcalm.1, spoils_calm hcalm.1 hcalm.2⟩
  by_cases hstreaming : cxn.doesStreaming = true
  · obtain ⟨spoiled, hcalm, heq⟩ : ∃ spoiled, (quiet → cxn.offered = [] ∧ spoiled = false) ∧
        cxn.deferQueuedArticles cfg = { cxn with
          checkHead := []
          takeHead := []
          articleQTotal := cxn.articleQTotal - cxn.checkHead.length - cxn.takeHead.length
          handedBack := tellBack cxn.takeHead (tellBack cxn.checkHead cxn.handedBack)
          spoiled := spoiled } := by
      unfold Connection.deferQueuedArticles
      rw [takeBackAll_eq]
      rw [if_pos hstreaming, takeBackAll_eq]
      refine ⟨_, fun hquiet => ⟨(hcheck hquiet).1, ?_⟩, rfl⟩
      exact spoils_calm (hcheck hquiet).1 (hcheck hquiet).2
    have hstreams {p : Prop} (h : cxn.doesStreaming = false) : p :=
      absurd (hstreaming.symm.trans h) Bool.true_eq_false.mp
    rw [heq]
    refine ⟨⟨⟨?_, fun a => ?_, hcalm⟩, hinv.missing, fun h => hstreams h,
      shape_leaving (.inr hclosing) (h.fewer fun h => hstreams h)⟩, hclosing⟩
    · simp only [List.length_nil]
      omega
    · have hbooks := hinv.ledger.books a
      simp only [List.count_nil] at hbooks
      simp only [count_tellBack, List.count_nil]
      omega
  · have heq : cxn.deferQueuedArticles cfg = { cxn with
        checkHead := []
        takeHead := []
        articleQTotal := cxn.articleQTotal - cxn.checkHead.length
        handedBack := tellBack cxn.checkHead cxn.handedBack
        spoiled := cxn.spoils cfg false cxn.checkHead } := by
      unfold Connection.deferQueuedArticles
      rw [takeBackAll_eq]
      rw [if_neg hstreaming]
    have hihave := Bool.eq_false_iff.mpr hstreaming
    have hplain := hinv.plain hihave
    have hone := h.ihave hihave
    rw [heq]
    refine ⟨⟨⟨?_, fun a => ?_, hcheck⟩, hinv.missing, fun _ => ⟨hplain.1, hplain.2.1, rfl⟩,
      shape_leaving (.inr hclosing) (h.fewer fun _ => Nat.le_trans (Nat.sub_le _ _) hone)⟩,
        hclosing⟩
    · rw [hplain.2.2] at htotal
      simp only [List.length_nil] at htotal ⊢
      omega
    · have hbooks := hinv.ledger.books a
      rw [hplain.2.2] at hbooks
      simp only [List.count_nil] at hbooks
      simp only [count_tellBack, List.count_nil]
      omega

theorem stop_kept {queued : Connection → Connection}
    (hqueued : ∀ cxn, Inv cfg quiet [] [] cxn → cxn.state = .cxnClosingS →
      Inv cfg quiet [] [] (queued cxn) ∧ (queued cxn).state = .cxnClosingS)
    (heq : cxn.stop cfg queued = .ok cxn') : Inv cfg quiet [] [] cxn' := by
  unfold Connection.stop at heq
  cases hstate : cxn.state with
  | cxnFeedingS =>
    rw [hstate] at heq
    obtain ⟨endp, h⟩ := hinv.isFeeding hstate
    obtain ⟨hleft, hclosing⟩ := hqueued _
        (hinv.leaveFeeding h cxn.immedRecon (.inr rfl : CxnState.cxnClosingS = _ ∨ _)) rfl
    dsimp only at heq
    split at heq
    next hzero => exact quit_kept hleft (.inr hclosing) hzero heq
    · cases heq
      exact hleft
  | cxnIdleS =>
    rw [hstate] at heq
    obtain ⟨endp, h⟩ := hinv.isIdle hstate
    obtain ⟨hzero, hquit⟩ := of_assert_bind heq
    have hnot : decide (CxnState.cxnIdleS = CxnState.cxnIdleTimeoutS) = false := rfl
    rw [hnot, Bool.and_false] at hquit
    exact quit_kept (hinv.leaveIdle h (.inr rfl)) (.inr rfl) hzero hquit
  | cxnIdleTimeoutS =>
    have hshape := hinv.shape
    unfold Shape at hshape
    rw [hstate] at hshape
    exact hshape.elim
  | cxnFlushingS =>
    rw [hstate] at heq
    obtain ⟨endp, h⟩ := hinv.isLeaving (.inl hstate)
    have hleaves : IsLeaving cfg { cxn with state := .cxnClosingS } endp := { h with }
    have hinv' : Inv cfg quiet [] [] { cxn with state := .cxnClosingS } :=
      ⟨{ hinv.ledger with }, hinv.missing, hinv.plain,
        shape_leaving (.inr rfl) hleaves⟩
    dsimp only at heq
    split at heq
    next hzero => exact quit_kept hinv' (.inr rfl) hzero heq
    · cases heq
      exact hinv'
  | cxnClosingS =>
    rw [hstate] at heq
    cases heq
    exact hinv
  | cxnWaitingS | cxnConnectingS | cxnSleepingS =>
    rw [hstate] at heq
    exact (of_die hinv.ledger hinv.missing heq).1
  | cxnStartingS | cxnDeadS =>
    rw [hstate] at heq
    cases heq

theorem closing_kept {queued : Connection → Connection}
    (hqueued : ∀ cxn, Inv cfg quiet [] [] cxn → cxn.state = .cxnClosingS →
      Inv cfg quiet [] [] (queued cxn) ∧ (queued cxn).state = .cxnClosingS)
    (heq : cxn.closing cfg queued = .ok cxn') : Kept cfg quiet cxn' := by
  obtain ⟨_, hrest⟩ := of_assert_bind heq
  obtain ⟨_, hrest⟩ := of_assert_bind hrest
  obtain ⟨next, hstop, hrest⟩ := of_bind hrest
  have hnext := stop_kept hinv hqueued hstop
  obtain ⟨_, hrest⟩ := of_assert_bind hrest
  split at hrest
  · exact delete_kept hnext.ledger hnext.missing hrest
  · cases hrest
    exact .inl hnext

theorem nuke_kept (heq : cxn.nuke cfg = .ok cxn') : Kept cfg quiet cxn' := by
  obtain ⟨next, habort, hdelete⟩ := of_bind heq
  rw [abort_eq hinv.valid] at habort
  cases habort
  have hledger : Ledger quiet [] (cxn.aborted cfg) := aborted_ledger hinv.ledger
  exact delete_kept hledger hinv.missing hdelete

theorem timedOut_kept (heq : cxn.timedOut cfg = .ok cxn') : Kept cfg quiet cxn' := by
  obtain ⟨_, hrest⟩ := of_assert_bind heq
  obtain ⟨_, hrest⟩ := of_assert_bind hrest
  split at hrest
  · exact nuke_kept hinv hrest
  · exact .inl (of_sleep hinv.ledger hinv.missing hrest).1

theorem connect_waiting {connecting : Bool} (hstate : cxn.state = .cxnWaitingS)
    (heq : (cxn.appendCheck art).connect cfg env = .ok (connecting, cxn')) :
    Inv cfg quiet [] [] cxn' := by
  obtain ⟨hoff, hsleep⟩ := hinv.off (.inr hstate)
  have hplain := hinv.plain hoff.streaming
  have hqueues := hinv.ledger.queues_nil hoff.total
  have htimers := hoff.timers
  rw [Connection.timersOff] at htimers
  simp only [Bool.and_eq_true, Bool.not_eq_true'] at htimers
  have htotal : (cxn.appendCheck art).articleQTotal =
      if (cxn.appendCheck art).state = .cxnWaitingS then 1 else 0 := by
    change cxn.articleQTotal + 1 = if cxn.state = .cxnWaitingS then 1 else 0
    rw [if_pos hstate, hoff.total]
  obtain ⟨connecting', cxn'', heq', hsound⟩ :=
    connect_ok (hinv.ledger.append art).1 hinv.missing hoff.myEp
    ⟨hoff.streaming, hplain⟩ (.inr (.inl hstate)) htotal ⟨hqueues.2.1,
      hqueues.2.2.2⟩ ⟨htimers.1.1.1, htimers.1.2, hsleep⟩ env
  obtain ⟨_, rfl⟩ := Prod.mk.inj (Except.ok.inj (heq.symm.trans heq'))
  exact hsound.1

theorem Inv.appendConnecting (hstate : cxn.state = .cxnConnectingS) (hzero : cxn.articleQTotal = 0)
    (art : Article) : Inv cfg quiet [] [] (cxn.appendCheck art) := by
  obtain ⟨endp, h⟩ := hinv.isConnecting hstate
  have hconnecting : IsConnecting cfg (cxn.appendCheck art) endp :=
    { h with total := Nat.le_of_eq (congrArg (· + 1) hzero) }
  exact ⟨(hinv.ledger.append art).1, hinv.missing, hinv.plain, shape_connecting hstate hconnecting⟩

theorem of_queueArticle {tookIt : Bool} (heq : cxn.queueArticle cfg art = .ok (tookIt, cxn')) :
    tookIt = false ∧ cxn' = cxn ∨
      tookIt = true ∧ (cxn.state = .cxnWaitingS ∧ cxn' = cxn.appendCheck art ∨
        cxn'.state = .cxnConnectingS ∧ Inv cfg quiet [] [] cxn' ∨ cxn'.state = .cxnFeedingS ∧
          Inv cfg quiet [] [] cxn') := by
  have hroom (hreads : cxn.reads) (hspace : ¬cxn.maxCheck ≤ cxn.articleQTotal)
      (hqueueSpace : cxn.queueSpace = cxn.maxCheck - cxn.articleQTotal) :
      tookIt = true ∧ cxn'.state = .cxnFeedingS ∧ Inv cfg quiet [] [] cxn' := by
    obtain ⟨cxn'', heq', hinv', hstate', _⟩ := queueArticle_ok art hinv hreads (by omega)
    cases heq.symm.trans heq'
    exact ⟨rfl, hstate', hinv'⟩
  obtain ⟨_, hrest⟩ := of_assert_bind heq
  obtain ⟨_, hrest⟩ := of_assert_bind hrest
  cases hstate : cxn.state with
  | cxnClosingS | cxnFlushingS | cxnSleepingS =>
    rw [hstate] at hrest
    cases hrest
    exact .inl ⟨rfl, rfl⟩
  | cxnWaitingS =>
    rw [hstate] at hrest
    cases hrest
    exact .inr ⟨rfl, .inl ⟨rfl, rfl⟩⟩
  | cxnConnectingS =>
    rw [hstate] at hrest
    dsimp only at hrest
    split at hrest
    · cases hrest
      exact .inl ⟨rfl, rfl⟩
    next hzero =>
      cases hrest
      exact .inr ⟨rfl, .inr (.inl ⟨hstate, hinv.appendConnecting hstate (not_not.mp hzero) art⟩)⟩
  | cxnIdleS | cxnFeedingS =>
    rw [hstate] at hrest
    dsimp only at hrest
    split at hrest
    · cases hrest
      exact .inl ⟨rfl, rfl⟩
    next hspace =>
      have hreads : cxn.reads := by
        first
          | exact .inr hstate
          | exact .inl (.inl hstate)
      obtain ⟨htook, hfeeding, hinv'⟩ := hroom hreads hspace (by rw [Connection.queueSpace, hstate])
      exact .inr ⟨htook, .inr (.inr ⟨hfeeding, hinv'⟩)⟩
  | cxnStartingS | cxnDeadS | cxnIdleTimeoutS =>
    rw [hstate] at hrest
    cases hrest

theorem takeArticle_kept (heq : cxn.takeArticle cfg env art = .ok cxn') :
    Inv cfg quiet [] [] cxn' := by
  obtain ⟨_, htake⟩ := of_assert_bind heq
  obtain ⟨⟨queued, next⟩, hqueue, hcall⟩ := of_bind htake
  dsimp only at hcall
  rcases of_queueArticle hinv hqueue with ⟨rfl, hsame⟩ |
    ⟨rfl, ⟨hstate, hsame⟩ | ⟨hstate, hinv'⟩ | ⟨hstate, hinv'⟩⟩
  · cases hcall
    rw [hsame]
    exact hinv
  · have hwaiting : next.state = .cxnWaitingS := by
      rw [hsame]
      exact hstate
    rw [if_pos rfl, hwaiting] at hcall
    obtain ⟨_, hrest⟩ := of_assert_bind hcall
    obtain ⟨⟨connecting, last⟩, hconnect, hlast⟩ := of_bind hrest
    cases hlast
    rw [hsame] at hconnect
    exact connect_waiting hinv hstate hconnect
  · rw [if_pos rfl, hstate] at hcall
    obtain ⟨_, hrest⟩ := of_assert_bind hcall
    cases hrest
    exact hinv'
  · rw [if_pos rfl, hstate] at hcall
    obtain ⟨_, hrest⟩ := of_assert_bind hcall
    obtain ⟨cxn'', heq', hinv'', _⟩ := doSomeWrites_ok hinv' (.inl (.inl hstate)) env.gone
    cases hrest.symm.trans heq'
    exact hinv''

theorem Inv.flushTimerOff (hstate : cxn.state = .cxnFeedingS ∨ cxn.state = .cxnConnectingS ∨
      cxn.state = .cxnIdleS) : Inv cfg quiet [] [] { cxn with flushTimer := false } := by
  refine ⟨{ hinv.ledger with }, hinv.missing, hinv.plain, ?_⟩
  rcases hstate with hstate | hstate | hstate
  · obtain ⟨endp, h⟩ := hinv.isFeeding hstate
    have hfeeding : IsFeeding cfg { cxn with flushTimer := false } endp := { h with }
    exact shape_feeding hstate hfeeding
  · obtain ⟨endp, h⟩ := hinv.isConnecting hstate
    have hconnecting : IsConnecting cfg { cxn with flushTimer := false } endp := { h with }
    exact shape_connecting hstate hconnecting
  · obtain ⟨endp, h⟩ := hinv.isIdle hstate
    unfold Shape
    rw [hstate]
    exact ⟨endp, { h with }⟩

omit hinv in
theorem shape_sleeping (hstate : cxn.state = .cxnSleepingS) (hoff : Off cxn) : Shape cfg cxn := by
  unfold Shape
  rw [hstate]
  exact hoff

theorem timeout_kept {timer : Timer} (heq : timer.call cfg env cxn = .ok cxn') :
    Kept cfg quiet cxn' := by
  have hledger := hinv.ledger
  cases timer with
  | responseTimeoutCbk | writeTimeoutCbk => exact timedOut_kept hinv heq
  | reopenTimeoutCbk =>
    unfold Timer.call at heq
    dsimp only at heq
    have hledger' : Ledger quiet [] { cxn with sleepTimer := false } :=
      { hledger with }
    split at heq
    · exact .inl (of_sleepOrDie hledger' hinv.missing heq).1
    next hsleeps =>
      have hstate := not_not.mp hsleeps
      have hoff := hinv.rests (.inl hstate)
      obtain ⟨⟨connecting, last⟩, hconnect, hlast⟩ := of_bind heq
      cases hlast
      have hoff' : Off { cxn with sleepTimer := false } := { hoff with }
      exact .inl (connect_sound ⟨hledger', hinv.missing, hinv.plain,
        shape_sleeping hstate hoff'⟩ hoff' rfl hconnect)
  | flushCxnCbk =>
    obtain ⟨_, hrest⟩ := of_assert_bind heq
    dsimp only at hrest
    have hledger' : Ledger quiet [] { cxn with flushTimer := false } :=
      { hledger with }
    split at hrest
    next hstate => exact .inl (flush_kept (hinv.flushTimerOff hstate) hrest)
    · exact .inl (of_sleepOrDie hledger' hinv.missing hrest).1
  | articleTimeoutCbk =>
    obtain ⟨_, hrest⟩ := of_assert_bind heq
    dsimp only at hrest
    have hledger' : Ledger quiet [] { cxn with artReceiptTimer := false } :=
      { hledger with }
    split at hrest
    · exact .inl (of_sleepOrDie hledger' hinv.missing hrest).1
    next hidle =>
      obtain ⟨endp, h⟩ := hinv.isIdle (not_not.mp hidle)
      have hnone : ¬0 < cxn.articleQTotal := by
        rw [h.total]
        exact Nat.lt_irrefl 0
      rw [if_neg hnone] at hrest
      exact .inl (flushIdle_kept hinv h hrest)

theorem callback_kept {action : Action} (hep : cxn.myEp = some endp)
    (heq : cxn.callback cfg endp env action = .ok cxn') : Kept cfg quiet cxn' := by
  have hsame (heq : Except.ok cxn = Except.ok (ε := Fault) cxn') : Kept cfg quiet cxn' := by
    cases heq
    exact .inl hinv
  cases action with
  | read result =>
    unfold Connection.callback at heq
    cases hreading : endp.reading with
    | none =>
      rw [hreading] at heq
      exact hsame heq
    | some done =>
      have hinv' : Inv cfg quiet [] [] { cxn with myEp := some { endp with reading := none } } :=
        hinv.replaceEp hep rfl (.inl rfl) id
      have hmade (hstate : cxn.state = .cxnConnectingS) :
          ({ cxn with myEp := some { endp with reading := none } } : Connection).isMade := by
        intro old hold
        cases hold
        obtain ⟨now, h⟩ := hinv.isConnecting hstate
        cases hep.symm.trans h.myEp
        exact h.banner (by rw [hreading]; nofun)
      rw [hreading] at heq
      cases done with
      | getBanner =>
        obtain ⟨hstate, _⟩ := of_assert_bind heq
        exact .inl (getBanner_sound hinv' (hmade hstate) heq).1
      | getAuthUserResponse =>
        obtain ⟨hstate, _⟩ := of_assert_bind heq
        exact .inl (getAuthUserResponse_sound hinv' (hmade hstate) heq).1
      | getAuthPassResponse =>
        obtain ⟨hstate, _⟩ := of_assert_bind heq
        exact .inl (getAuthPassResponse_sound hinv' (hmade hstate) heq).1
      | getModeResponse =>
        obtain ⟨hstate, _⟩ := of_assert_bind heq
        exact .inl (getModeResponse_sound hinv' (hmade hstate) heq).1
      | responseIsRead => exact responseIsRead_kept hinv' heq
  | written ok =>
    unfold Connection.callback at heq
    cases hwriting : endp.writing with
    | none =>
      rw [hwriting] at heq
      exact hsame heq
    | some done =>
      rw [hwriting] at heq
      cases done with
      | connectionDone => exact connectionDone_kept hinv hep hwriting heq
      | authUserIssued | authPassIssued | modeCmdIssued =>
          exact commandIssued_kept hinv hep hwriting rfl heq
      | commandWriteDone => exact commandWriteDone_kept hinv hep heq
      | ihaveBodyDone => exact ihaveBodyDone_kept hinv hep heq
      | quitWritten => exact quitWritten_kept hinv hep heq
  | work =>
    unfold Connection.callback at heq
    dsimp only at heq
    split at heq
    next hwork =>
      have hinv' : Inv cfg quiet [] [] { cxn with myEp := some { endp with workCbk := false } } :=
        hinv.replaceEp hep rfl (.inr rfl) nofun
      rcases hinv.states with hreads | hstate | hoff
      · exact .inl (workProc_kept hinv' hreads heq)
      · obtain ⟨now, h⟩ := hinv.isConnecting hstate
        cases hep.symm.trans h.myEp
        exact absurd (h.work.symm.trans hwork) Bool.false_ne_true
      · rw [hoff.myEp] at hep
        cases hep
    · exact hsame heq
  | timeout timer | cxnConnect | cxnWait | cxnTakeArticle art | cxnFlush | cxnClose | cxnTerminate |
      cxnNuke => exact hsame heq

theorem act_kept {action : Action} (heq : Connection.act cfg env cxn action = .ok cxn') :
    Kept cfg quiet cxn' := by
  have hsame (heq : Except.ok cxn = Except.ok (ε := Fault) cxn') : Kept cfg quiet cxn' := by
    cases heq
    exact .inl hinv
  unfold Connection.act at heq
  cases action with
  | read _ | written _ | work =>
    dsimp only at heq
    split at heq
    next endp hep => exact callback_kept hinv hep heq
    · exact hsame heq
  | timeout timer =>
    dsimp only at heq
    split at heq
    · exact timeout_kept hinv heq
    · exact hsame heq
  | cxnConnect =>
    dsimp only at heq
    split at heq
    next hstate =>
      obtain ⟨hoff, hsleep⟩ := hinv.off (.inl hstate)
      cases hconnect : cxn.connect cfg env with
      | error fault =>
        rw [hconnect] at heq
        cases heq
      | ok result =>
        rw [hconnect] at heq
        cases heq
        exact .inl (connect_sound hinv hoff hsleep hconnect)
    · exact hsame heq
  | cxnWait =>
    dsimp only at heq
    split at heq
    · exact .inl (of_wait hinv.ledger hinv.missing heq).1
    · exact hsame heq
  | cxnTakeArticle art => exact .inl (takeArticle_kept hinv heq)
  | cxnFlush => exact .inl (flush_kept hinv heq)
  | cxnClose => exact closing_kept hinv (fun _ hinv hclosing => ⟨hinv, hclosing⟩) heq
  | cxnTerminate => exact closing_kept hinv (fun _ hinv hclosing =>
      hinv.deferQueuedArticles hclosing) heq
  | cxnNuke => exact nuke_kept hinv heq

end Invariant2

theorem of_checked {next : Connection} (heq : next.checked = .ok cxn') :
    next = cxn' ∧ cxn'.spoiled = false := by
  unfold Connection.checked at heq
  split at heq
  · cases heq
  next hclean =>
    cases heq
    exact ⟨rfl, Bool.eq_false_iff.mpr hclean⟩

theorem Inv.asked (hinv : Inv cfg False [] [] cxn) (hclean : cxn.spoiled = false)
    (gives : List (List Article)) (offered : List Article) (hquiet : quiet → offered = []) :
    Inv cfg quiet [] [] { cxn with gives := gives, offered := offered } :=
  ⟨⟨hinv.ledger.total, hinv.ledger.books, fun h => ⟨hquiet h, hclean⟩⟩, hinv.missing, hinv.plain,
    hinv.shape.retold _ _ _ _ _⟩

theorem step_kept {event : Event} (hkept : Kept cfg False cxn ∧ cxn.spoiled = false)
    (heq : step cfg cxn event = .ok cxn') : Kept cfg False cxn' ∧ cxn'.spoiled = false := by
  unfold step at heq
  split at heq
  · cases heq
    exact hkept
  next hthere =>
    have hinv := hkept.1.resolve_right fun hgone => hthere hgone.1
    obtain ⟨next, hact, hchecked⟩ := of_bind heq
    obtain ⟨rfl, hclean⟩ := of_checked hchecked
    exact ⟨act_kept (hinv.asked hkept.2 event.gives event.offered False.elim) hact, hclean⟩

theorem start_kept (cfg : Config) : Kept cfg False start ∧ start.spoiled = false := by
  have hoff : Off start := ⟨rfl, rfl, rfl, rfl, rfl⟩
  exact ⟨.inl ⟨⟨rfl, fun _ => rfl, False.elim⟩, rfl, fun _ => ⟨rfl, rfl, rfl⟩, hoff, rfl⟩, rfl⟩

theorem run_kept {events : List Event} (hrun : run (step cfg) events start = .ok cxn) :
    Kept cfg False cxn ∧ cxn.spoiled = false :=
  of_run (fun _ _ _ hkept heq => step_kept hkept heq) (start_kept cfg) hrun

def Connection.held (cxn : Connection) : List Article :=
  cxn.checkHead ++ cxn.checkRespHead ++ cxn.takeHead ++ cxn.takeRespHead ++ cxn.missing

/-- Each article taken is in a queue or has been handed back. -/
def Connection.accounted (cxn : Connection) : Prop :=
  cxn.articleQTotal =
      cxn.checkHead.length + cxn.checkRespHead.length + cxn.takeHead.length +
        cxn.takeRespHead.length ∧
    cxn.taken.Perm (cxn.held ++ cxn.handedBack.map Prod.snd)

theorem Ledger.accounted (hledger : Ledger quiet [] cxn) : cxn.accounted := by
  refine ⟨hledger.total, List.perm_iff_count.mpr fun a => ?_⟩
  have hbooks := hledger.books a
  rw [List.count_nil] at hbooks
  rw [Connection.held]
  simp only [List.count_append]
  omega

def patient : Config := ⟨0, 0, 0, 0, false, 1, false, false⟩

def calm : Env := ⟨fun _ => false, .isDone true, false, false⟩

def offer : Article := ⟨1, octets "<a@b>"⟩

def asking : List Event :=
  [⟨.cxnWait, calm, [], []⟩, ⟨.cxnTakeArticle offer, calm, [], []⟩,
    ⟨.read (.responses [octets "200 hello"]), calm, [], []⟩,
    ⟨.written true, calm, [], []⟩, ⟨.read (.responses [octets "500 what"]), calm, [], []⟩,
      ⟨.written true, calm, [], []⟩]

def asked : Connection :=
  { start with
    state := .cxnFeedingS
    checkRespHead := [offer]
    articleQTotal := 1
    myEp := some ⟨some .responseIsRead, none, false⟩
    timeCon := true
    taken := [offer] }

/-- Every run of a connection keeps the account of the articles that the host has given to it. -/
theorem accounted_run (cfg : Config) (events : List Event) (cxn : Connection)
    (hrun : run (step cfg) events start = .ok cxn) : cxn.accounted :=
  (run_kept hrun).1.ledger.1.accounted

theorem accounted_asked : asked.accounted := accounted_run patient asking asked (by decide)

def Connection.called (cxn : Connection) (endp : EndPoint) (gives : List (List Article))
    (offered : List Article) :
    Connection :=
  { cxn with gives := gives, offered := offered, myEp := some { endp with reading := none } }

def Connection.handles (cfg : Config) (env : Env) (read : Read) (cxn : Connection) : Prop :=
  ∃ cxn', cxn.responseIsRead cfg env read >>= Connection.checked = .ok cxn' ∧ cxn'.accounted

/-- In any state that a connection can be in, a read is handled, with no article lost, if the
responses are expected and no article that is given back is offered to the connection again. It is
not handled if one of the responses is not expected. -/
theorem responseIsRead_iff (cfg : Config) (events : List Event) (cxn : Connection) (endp : EndPoint)
    (hrun : run (step cfg) events start = .ok cxn) (hep : cxn.myEp = some endp)
    (hreading : endp.reading = some .responseIsRead) (env : Env) (read : Read)
    (gives : List (List Article)) (offered : List Article) :
    (offered = [] → (∀ lines, read = .responses lines →
      (cxn.called endp gives offered).expectsAll cfg env lines) →
        (cxn.called endp gives offered).handles cfg env read) ∧
      ((cxn.called endp gives offered).handles cfg env read →
        ∀ lines, read = .responses lines →
          (cxn.called endp gives offered).expectsAll cfg env lines) := by
  have hinv : Inv cfg False [] [] cxn := by
    refine (run_kept hrun).1.resolve_right fun hgone => ?_
    rw [hgone.2.1] at hep
    cases hep
  have hreads : cxn.reads := by
    rcases hinv.states with hreads | hstate | hoff
    · exact hreads
    · obtain ⟨now, h⟩ := hinv.isConnecting hstate
      obtain rfl := Option.some.inj (hep.symm.trans h.myEp)
      exact absurd hreading h.reading
    · rw [hoff.myEp] at hep
      cases hep
  have hasked : Inv cfg (offered = []) [] [] { cxn with gives := gives, offered := offered } :=
    hinv.asked (run_kept hrun).2 gives offered id
  have hcalled : Inv cfg (offered = []) [] [] (cxn.called endp gives offered) :=
    hasked.replaceEp hep rfl (.inl rfl) id
  constructor
  · intro hquiet hexpects
    obtain ⟨cxn', heq, hkept⟩ := responseIsRead_ok hcalled hreads hexpects
    have hclean : cxn'.spoiled = false := (hkept.ledger.1.calm hquiet).2
    refine ⟨cxn', ?_, hkept.ledger.1.accounted⟩
    rw [heq, ok_bind, Connection.checked, hclean]
    rfl
  · rintro ⟨cxn', heq, _⟩
    obtain ⟨next, hread, _⟩ := of_bind heq
    exact of_responseIsRead hcalled hread

theorem responseIsRead_asked :
    (asked.called ⟨some .responseIsRead, none, false⟩ [] []).handles patient calm
    (.responses [octets "435 no"]) := by
  refine (responseIsRead_iff patient asking asked _ (by decide) rfl rfl calm _ [] []).1 rfl ?_
  rintro lines hlines
  obtain rfl := Read.responses.inj hlines
  exact ⟨⟨fun _ _ _ _ => rfl, nofun, nofun⟩, fun _ _ _ => trivial⟩

/-- A peer that rejects the body before it has asked for it makes an assertion fail. -/
theorem not_responseIsRead_437 :
    run (step patient) asking start = .ok asked ∧
      asked.myEp = some ⟨some .responseIsRead, none, false⟩ ∧
      (asked.called ⟨some .responseIsRead, none, false⟩ [] []).responseIsRead patient calm
        (.responses [octets "437 no"]) =
        .error .assertion := by
  decide

end Inn.Innfeed.Connections
