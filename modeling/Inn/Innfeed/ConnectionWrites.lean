import Inn.Innfeed.ConnectionStates

/-!
# What a connection writes

The host gives articles to a connection that has room, and the connection writes commands
for them when it does not write already. Neither can fail for a connection that reads
responses, and each article stays in the account.
-/

namespace Inn.Innfeed.Connections

variable {cfg : Config} {quiet : Prop} {missing hand : List Article} {cxn cxn' : Connection}
    {endp : EndPoint} {art : Article}

theorem Connection.reads_cases (hreads : cxn.reads) :
    cxn.state = .cxnIdleS ∨ cxn.state = .cxnFeedingS ∨ cxn.leaving := by
  rcases hreads with (h | h) | h
  · exact .inr (.inl h)
  · exact .inr (.inr h)
  · exact .inl h

section Invariant

variable (hinv : Inv cfg quiet missing hand cxn)

include hinv

theorem Inv.isIdle (hstate : cxn.state = .cxnIdleS) : ∃ endp, IsIdle cfg cxn endp := by
  have hshape := hinv.shape
  unfold Shape at hshape
  rw [hstate] at hshape
  exact hshape

theorem Inv.isFeeding (hstate : cxn.state = .cxnFeedingS) :
    ∃ endp, IsFeeding cfg cxn endp := by
  have hshape := hinv.shape
  unfold Shape at hshape
  rw [hstate] at hshape
  exact hshape

theorem Inv.isLeaving (hleaving : cxn.leaving) : ∃ endp, IsLeaving cfg cxn endp := by
  have hshape := hinv.shape
  unfold Shape at hshape
  rcases hleaving with hstate | hstate
  · rw [hstate] at hshape
    exact hshape
  · rw [hstate] at hshape
    exact hshape

theorem Inv.isConnecting (hstate : cxn.state = .cxnConnectingS) :
    ∃ endp, IsConnecting cfg cxn endp := by
  have hshape := hinv.shape
  unfold Shape at hshape
  rw [hstate] at hshape
  exact hshape

omit hinv in
theorem Shape.retold (h : Shape cfg cxn) (gives : List (List Article)) (missing : List Article)
    (handedBack : List (Outcome × Article)) (offered : List Article) (spoiled : Bool) :
    Shape cfg { cxn with
      gives := gives, missing := missing, handedBack := handedBack, offered := offered,
        spoiled := spoiled } := by
  unfold Shape at h ⊢
  cases hstate : cxn.state with
  | cxnStartingS | cxnWaitingS =>
    rw [hstate] at h
    exact ⟨{ h.1 with }, h.2⟩
  | cxnSleepingS | cxnDeadS =>
    rw [hstate] at h
    have hoff : Off cxn := h
    exact { hoff with }
  | cxnIdleTimeoutS =>
    rw [hstate] at h
    exact h
  | cxnConnectingS | cxnIdleS | cxnFeedingS | cxnFlushingS | cxnClosingS =>
    rw [hstate] at h
    obtain ⟨endp, h⟩ := h
    exact ⟨endp, { h with }⟩

theorem Inv.endPoint (hreads : cxn.reads) :
    ∃ endp, cxn.myEp = some endp ∧ endp.writing.all WriteCbk.feeds = true := by
  rcases Connection.reads_cases hreads with hstate | hstate | hleaving
  · obtain ⟨endp, h⟩ := hinv.isIdle hstate
    exact ⟨endp, h.myEp, by rw [h.writing]; rfl⟩
  · obtain ⟨endp, h⟩ := hinv.isFeeding hstate
    exact ⟨endp, h.myEp, h.writing⟩
  · obtain ⟨endp, h⟩ := hinv.isLeaving hleaving
    exact ⟨endp, h.myEp, h.writing⟩

omit hinv in
theorem Ledger.append (hledger : Ledger quiet hand cxn) (art : Article) :
    Ledger quiet hand (cxn.appendCheck art) ∧ Ledger quiet hand (cxn.appendTake art) := by
  have htotal := hledger.total
  refine ⟨⟨?_, fun a => ?_, hledger.calm⟩, ⟨?_, fun a => ?_, hledger.calm⟩⟩
  · rw [Connection.appendCheck]
    simp only [List.length_append, List.length_singleton]
    omega
  · have hbooks := hledger.books a
    rw [Connection.appendCheck]
    simp only [List.count_append, count_cons_eq, List.count_nil]
    omega
  · rw [Connection.appendTake]
    simp only [List.length_append, List.length_singleton]
    omega
  · have hbooks := hledger.books a
    rw [Connection.appendTake]
    simp only [List.count_append, count_cons_eq, List.count_nil]
    omega

theorem Inv.streaming_of_take (hchecks : ¬cxn.needsChecks = true) :
    ¬cxn.doesStreaming = false :=
  fun hplain => hchecks (hinv.plain hplain).2.1

theorem idle_append (h : IsIdle cfg cxn endp) (art : Article) :
    Inv cfg quiet missing hand
      { (if cxn.needsChecks then cxn.appendCheck art else cxn.appendTake art) with
      state := .cxnFeedingS, artReceiptTimer := false } := by
  have hqueues := hinv.ledger.queues_nil h.total
  have hwriting : endp.writing.all WriteCbk.feeds = true := by rw [h.writing]; rfl
  have htimed : cxn.writeBlockedTimer = (decide (0 < cfg.writeTimeout) && endp.writeIsPending) := by
    rw [h.writeBlocked, writeIsPending_none h.writing, Bool.and_false]
  have hreadTimer : cxn.readBlockedTimer = true → 0 < cfg.readTimeout := fun hb =>
    absurd (h.readBlocked.symm.trans hb) Bool.false_ne_true
  have hone : cxn.articleQTotal + 1 = 1 := congrArg (· + 1) h.total
  by_cases hchecks : cxn.needsChecks = true
  · rw [if_pos hchecks]
    have hledger := (hinv.ledger.append art).1
    exact ⟨{ hledger with }, hinv.missing, hinv.plain, endp,
      ⟨h.myEp, hwriting, fun _ _ => .inr ⟨hqueues.2.1, hqueues.2.2.2⟩, hreadTimer, htimed, rfl,
        h.sleep, h.timeCon⟩,
      fun _ => .inl (Nat.succ_pos _), fun _ => hone⟩
  · rw [if_neg hchecks]
    have hledger := (hinv.ledger.append art).2
    exact ⟨{ hledger with }, hinv.missing,
      fun hplain => absurd hplain (hinv.streaming_of_take hchecks), endp,
      ⟨h.myEp, hwriting, fun _ _ => .inr ⟨hqueues.2.1, hqueues.2.2.2⟩, hreadTimer, htimed, rfl,
        h.sleep, h.timeCon⟩,
      fun _ => .inl (Nat.succ_pos _), fun _ => hone⟩

theorem feeding_append (hstate : cxn.state = .cxnFeedingS)
    (hroom : cxn.articleQTotal < cxn.maxCheck) (art : Article) :
    Inv cfg quiet missing hand
      (if cxn.needsChecks then cxn.appendCheck art else cxn.appendTake art) := by
  obtain ⟨endp, h⟩ := hinv.isFeeding hstate
  have hstreams : ¬cxn.doesStreaming = false := by
    intro hplain
    have hone := h.ihave hplain
    rw [(hinv.plain hplain).1] at hroom
    omega
  by_cases hchecks : cxn.needsChecks = true
  · rw [if_pos hchecks]
    have hfeeding : IsFeeding cfg (cxn.appendCheck art) endp :=
      { h with
        streams := fun _ => .inl (Nat.succ_pos _)
        ihave := fun hplain => absurd hplain hstreams }
    exact ⟨(hinv.ledger.append art).1, hinv.missing, hinv.plain, shape_feeding hstate hfeeding⟩
  · rw [if_neg hchecks]
    have hfeeding : IsFeeding cfg (cxn.appendTake art) endp :=
      { h with
        streams := fun _ => .inl (Nat.succ_pos _)
        ihave := fun hplain => absurd hplain hstreams }
    exact ⟨(hinv.ledger.append art).2, hinv.missing, fun hplain => absurd hplain hstreams,
      shape_feeding hstate hfeeding⟩

end Invariant

theorem appended_state (cxn : Connection) (art : Article) :
    (if cxn.needsChecks then cxn.appendCheck art else cxn.appendTake art).state = cxn.state := by
  split <;> rfl

theorem appended_space (cxn : Connection) {cxn' : Connection} (hstate : cxn'.state = .cxnFeedingS)
    (hcount : cxn'.maxCheck = cxn.maxCheck ∧ cxn'.articleQTotal = cxn.articleQTotal + 1) :
    cxn'.queueSpace = cxn.maxCheck - cxn.articleQTotal - 1 := by
  rw [Connection.queueSpace, hstate]
  simp only [hcount]
  exact Nat.sub_add_eq _ _ _

theorem queueArticle_ok (art : Article) (hinv : Inv cfg quiet missing hand cxn) (hreads : cxn.reads)
    (hspace : 0 < cxn.queueSpace) :
    ∃ cxn', cxn.queueArticle cfg art = .ok (true, cxn') ∧ Inv cfg quiet missing hand cxn' ∧
      cxn'.state = .cxnFeedingS ∧
      cxn'.queueSpace = cxn.queueSpace - 1 := by
  have hcount : (if cxn.needsChecks then cxn.appendCheck art else cxn.appendTake art).maxCheck =
      cxn.maxCheck ∧
      (if cxn.needsChecks then cxn.appendCheck art else cxn.appendTake art).articleQTotal =
        cxn.articleQTotal + 1 := by
    split <;> exact ⟨rfl, rfl⟩
  unfold Connection.queueArticle
  rcases Connection.reads_cases hreads with hstate | hstate | hleaving
  · obtain ⟨endp, h⟩ := hinv.isIdle hstate
    have hspaceEq : cxn.queueSpace = cxn.maxCheck - cxn.articleQTotal := by
      rw [Connection.queueSpace, hstate]
    have hroom : ¬cxn.maxCheck ≤ cxn.articleQTotal := by omega
    have hlive : cxn.state ≠ .cxnStartingS ∧ cxn.state ≠ .cxnDeadS := by
      rw [hstate]
      exact ⟨nofun, nofun⟩
    rw [assert_bind hlive, hinv.validate, hstate]
    simp only [if_neg hroom, if_true]
    refine ⟨_, rfl, idle_append hinv h art, rfl, ?_⟩
    rw [hspaceEq]
    exact appended_space cxn rfl hcount
  · have hspaceEq : cxn.queueSpace = cxn.maxCheck - cxn.articleQTotal := by
      rw [Connection.queueSpace, hstate]
    have hroom : ¬cxn.maxCheck ≤ cxn.articleQTotal := by omega
    have hlive : cxn.state ≠ .cxnStartingS ∧ cxn.state ≠ .cxnDeadS := by
      rw [hstate]
      exact ⟨nofun, nofun⟩
    have hstate' := (appended_state cxn art).trans hstate
    rw [assert_bind hlive, hinv.validate, hstate]
    simp only [if_neg hroom, reduceCtorEq, if_false]
    refine ⟨_, rfl, feeding_append hinv hstate (Nat.not_le.mp hroom) art, hstate', ?_⟩
    rw [hspaceEq]
    exact appended_space cxn hstate' hcount
  · rw [Connection.queueSpace] at hspace
    rcases hleaving with hstate | hstate
    · rw [hstate] at hspace
      exact absurd hspace (Nat.lt_irrefl 0)
    · rw [hstate] at hspace
      exact absurd hspace (Nat.lt_irrefl 0)

theorem queueAll_ok {arts : List Article} (hinv : Inv cfg quiet missing hand cxn)
    (hreads : cxn.reads) (hspace : arts.length ≤ cxn.queueSpace) :
    ∃ cxn', cxn.queueAll cfg arts = .ok cxn' ∧ Inv cfg quiet missing hand cxn' ∧ cxn'.reads := by
  induction arts generalizing cxn with
  | nil => exact ⟨cxn, rfl, hinv, hreads⟩
  | cons art arts ih =>
    rw [List.length_cons] at hspace
    obtain ⟨cxn', heq, hinv', hstate, hspace'⟩ := queueArticle_ok art hinv hreads (by omega)
    unfold Connection.queueAll
    rw [heq, ok_bind]
    dsimp only
    rw [assert_bind rfl]
    exact ih hinv' (.inl (.inl hstate)) (by omega)

theorem gimmeArticle_ok (hinv : Inv cfg quiet missing hand cxn) (hreads : cxn.reads) :
    ∃ gave cxn', cxn.gimmeArticle cfg = .ok (gave, cxn') ∧ Inv cfg quiet missing hand cxn' ∧
      cxn'.reads := by
  unfold Connection.gimmeArticle
  split
  · exact ⟨false, cxn, rfl, hinv, hreads⟩
  next arts gives _ =>
    have hinv' : Inv cfg quiet missing hand { cxn with gives := gives } :=
      ⟨{ hinv.ledger with }, hinv.missing, hinv.plain,
        hinv.shape.retold gives _ _ _ _⟩
    have hreads' : ({ cxn with gives := gives } : Connection).reads := hreads
    have hspace :
        (arts.take cxn.queueSpace).length ≤ ({ cxn with gives := gives } : Connection).queueSpace :=
      List.length_take_le _ _
    obtain ⟨cxn', heq, hinv'', hreads''⟩ := queueAll_ok hinv' hreads' hspace
    simp only [heq]
    exact ⟨_, cxn', rfl, hinv'', hreads''⟩

theorem articleGone_ok (hinv : Inv cfg quiet missing (art :: hand) cxn) (hreads : cxn.reads)
    (outcome : Outcome) :
    ∃ cxn', cxn.articleGone cfg outcome art = .ok cxn' ∧ Inv cfg quiet missing hand cxn' ∧
      cxn'.reads := by
  have hinv' : Inv cfg quiet missing hand (cxn.handBack outcome art) :=
    ⟨hinv.ledger.handBack outcome, hinv.missing, hinv.plain, hinv.shape.retold _ _ _ _ _⟩
  have hreads' : (cxn.handBack outcome art).reads := hreads
  obtain ⟨gave, cxn', heq, hinv'', hreads''⟩ := gimmeArticle_ok hinv' hreads'
  unfold Connection.articleGone
  rw [heq]
  exact ⟨cxn', rfl, hinv'', hreads''⟩

theorem Inv.transfers (hinv : Inv cfg quiet missing hand cxn) (hreads : cxn.reads)
    (hneeded : cxn.writesNeeded = true) :
    ∃ endp, Transfers cfg cxn endp := by
  rcases Connection.reads_cases hreads with hstate | hstate | hleaving
  · obtain ⟨endp, h⟩ := hinv.isIdle hstate
    obtain ⟨hcheck, _, htake, _⟩ := hinv.ledger.queues_nil h.total
    rw [Connection.writesNeeded, hcheck, htake] at hneeded
    cases hneeded
  · obtain ⟨endp, h⟩ := hinv.isFeeding hstate
    exact ⟨endp, .inl ⟨hstate, h.toFeeds⟩⟩
  · obtain ⟨endp, h⟩ := hinv.isLeaving hleaving
    exact ⟨endp, .inr ⟨hleaving, h⟩⟩

def Connection.writes (cfg : Config) (cxn : Connection) (endp : EndPoint)
    (done : WriteCbk) : Connection :=
  { cxn with
    readBlockedTimer := false
    writeBlockedTimer := 0 < cfg.writeTimeout
    myEp := some { endp with writing := some done } }

theorem writes_pending {done : WriteCbk} (hdone : done.feeds = true) :
    ({ endp with writing := some done } : EndPoint).writeIsPending = true := by
  cases done with
  | commandWriteDone | ihaveBodyDone | quitWritten => rfl
  | connectionDone | authUserIssued | authPassIssued | modeCmdIssued => cases hdone

theorem prepareWrite_eq (hep : cxn.myEp = some endp) (hwriting : endp.writing = none)
    (done : WriteCbk) :
    cxn.prepareWrite cfg done = .ok (cxn.writes cfg endp done) := by
  unfold Connection.prepareWrite
  rw [hep]
  dsimp only
  rw [hwriting]
  rfl

theorem Transfers.writing (h : Transfers cfg cxn endp) :
    endp.writing.all WriteCbk.feeds = true := by
  rcases h with ⟨_, hfeeds⟩ | ⟨_, hleaves⟩
  · exact hfeeds.writing
  · exact hleaves.writing

theorem Transfers.writes (h : Transfers cfg cxn endp) (done : WriteCbk) (hdone : done.feeds = true) :
    Transfers cfg (cxn.writes cfg endp done) { endp with writing := some done } := by
  have htimed : (cxn.writes cfg endp done).timed cfg { endp with writing := some done } := by
    rw [Connection.timed, writes_pending hdone, Bool.and_true]
    rfl
  rcases h with ⟨hstate, h⟩ | ⟨hleaving, h⟩
  · refine .inl ⟨hstate, { h with myEp := rfl, writing := hdone, waits := ?_, readTimer := nofun, timed := htimed }⟩
    intro _ hpending
    exact absurd ((writes_pending hdone).symm.trans hpending) Bool.true_eq_false.mp
  · exact .inr ⟨hleaving, { h with myEp := rfl, writing := hdone, timed := htimed }⟩

theorem Transfers.queues (h : Transfers cfg cxn endp)
    {checkHead checkRespHead takeHead takeRespHead missing : List Article} {total : Nat}
    (hwaits : cxn.state = .cxnFeedingS → 0 < cfg.readTimeout → endp.writeIsPending = false →
      cxn.readBlockedTimer = true ∨ checkRespHead = [] ∧ takeRespHead = [])
    (hihave : cxn.doesStreaming = false → total ≤ 1) :
    Transfers cfg { cxn with
      checkHead := checkHead
      checkRespHead := checkRespHead
      takeHead := takeHead
      takeRespHead := takeRespHead
      articleQTotal := total
      missing := missing } endp := by
  rcases h with ⟨hstate, h⟩ | ⟨hleaving, h⟩
  · exact .inl ⟨hstate, { h with waits := hwaits hstate }⟩
  · exact .inr ⟨hleaving, { h with ihave := hihave }⟩

theorem Transfers.waits (h : Transfers cfg cxn endp) (hstate : cxn.state = .cxnFeedingS) :
    0 < cfg.readTimeout →
    endp.writeIsPending = false → cxn.readBlockedTimer = true ∨ cxn.checkRespHead = [] ∧
      cxn.takeRespHead = [] := by
  rcases h with ⟨_, h⟩ | ⟨hleaving, _⟩
  · exact h.waits
  · exact absurd hstate (not_feeding_of_leaving hleaving)

theorem Inv.one (hinv : Inv cfg quiet missing hand cxn) (htransfers : cxn.transfers)
    (hstreaming : cxn.doesStreaming = false)
    (hmore : cxn.articleQTotal ≠ 0) : cxn.articleQTotal = 1 := by
  rcases htransfers with hstate | hleaving
  · obtain ⟨endp, h⟩ := hinv.isFeeding hstate
    exact h.ihave hstreaming
  · obtain ⟨endp, h⟩ := hinv.isLeaving hleaving
    have hle := h.ihave hstreaming
    omega

theorem Transfers.transfers (h : Transfers cfg cxn endp) : cxn.transfers := by
  rcases h with ⟨hstate, _⟩ | ⟨hleaving, _⟩
  · exact .inl hstate
  · exact .inr hleaving

theorem issueIHAVE_ok (hinv : Inv cfg quiet missing hand cxn) (htransfers : Transfers cfg cxn endp)
    (hstreaming : cxn.doesStreaming = false) (hcheck : cxn.checkHead ≠ [])
    (hpending : endp.writeIsPending = false) :
    ∃ cxn', cxn.issueIHAVE cfg = .ok cxn' ∧ Inv cfg quiet missing hand cxn' ∧ cxn'.reads := by
  have htotal := hinv.ledger.total
  have hlength := List.length_pos_iff.mpr hcheck
  have hone := hinv.one htransfers.transfers hstreaming (by omega)
  have hresp : cxn.checkRespHead = [] := List.eq_nil_of_length_eq_zero (by omega)
  have hwrites := htransfers.writes .commandWriteDone rfl
  have hlast : Transfers cfg
    { cxn.writes cfg endp .commandWriteDone with checkRespHead := cxn.checkHead, checkHead := [] }
      { endp with writing := some .commandWriteDone } := by
    have hbusy :
        ({ endp with writing := some .commandWriteDone } : EndPoint).writeIsPending = true := rfl
    exact hwrites.queues (fun _ _ h => absurd (hbusy.symm.trans h) Bool.true_eq_false.mp) fun _ =>
      Nat.le_of_eq hone
  unfold Connection.issueIHAVE
  rw [assert_bind ⟨hstreaming, htransfers.transfers, hone, hcheck⟩,
    writeIsPending_eq htransfers.myEp, ok_bind,
    assert_bind hpending, hinv.validate,
      prepareWrite_eq htransfers.myEp (writing_of_not_pending htransfers.writing hpending),
    ok_bind]
  refine ⟨_, rfl, ⟨⟨?_, fun a => ?_, hinv.ledger.calm⟩, hinv.missing, hinv.plain, ?_⟩, hlast.reads⟩
  · rw [hresp] at htotal
    change cxn.articleQTotal = [].length + cxn.checkHead.length + cxn.takeHead.length +
      cxn.takeRespHead.length
    simp only [List.length_nil] at htotal ⊢
    omega
  · have hbooks := hinv.ledger.books a
    rw [hresp] at hbooks
    change cxn.taken.count a = [].count a + cxn.checkHead.count a + cxn.takeHead.count a +
      cxn.takeRespHead.count a +
      cxn.missing.count a + (cxn.handedBack.map Prod.snd).count a + hand.count a
    simp only [List.count_nil] at hbooks ⊢
    omega
  · exact hlast.shape (fun _ h => absurd (hstreaming.symm.trans h) Bool.false_ne_true)
      fun _ _ => hone

theorem issueIHAVEBody_ok (hledger : Ledger quiet hand cxn) (hmissing : cxn.missing = missing)
    (hplain : cxn.maxCheck = 1 ∧ cxn.needsChecks = true) (htransfers : Transfers cfg cxn endp)
    (hstreaming : cxn.doesStreaming = false) (hone : cxn.articleQTotal = 1)
    (htake : cxn.takeHead ≠ []) (hpending : endp.writeIsPending = false) :
    ∃ cxn', cxn.issueIHAVEBody cfg = .ok cxn' ∧ Inv cfg quiet missing hand cxn' ∧ cxn'.reads := by
  have htotal := hledger.total
  have hlength := List.length_pos_iff.mpr htake
  have htakeResp : cxn.takeRespHead = [] := List.eq_nil_of_length_eq_zero (by omega)
  have hplainStreams {p : Prop} (h : cxn.doesStreaming = true) : p :=
    absurd (hstreaming.symm.trans h) Bool.false_ne_true
  have hvalid := valid_of hledger (fun _ => hplain.1) (htransfers.shape (fun _ h => hplainStreams h)
    fun _ _ => hone)
  have hwrites := htransfers.writes .ihaveBodyDone rfl
  have hlast : Transfers cfg
    { cxn.writes cfg endp .ihaveBodyDone with takeRespHead := cxn.takeHead, takeHead := [] }
      { endp with writing := some .ihaveBodyDone } := by
    have hbusy : ({ endp with writing := some .ihaveBodyDone } : EndPoint).writeIsPending = true :=
      rfl
    exact hwrites.queues (fun _ _ h => absurd (hbusy.symm.trans h) Bool.true_eq_false.mp) fun _ =>
      Nat.le_of_eq hone
  unfold Connection.issueIHAVEBody
  rw [assert_bind ⟨hstreaming, htransfers.transfers, hone, htake⟩, Connection.VALIDATE,
    assert_bind hvalid,
    prepareWrite_eq htransfers.myEp (writing_of_not_pending htransfers.writing hpending), ok_bind]
  refine ⟨_, rfl, ⟨⟨?_, fun a => ?_, hledger.calm⟩, hmissing, fun _ => ⟨hplain.1, hplain.2, rfl⟩,
    ?_⟩, hlast.reads⟩
  · rw [htakeResp] at htotal
    change cxn.articleQTotal = cxn.checkHead.length + cxn.checkRespHead.length + [].length +
      cxn.takeHead.length
    simp only [List.length_nil] at htotal ⊢
    omega
  · have hbooks := hledger.books a
    rw [htakeResp] at hbooks
    change cxn.taken.count a = cxn.checkHead.count a + cxn.checkRespHead.count a + [].count a +
      cxn.takeHead.count a +
      cxn.missing.count a + (cxn.handedBack.map Prod.snd).count a + hand.count a
    simp only [List.count_nil] at hbooks ⊢
    omega
  · exact hlast.shape (fun _ h => hplainStreams h) fun _ _ => hone

theorem tellMissing_ok {arts : List Article} (hinv : Inv cfg quiet arts hand cxn)
    (hreads : cxn.reads) :
    ∃ cxn', cxn.tellMissing cfg arts = .ok cxn' ∧ Inv cfg quiet [] hand cxn' ∧ cxn'.reads := by
  induction arts generalizing cxn with
  | nil => exact ⟨cxn, rfl, hinv, hreads⟩
  | cons art arts ih =>
    have hledger : Ledger quiet (art :: hand) { cxn with missing := arts } := by
      refine ⟨hinv.ledger.total, fun a => ?_, hinv.ledger.calm⟩
      have hbooks := hinv.ledger.books a
      rw [hinv.missing, count_cons_eq] at hbooks
      rw [count_cons_eq]
      dsimp only
      omega
    have hpopped : Inv cfg quiet arts (art :: hand) { cxn with missing := arts } :=
      ⟨hledger, rfl, hinv.plain, hinv.shape.retold _ arts _ _ _⟩
    have hreads' : ({ cxn with missing := arts } : Connection).reads := hreads
    obtain ⟨cxn', heq, hinv', hreads''⟩ := articleGone_ok hpopped hreads' .isMissing
    unfold Connection.tellMissing
    rw [heq, ok_bind]
    exact ih hinv' hreads''

theorem Ledger.buildBuffers (hledger : Ledger quiet hand cxn) (gone : Article → Bool) :
    Ledger quiet hand (cxn.buildBuffers gone) where
  calm := hledger.calm
  total := by
    have htotal := hledger.total
    have hsplit := List.length_eq_length_filter_add (l := cxn.takeHead) gone
    rw [Connection.buildBuffers]
    simp only [List.length_append, List.length_nil]
    omega
  books := fun a => by
    have hbooks := hledger.books a
    have hsplit : cxn.takeHead.count a = (cxn.takeHead.filter gone).count a +
        (cxn.takeHead.filter (!gone ·)).count a :=
      List.countP_eq_countP_filter_add cxn.takeHead (· == a) gone
    rw [Connection.buildBuffers]
    simp only [List.count_append, List.count_reverse, List.count_nil]
    omega

theorem Ledger.sent (hledger : Ledger quiet hand cxn) (endp : EndPoint) (done : WriteCbk) :
    Ledger quiet hand { cxn.writes cfg endp done with
      takeRespHead := cxn.takeRespHead ++ cxn.takeHead, takeHead := [] } where
  calm := hledger.calm
  total := by
    have htotal := hledger.total
    rw [Connection.writes]
    simp only [List.length_append, List.length_nil]
    omega
  books := fun a => by
    have hbooks := hledger.books a
    rw [Connection.writes]
    simp only [List.count_append, List.count_nil]
    omega

theorem dropMissing_ok (hledger : Ledger quiet hand cxn) (hstreaming : cxn.doesStreaming = true)
    (htransfers : Transfers cfg cxn endp) (hbusy : endp.writeIsPending = true ∨ cxn.missing ≠ []) :
    ∃ cxn', cxn.dropMissing cfg = .ok cxn' ∧ Inv cfg quiet [] hand cxn' ∧ cxn'.reads := by
  have hstreams {p : Prop} (h : cxn.doesStreaming = false) : p :=
    absurd (hstreaming.symm.trans h) Bool.true_eq_false.mp
  unfold Connection.dropMissing
  rw [writeIsPending_eq htransfers.myEp, ok_bind]
  by_cases hidle : cxn.missing ≠ [] ∧ cxn.articleQTotal = 0 ∧ endp.writeIsPending = false
  · rw [if_pos hidle]
    obtain ⟨cxn', heq, hinv, hreads⟩ :=
      idle_ok hledger rfl (fun h => hstreams h) htransfers hidle.2.1 hidle.2.2
    rw [heq, ok_bind]
    dsimp only
    rw [hinv.missing]
    exact tellMissing_ok hinv hreads
  · have hmore : 0 < cxn.articleQTotal ∨ endp.writeIsPending = true := by
      cases hpending : endp.writeIsPending with
      | true => exact .inr rfl
      | false =>
        rw [hpending] at hbusy
        have hmissing := hbusy.resolve_left Bool.false_ne_true
        exact .inl (Nat.pos_of_ne_zero fun hzero => hidle ⟨hmissing, hzero, hpending⟩)
    rw [if_neg hidle]
    exact tellMissing_ok ⟨hledger, rfl, fun h => hstreams h,
      htransfers.shape (fun _ _ => hmore) fun _ h => hstreams h⟩
      htransfers.reads

theorem issueStreamingCommands_ok (hinv : Inv cfg quiet missing hand cxn)
    (htransfers : Transfers cfg cxn endp)
    (hstreaming : cxn.doesStreaming = true) (hneeded : cxn.writesNeeded = true)
    (hpending : endp.writeIsPending = false) (gone : Article → Bool) :
    ∃ doneSome cxn', cxn.issueStreamingCommands cfg gone = .ok (doneSome, cxn') ∧
      Inv cfg quiet [] hand cxn' ∧ cxn'.reads := by
  have hep := htransfers.myEp
  have hledger := hinv.ledger.buildBuffers gone
  have hstreams {p : Prop} (h : cxn.doesStreaming = false) : p :=
    absurd (hstreaming.symm.trans h) Bool.true_eq_false.mp
  have hnone : ¬cxn.myEp.isNone = true := by
    rw [hep]
    nofun
  unfold Connection.issueStreamingCommands
  rw [if_neg hnone]
  change ∃ doneSome cxn', (ASSERT (cxn.doesStreaming = true) >>= _) = Except.ok (doneSome, cxn') ∧ _
  rw [assert_bind hstreaming, hinv.validate]
  dsimp only
  cases hdone : decide (cxn.checkHead ≠ []) || decide ((cxn.buildBuffers gone).takeHead ≠ []) with
  | true =>
    have hbusy :
        ({ endp with writing := some .commandWriteDone } : EndPoint).writeIsPending = true := rfl
    have hwritten : Transfers cfg { (cxn.buildBuffers gone).writes cfg endp .commandWriteDone with
        takeRespHead := cxn.takeRespHead ++ (cxn.buildBuffers gone).takeHead, takeHead := [] }
        { endp with writing := some .commandWriteDone } :=
      (htransfers.writes .commandWriteDone rfl).queues (fun _ _ h =>
        absurd (hbusy.symm.trans h) Bool.true_eq_false.mp)
        fun h => hstreams h
    have hwriting := writing_of_not_pending htransfers.writing hpending
    unfold Connection.writeBuffers
    rw [if_pos rfl, prepareWrite_eq
      (show (cxn.buildBuffers gone).myEp = some endp from hep) hwriting, ok_bind]
    obtain ⟨cxn', heq, hinv', hreads⟩ :=
      dropMissing_ok (hledger.sent endp .commandWriteDone) hstreaming hwritten (.inl hbusy)
    exact ⟨true, cxn', bind_of heq _, hinv', hreads⟩
  | false =>
    have hnothing := Bool.or_eq_false_iff.mp hdone
    have hcheck : cxn.checkHead = [] := not_not.mp (decide_eq_false_iff_not.mp hnothing.1)
    have htake : cxn.takeHead.filter (!gone ·) = [] :=
      not_not.mp (decide_eq_false_iff_not.mp hnothing.2)
    have hbuilt : Transfers cfg (cxn.buildBuffers gone) endp := by
      unfold Connection.buildBuffers
      rw [hcheck, List.append_nil]
      exact htransfers.queues htransfers.waits fun h => hstreams h
    have hmissing : (cxn.buildBuffers gone).missing ≠ [] := by
      intro hnil
      have hdropped := List.reverse_eq_nil_iff.mp (List.append_eq_nil_iff.mp hnil).1
      have hsplit := List.length_eq_length_filter_add (l := cxn.takeHead) gone
      rw [hdropped, htake] at hsplit
      rw [Connection.writesNeeded, hcheck, List.eq_nil_of_length_eq_zero hsplit] at hneeded
      cases hneeded
    unfold Connection.writeBuffers
    rw [if_neg Bool.false_ne_true]
    obtain ⟨cxn', heq, hinv', hreads⟩ := dropMissing_ok hledger hstreaming hbuilt (.inr hmissing)
    exact ⟨false, cxn', bind_of heq _, hinv', hreads⟩

theorem Inv.mapEp (hinv : Inv cfg quiet missing hand cxn) (hreads : cxn.reads) {f : EndPoint → EndPoint}
    (hf : ∀ endp, (f endp).writing = endp.writing) : Inv cfg quiet missing hand { cxn with myEp := cxn.myEp.map f } := by
  have hpending (endp : EndPoint) : (f endp).writeIsPending = endp.writeIsPending := by
    rw [EndPoint.writeIsPending, EndPoint.writeIsPending, hf]
  refine ⟨{ hinv.ledger with }, hinv.missing, hinv.plain, ?_⟩
  rcases Connection.reads_cases hreads with hstate | hstate | hleaving
  · obtain ⟨endp, h⟩ := hinv.isIdle hstate
    unfold Shape
    rw [hstate]
    exact ⟨f endp, { h with myEp := congrArg (Option.map _) h.myEp, writing := (hf endp).trans h.writing }⟩
  · obtain ⟨endp, h⟩ := hinv.isFeeding hstate
    have hfeeding : IsFeeding cfg { cxn with myEp := cxn.myEp.map f } (f endp) :=
      { h with
        myEp := congrArg (Option.map _) h.myEp
        writing := by rw [hf]; exact h.writing
        waits := by rw [hpending]; exact h.waits
        timed := by rw [Connection.timed, hpending]; exact h.timed
        streams := by rw [hpending]; exact h.streams }
    exact shape_feeding hstate hfeeding
  · obtain ⟨endp, h⟩ := hinv.isLeaving hleaving
    have hleaves : IsLeaving cfg { cxn with myEp := cxn.myEp.map f } (f endp) :=
      { h with
        myEp := congrArg (Option.map _) h.myEp
        writing := by rw [hf]; exact h.writing
        timed := by rw [Connection.timed, hpending]; exact h.timed }
    exact shape_leaving hleaving hleaves

theorem issueQUIT_ok (hinv : Inv cfg quiet missing hand cxn) (hleaving : cxn.leaving)
    (hzero : cxn.articleQTotal = 0) :
    ∃ cxn', cxn.issueQUIT cfg = .ok cxn' ∧ Inv cfg quiet missing hand cxn' ∧
      (cxn'.reads ∨ cxn'.rests) := by
  obtain ⟨endp, h⟩ := hinv.isLeaving hleaving
  have hqueues := hinv.ledger.queues_nil hzero
  unfold Connection.issueQUIT
  rw [assert_bind ⟨hqueues.2.2.1, hqueues.1⟩, hinv.validate]
  split
  · exact ⟨cxn, rfl, hinv, .inl (.inl (.inr hleaving))⟩
  · rw [writeIsPending_eq h.myEp, ok_bind]
    cases hpending : endp.writeIsPending with
    | true =>
      rw [if_pos rfl]
      split
      · have heq := die_eq hinv.valid
        obtain ⟨hinv', hrests, _⟩ := of_die hinv.ledger hinv.missing heq
        exact ⟨_, heq, hinv', .inr hrests⟩
      next hclosing =>
        have hflushing : cxn.state = .cxnFlushingS := hleaving.resolve_right hclosing
        have heq := wait_eq hinv.valid (.inr (.inr (.inr (.inr hflushing))))
        obtain ⟨hinv', hwaits⟩ := of_wait hinv.ledger hinv.missing heq
        exact ⟨_, heq, hinv', .inr (.inr (.inr hwaits))⟩
    | false =>
      have hquit : Transfers cfg { cxn with quitWasIssued := true } endp :=
        .inr ⟨hleaving, { h with }⟩
      have hwrites := hquit.writes .quitWritten rfl
      have hledger := hinv.ledger
      rw [if_neg Bool.false_ne_true,
        prepareWrite_eq hquit.myEp (writing_of_not_pending h.writing hpending)]
      have hnot : cxn.state ≠ .cxnFeedingS := not_feeding_of_leaving hleaving
      exact ⟨_, rfl, ⟨{ hledger with }, hinv.missing, hinv.plain,
        hwrites.shape (fun h => absurd h hnot) fun h => absurd h hnot⟩, .inl hwrites.reads⟩

theorem doSomeWrites_ok (hinv : Inv cfg quiet [] hand cxn) (hreads : cxn.reads)
    (gone : Article → Bool) :
    ∃ cxn', cxn.doSomeWrites cfg gone = .ok cxn' ∧ Inv cfg quiet [] hand cxn' ∧
      (cxn'.reads ∨ cxn'.rests) := by
  obtain ⟨endp, hep, hwriting⟩ := hinv.endPoint hreads
  unfold Connection.doSomeWrites
  rw [writeIsPending_eq hep, ok_bind]
  cases hpending : endp.writeIsPending with
  | true => exact ⟨cxn, rfl, hinv, .inl hreads⟩
  | false =>
    rw [if_neg Bool.false_ne_true]
    by_cases hneeded : cxn.writesNeeded = true
    · obtain ⟨endp', htransfers⟩ := hinv.transfers hreads hneeded
      have hpending' : endp'.writeIsPending = false := by
        rw [← Option.some.inj (hep.symm.trans htransfers.myEp)]
        exact hpending
      rw [if_pos hneeded]
      by_cases hstreaming : cxn.doesStreaming = true
      · obtain ⟨doneSome, cxn', heq, hinv', hreads'⟩ :=
          issueStreamingCommands_ok hinv htransfers hstreaming hneeded hpending' gone
        rw [if_pos hstreaming, heq]
        change ∃ cxn'', (if doneSome then _ else _) = Except.ok cxn'' ∧ _
        split
        · exact ⟨cxn', rfl, hinv', .inl hreads'⟩
        split
        · exact ⟨_, rfl, hinv'.mapEp hreads' fun _ => rfl, .inl hreads'⟩
        split
        next hquit => exact issueQUIT_ok hinv' hquit.2 hquit.1
        · exact ⟨cxn', rfl, hinv', .inl hreads'⟩
      · have hihave := Bool.eq_false_iff.mpr hstreaming
        have hcheck : cxn.checkHead ≠ [] := by
          intro hnil
          rw [Connection.writesNeeded, hnil, (hinv.plain hihave).2.2] at hneeded
          cases hneeded
        obtain ⟨cxn', heq, hinv', hreads'⟩ := issueIHAVE_ok hinv htransfers hihave hcheck hpending'
        rw [if_neg hstreaming, heq]
        exact ⟨cxn', rfl, hinv', .inl hreads'⟩
    · rw [if_neg hneeded]
      split
      next hquit => exact issueQUIT_ok hinv hquit.1 hquit.2
      · exact ⟨cxn, rfl, hinv, .inl hreads⟩

end Inn.Innfeed.Connections
