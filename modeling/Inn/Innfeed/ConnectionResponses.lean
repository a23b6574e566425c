import Inn.Innfeed.ConnectionWrites

/-!
# Responses

What the handlers of the response codes take for granted, and that a response that is
expected in this sense is handled, while one that is not makes an assertion fail. Articles
are not lost in either case.
-/

namespace Inn.Innfeed.Connections

variable {cfg : Config} {quiet : Prop} {missing hand : List Article} {cxn cxn' : Connection}
    {endp : EndPoint} {art : Article}

def Connection.written (cxn : Connection) : Bool := cxn.myEp.all (!·.writeIsPending)

def Connection.canFinish (cxn : Connection) : Prop := cxn.state = .cxnFeedingS → cxn.written = true

def Connection.expectsReply (cfg : Config) (cxn : Connection) (code : Nat) : Prop :=
  match code with
  | 335 => cxn.checkRespHead ≠ [] → cxn.written = true
  | 435 => cxn.checkRespHead ≠ [] → cxn.canFinish
  | 436 =>
    if cxn.takeRespHead = [] ∧ cfg.dropDeferred = true then cxn.checkRespHead ≠ [] → cxn.canFinish
    else (cxn.takeRespHead ≠ [] ∨ cxn.checkRespHead ≠ []) ∧ cxn.canFinish
  | 235 | 437 => cxn.takeRespHead ≠ [] ∧ cxn.canFinish
  | _ => True

/-- A response that the code does not take for impossible. -/
def Connection.expects (cfg : Config) (cxn : Connection) (code : Nat) (response : Octets) : Prop :=
  (cxn.doesStreaming = false → cxn.transfers → cxn.expectsReply cfg code) ∧
    (code = 205 → cxn.leaving → cxn.articleQTotal = 0) ∧
    (code = 439 → cxn.doesStreaming = true → cxn.transfers → cxn.takeRespHead = [] →
      cxn.checkRespHead ≠ [] →
      (getMsgId response).isSome = true)

def Sound (cfg : Config) (quiet : Prop) (cxn : Connection) : Prop :=
    Inv cfg quiet [] [] cxn ∧ cxn.state ≠ .cxnStartingS

theorem Connection.reads_started (hreads : cxn.reads) : cxn.state ≠ .cxnStartingS := by
  rcases hreads with (h | h | h) | h
  all_goals
    rw [h]
    nofun

theorem Connection.rests_started (hrests : cxn.rests) : cxn.state ≠ .cxnStartingS := by
  rcases hrests with h | h | h
  all_goals
    rw [h]
    nofun

theorem sleepOrDie_sound (hinv : Inv cfg quiet [] [] cxn)
    (hstate : cxn.reads ∨ cxn.state = .cxnConnectingS) :
    ∃ cxn', cxn.sleepOrDie cfg = .ok cxn' ∧ Sound cfg quiet cxn' := by
  obtain ⟨cxn', heq, hinv', hrests⟩ := sleepOrDie_ok hinv.valid hinv.ledger hinv.missing hstate
  exact ⟨cxn', heq, hinv', Connection.rests_started hrests⟩

theorem Inv.transferring (hinv : Inv cfg quiet missing hand cxn) (htransfers : cxn.transfers) :
    ∃ endp, Transfers cfg cxn endp := by
  rcases htransfers with hstate | hleaving
  · obtain ⟨endp, h⟩ := hinv.isFeeding hstate
    exact ⟨endp, .inl ⟨hstate, h.toFeeds⟩⟩
  · obtain ⟨endp, h⟩ := hinv.isLeaving hleaving
    exact ⟨endp, .inr ⟨hleaving, h⟩⟩

def Connection.withdraw (cxn : Connection) (queue : RespQueue) (art : Article) : Connection :=
  { cxn.setRespHead ((cxn.respHead queue).erase art) queue
    with articleQTotal := cxn.articleQTotal - 1 }

theorem Ledger.withdraw {queue : RespQueue} (hledger : Ledger quiet hand cxn)
    (hart : art ∈ cxn.respHead queue) :
    Ledger quiet (art :: hand) (cxn.withdraw queue art) := by
  have htotal := hledger.total
  have hpos := List.length_pos_of_mem hart
  have hlength := List.length_erase_of_mem hart
  have hcount (a : Article) : (cxn.respHead queue).count a =
      ((cxn.respHead queue).erase art).count a + if art = a then 1 else 0 := by
    rw [← count_cons_eq, ← (List.perm_cons_erase hart).count_eq]
  cases queue with
  | check =>
    refine ⟨?_, fun a => ?_, hledger.calm⟩
    · change cxn.articleQTotal - 1 = cxn.checkHead.length + (cxn.checkRespHead.erase art).length +
        cxn.takeHead.length +
        cxn.takeRespHead.length
      change (cxn.checkRespHead.erase art).length = cxn.checkRespHead.length - 1 at hlength
      change 0 < cxn.checkRespHead.length at hpos
      omega
    · have hbooks := hledger.books a
      have hmoved : cxn.checkRespHead.count a = (cxn.checkRespHead.erase art).count a +
          if art = a then 1 else 0 := hcount a
      change cxn.taken.count a = cxn.checkHead.count a + (cxn.checkRespHead.erase art).count a +
        cxn.takeHead.count a +
        cxn.takeRespHead.count a + cxn.missing.count a + (cxn.handedBack.map Prod.snd).count a +
          (art :: hand).count a
      rw [count_cons_eq]
      omega
  | take =>
    refine ⟨?_, fun a => ?_, hledger.calm⟩
    · change cxn.articleQTotal - 1 = cxn.checkHead.length + cxn.checkRespHead.length +
        cxn.takeHead.length +
        (cxn.takeRespHead.erase art).length
      change (cxn.takeRespHead.erase art).length = cxn.takeRespHead.length - 1 at hlength
      change 0 < cxn.takeRespHead.length at hpos
      omega
    · have hbooks := hledger.books a
      have hmoved : cxn.takeRespHead.count a = (cxn.takeRespHead.erase art).count a +
          if art = a then 1 else 0 := hcount a
      change cxn.taken.count a = cxn.checkHead.count a + cxn.checkRespHead.count a +
        cxn.takeHead.count a +
        (cxn.takeRespHead.erase art).count a + cxn.missing.count a +
          (cxn.handedBack.map Prod.snd).count a +
        (art :: hand).count a
      rw [count_cons_eq]
      omega

theorem Transfers.withdraw (h : Transfers cfg cxn endp) (queue : RespQueue) (art : Article)
    (hihave : cxn.doesStreaming = false → cxn.articleQTotal ≤ 1) :
    Transfers cfg (cxn.withdraw queue art) endp := by
  have hless : cxn.doesStreaming = false → cxn.articleQTotal - 1 ≤ 1 := fun hstreaming =>
    Nat.le_trans (Nat.sub_le _ _) (hihave hstreaming)
  cases queue with
  | check =>
    refine h.queues (fun hstate htimeout hpending => ?_) hless
    rcases h.waits hstate htimeout hpending with hblocked | ⟨hcheck, htake⟩
    · exact .inl hblocked
    · exact .inr ⟨List.erase_eq_nil_iff.mpr (.inl hcheck), htake⟩
  | take =>
    refine h.queues (fun hstate htimeout hpending => ?_) hless
    rcases h.waits hstate htimeout hpending with hblocked | ⟨hcheck, htake⟩
    · exact .inl hblocked
    · exact .inr ⟨hcheck, List.erase_eq_nil_iff.mpr (.inl htake)⟩

theorem finish_ok {queue : RespQueue} (hinv : Inv cfg quiet [] [] cxn)
    (htransfers : Transfers cfg cxn endp) (hart : art ∈ cxn.respHead queue)
    (hfinish : cxn.state = .cxnFeedingS → cxn.doesStreaming = false → endp.writeIsPending = false)
    (outcome : Outcome) :
    ∃ cxn', Connection.finish cfg queue outcome art cxn = .ok cxn' ∧ Sound cfg quiet cxn' := by
  have htotal := hinv.ledger.total
  have hone : cxn.doesStreaming = false → cxn.articleQTotal ≤ 1 := by
    intro hstreaming
    by_cases hzero : cxn.articleQTotal = 0
    · omega
    · exact Nat.le_of_eq (hinv.one htransfers.transfers hstreaming hzero)
  have hplain : (cxn.withdraw queue art).doesStreaming = false →
      (cxn.withdraw queue art).maxCheck = 1 ∧ (cxn.withdraw queue art).needsChecks = true ∧
        (cxn.withdraw queue art).takeHead = [] := by
    cases queue with
    | check => exact hinv.plain
    | take => exact hinv.plain
  have hmissing : (cxn.withdraw queue art).missing = [] := by
    cases queue with
    | check => exact hinv.missing
    | take => exact hinv.missing
  have hsame : (cxn.withdraw queue art).state = cxn.state ∧
      (cxn.withdraw queue art).doesStreaming = cxn.doesStreaming ∧
      (cxn.withdraw queue art).articleQTotal = cxn.articleQTotal - 1 := by
    cases queue with
    | check => exact ⟨rfl, rfl, rfl⟩
    | take => exact ⟨rfl, rfl, rfl⟩
  obtain ⟨cxn', heq, hinv', hreads'⟩ := idleIfDone_ok (hinv.ledger.withdraw hart) hmissing hplain
    (htransfers.withdraw queue art hone) fun hstate hstreaming => by
      rw [hsame.1] at hstate
      rw [hsame.2.1] at hstreaming
      have hle := hone hstreaming
      rw [hsame.2.2]
      exact ⟨by omega, hfinish hstate hstreaming⟩
  obtain ⟨cxn'', heq', hinv'', hreads''⟩ := articleGone_ok hinv' hreads' outcome
  unfold Connection.finish
  refine ⟨cxn'', ?_, hinv'', Connection.reads_started hreads''⟩
  exact (bind_of heq _).trans heq'

theorem Inv.single (hinv : Inv cfg quiet missing hand cxn) (queue : RespQueue)
    (htransfers : cxn.transfers)
    (hstreaming : cxn.doesStreaming = false) (hqueue : cxn.respHead queue ≠ []) :
    cxn.articleQTotal = 1 ∧ ∃ art, cxn.respHead queue = [art] := by
  have htotal := hinv.ledger.total
  have hpos := List.length_pos_iff.mpr hqueue
  have hle : (cxn.respHead queue).length ≤ cxn.articleQTotal := by
    cases queue with
    | check =>
      change cxn.checkRespHead.length ≤ cxn.articleQTotal
      omega
    | take =>
      change cxn.takeRespHead.length ≤ cxn.articleQTotal
      omega
  have hone := hinv.one htransfers hstreaming (by omega)
  exact ⟨hone, List.length_eq_one_iff.mp (by omega)⟩

theorem finishOnly_eq {queue : RespQueue} (hqueue : cxn.respHead queue = [art])
    (outcome : Outcome) :
    cxn.finishOnly cfg queue outcome = Connection.finish cfg queue outcome art cxn := by
  unfold Connection.finishOnly Connection.finish
  rw [hqueue, List.erase_cons_head]

theorem written_eq (hep : cxn.myEp = some endp) : cxn.written = !endp.writeIsPending := by
  rw [Connection.written, hep, Option.all_some]

theorem finishOnly_ok (queue : RespQueue) (hinv : Inv cfg quiet [] [] cxn)
    (htransfers : cxn.transfers)
    (hstreaming : cxn.doesStreaming = false) (hqueue : cxn.respHead queue ≠ [])
    (hfinish : cxn.canFinish)
    (outcome : Outcome) :
    ∃ cxn', cxn.finishOnly cfg queue outcome = .ok cxn' ∧ Sound cfg quiet cxn' := by
  obtain ⟨endp, h⟩ := hinv.transferring htransfers
  obtain ⟨_, art, hart⟩ := hinv.single queue htransfers hstreaming hqueue
  rw [finishOnly_eq hart]
  refine finish_ok hinv h (by rw [hart]; exact List.mem_singleton_self art)
    (fun hstate _ => ?_) outcome
  have hwritten := hfinish hstate
  rw [written_eq h.myEp, Bool.not_eq_true'] at hwritten
  exact hwritten

theorem articleGone_invalid {outcome : Outcome} (heq : cxn.articleGone cfg outcome art = .ok cxn')
    (hinvalid : cxn.valid cfg = false) : cxn'.valid cfg = false := by
  unfold Connection.articleGone Connection.gimmeArticle at heq
  cases hgives : (cxn.handBack outcome art).gives with
  | nil =>
    rw [hgives] at heq
    cases heq
    exact hinvalid
  | cons arts gives =>
    rw [hgives] at heq
    dsimp only at heq
    cases hfew : arts.take (cxn.handBack outcome art).queueSpace with
    | nil =>
      rw [hfew] at heq
      cases heq
      exact hinvalid
    | cons first rest =>
      rw [hfew] at heq
      split at heq
      next gave cxn'' hgimme =>
        split at hgimme
        next cxn''' hall =>
          obtain ⟨⟨took, cxn4⟩, hqueue, _⟩ := of_bind hall
          obtain ⟨_, hrest⟩ := of_assert_bind hqueue
          obtain ⟨hvalid, _⟩ := of_assert_bind hrest
          exact absurd (hinvalid.symm.trans hvalid) Bool.false_ne_true
        · cases hgimme
      · cases heq

theorem of_finishOnly (queue : RespQueue) {outcome : Outcome} (hinv : Inv cfg quiet [] [] cxn)
    (htransfers : cxn.transfers)
    (hstreaming : cxn.doesStreaming = false) (hqueue : cxn.respHead queue ≠ [])
    (heq : cxn.finishOnly cfg queue outcome = .ok cxn') (hvalid : cxn'.valid cfg = true) :
    cxn.canFinish := by
  intro hstate
  obtain ⟨endp, h⟩ := hinv.transferring htransfers
  obtain ⟨hone, art, hart⟩ := hinv.single queue htransfers hstreaming hqueue
  rw [written_eq h.myEp, Bool.not_eq_true']
  by_contra hpending
  rw [Bool.not_eq_false] at hpending
  have hleft : (cxn.withdraw queue art).state = .cxnFeedingS ∧
      (cxn.withdraw queue art).doesStreaming = false ∧
      (cxn.withdraw queue art).articleQTotal = 0 ∧ (cxn.withdraw queue art).myEp = some endp := by
    have hzero : cxn.articleQTotal - 1 = 0 := by omega
    cases queue with
    | check => exact ⟨hstate, hstreaming, hzero, h.myEp⟩
    | take => exact ⟨hstate, hstreaming, hzero, h.myEp⟩
  have hidle : (cxn.withdraw queue art).idleIfDone cfg = .ok (cxn.withdraw queue art) := by
    unfold Connection.idleIfDone
    rw [if_pos hleft.2.2.1, writeIsPending_eq hleft.2.2.2, ok_bind,
      if_neg (fun hno => by rw [hpending] at hno; cases hno)]
    rfl
  have hinvalid : (cxn.withdraw queue art).valid cfg = false := by
    rw [Connection.valid, hleft.1]
    simp only [hleft.2.2.2, Option.any_some, hleft.2.1, hleft.2.2.1, Bool.false_eq_true, if_false,
      Nat.zero_ne_one, decide_false,
      Bool.false_and, Bool.and_false]
  rw [finishOnly_eq hart] at heq
  unfold Connection.finish at heq
  have hgone : (cxn.withdraw queue art).articleGone cfg outcome art = .ok cxn' :=
    (bind_of hidle _).symm.trans heq
  exact absurd ((articleGone_invalid hgone hinvalid).symm.trans hvalid) Bool.false_ne_true

section Invariant

variable (hinv : Inv cfg quiet [] [] cxn)

include hinv

theorem streamingResponse_ok {queue : RespQueue} {response : Octets}
    {use : Article → Connection → Except Fault Connection} (hreads : cxn.reads)
    (huse : ∀ art endp, cxn.doesStreaming = true → Transfers cfg cxn endp →
      art ∈ cxn.respHead queue →
      ∃ cxn', use art cxn = .ok cxn' ∧ Sound cfg quiet cxn') :
    ∃ cxn', cxn.streamingResponse cfg queue response use = .ok cxn' ∧ Sound cfg quiet cxn' := by
  unfold Connection.streamingResponse
  split
  · exact sleepOrDie_sound hinv (.inl hreads)
  next hmode =>
    obtain ⟨hstreaming, htransfers⟩ := not_or.mp hmode
    obtain ⟨endp, h⟩ := hinv.transferring (not_not.mp htransfers)
    rw [hinv.validate]
    split
    · exact sleepOrDie_sound hinv (.inl hreads)
    split
    · have hsame : cxn.noSuchMessageId cfg = cxn.sleepOrDie cfg := ite_not _ _ _
      rw [hsame]
      exact sleepOrDie_sound hinv (.inl hreads)
    next art hfind =>
      obtain ⟨msgid, _, hfound⟩ := Option.bind_eq_some_iff.mp hfind
      exact huse art endp (Bool.not_eq_false _ ▸ hstreaming) h (List.mem_of_find?_eq_some hfound)

theorem finishStreaming_ok {queue : RespQueue} {response : Octets} (hreads : cxn.reads)
    (outcome : Outcome) :
    ∃ cxn', cxn.streamingResponse cfg queue response (Connection.finish cfg queue outcome) =
      .ok cxn' ∧ Sound cfg quiet cxn' := by
  refine streamingResponse_ok hinv hreads fun art endp hstreaming htransfers hart => ?_
  exact finish_ok hinv htransfers hart (fun _ h => absurd (hstreaming.symm.trans h) Bool.true_eq_false.mp) outcome

theorem processResponse238_ok {response : Octets} (hreads : cxn.reads) :
    ∃ cxn', cxn.processResponse238 cfg response = .ok cxn' ∧ Sound cfg quiet cxn' := by
  refine streamingResponse_ok hinv hreads fun art endp hstreaming htransfers hart => ?_
  have hstreams {p : Prop} (h : cxn.doesStreaming = false) : p :=
    absurd (hstreaming.symm.trans h) Bool.true_eq_false.mp
  have htotal := hinv.ledger.total
  have hpos : 0 < cxn.checkRespHead.length := List.length_pos_of_mem hart
  dsimp only
  split
  next hopen =>
    have hledger : Ledger quiet [] { cxn with checkRespHead := cxn.checkRespHead.erase art, takeHead := cxn.takeHead ++ [art] } := by
      have hmoved : Ledger quiet [art] (cxn.withdraw .check art) := hinv.ledger.withdraw hart
      refine ⟨?_, fun a => ?_, hinv.ledger.calm⟩
      · have hlength := List.length_erase_of_mem hart
        change (cxn.checkRespHead.erase art).length = cxn.checkRespHead.length - 1 at hlength
        simp only [List.length_append, List.length_singleton]
        omega
      · have hbooks := hmoved.books a
        change cxn.taken.count a = cxn.checkHead.count a + (cxn.checkRespHead.erase art).count a +
          cxn.takeHead.count a +
          cxn.takeRespHead.count a + cxn.missing.count a + (cxn.handedBack.map Prod.snd).count a +
            [art].count a at hbooks
        simp only [List.count_append, List.count_nil]
        omega
    have hwanted : Transfers cfg
        { cxn with
          checkRespHead := cxn.checkRespHead.erase art,
          takeHead := cxn.takeHead ++ [art] } endp := by
      refine htransfers.queues (fun hstate htimeout hpending => ?_) fun h => hstreams h
      rcases htransfers.waits hstate htimeout hpending with hblocked | ⟨hcheck, htake⟩
      · exact .inl hblocked
      · exact .inr ⟨List.erase_eq_nil_iff.mpr (.inl hcheck), htake⟩
    have hshape :=
      hwanted.shape (fun _ _ => .inl (show 0 < cxn.articleQTotal by omega)) fun _ h => hstreams h
    exact ⟨_, rfl, ⟨hledger, hinv.missing, fun h => hstreams h, hshape⟩,
      Connection.reads_started hwanted.reads⟩
  next hclosing =>
    have hgone := htransfers.withdraw .check art fun h => hstreams h
    have hnot : cxn.state ≠ .cxnFeedingS := by
      rw [not_not.mp hclosing]
      nofun
    have hshape : Shape cfg (cxn.withdraw .check art) :=
      hgone.shape (fun h => absurd h hnot) fun h => absurd h hnot
    have hledger := (hinv.ledger.withdraw hart).handBack .takenBack
    have hcalm (hquiet : quiet) :
        (cxn.withdraw .check art).offered = [] ∧ (cxn.withdraw .check art).spoiled = false :=
      hinv.ledger.calm hquiet
    exact ⟨_, rfl, ⟨⟨hledger.total, hledger.books, fun h => takeBack_calm (hcalm h)⟩, hinv.missing,
      fun h => hstreams h,
      hshape.retold _ _ _ _ _⟩, Connection.reads_started hreads⟩

theorem processResponse439_ok {response : Octets} (hreads : cxn.reads)
    (hmsgid : cxn.doesStreaming = true → cxn.transfers → cxn.takeRespHead = [] →
      cxn.checkRespHead ≠ [] →
      (getMsgId response).isSome = true) :
    ∃ cxn', cxn.processResponse439 cfg response = .ok cxn' ∧ Sound cfg quiet cxn' := by
  unfold Connection.processResponse439
  split
  next hcheck =>
    obtain ⟨hstreaming, htransfers, htake, hresp⟩ := hcheck
    rw [hinv.validate]
    split
    next hnone =>
      have hsome := hmsgid hstreaming htransfers htake hresp
      rw [hnone] at hsome
      cases hsome
    next msgid _ =>
      split
      · have hsame : cxn.noSuchMessageId cfg = cxn.sleepOrDie cfg := ite_not _ _ _
        rw [hsame]
        exact sleepOrDie_sound hinv (.inl hreads)
      next art hfound =>
        obtain ⟨endp, h⟩ := hinv.transferring htransfers
        exact finish_ok hinv h (List.mem_of_find?_eq_some hfound)
          (fun _ h => absurd (hstreaming.symm.trans h) Bool.true_eq_false.mp) .notWanted
  · exact finishStreaming_ok hinv hreads .rejected

omit hinv in
theorem of_processResponse439 {response : Octets}
    (heq : cxn.processResponse439 cfg response = .ok cxn')
    (hstreaming : cxn.doesStreaming = true) (htransfers : cxn.transfers)
    (htake : cxn.takeRespHead = [])
    (hresp : cxn.checkRespHead ≠ []) : (getMsgId response).isSome = true := by
  unfold Connection.processResponse439 at heq
  rw [if_pos ⟨hstreaming, htransfers, htake, hresp⟩] at heq
  obtain ⟨_, hrest⟩ := of_assert_bind heq
  cases hmsgid : getMsgId response with
  | none =>
    rw [hmsgid] at hrest
    cases hrest
  | some msgid => rfl

theorem ihaveResponse_ok {use : Connection → Except Fault Connection} (hreads : cxn.reads)
    (huse : cxn.doesStreaming = false → cxn.transfers → ∃ cxn', use cxn = .ok cxn' ∧
      Sound cfg quiet cxn') :
    ∃ cxn', cxn.ihaveResponse cfg use = .ok cxn' ∧ Sound cfg quiet cxn' := by
  unfold Connection.ihaveResponse
  split
  · exact sleepOrDie_sound hinv (.inl hreads)
  next hmode =>
    obtain ⟨hstreaming, htransfers⟩ := not_or.mp hmode
    exact huse (Bool.eq_false_iff.mpr hstreaming) (not_not.mp htransfers)

omit hinv in
theorem of_ihaveResponse {use : Connection → Except Fault Connection}
    (heq : cxn.ihaveResponse cfg use = .ok cxn')
    (hstreaming : cxn.doesStreaming = false) (htransfers : cxn.transfers) : use cxn = .ok cxn' := by
  unfold Connection.ihaveResponse at heq
  rw [if_neg fun hmode => hmode.elim (fun h => absurd (hstreaming.symm.trans h) Bool.false_ne_true)
    fun h => h htransfers] at heq
  exact heq

theorem bodyResponse_ok {outcome : Outcome} (hreads : cxn.reads)
    (hexpects : cxn.doesStreaming = false → cxn.transfers → cxn.takeRespHead ≠ [] ∧ cxn.canFinish) :
    ∃ cxn', cxn.bodyResponse cfg outcome = .ok cxn' ∧ Sound cfg quiet cxn' := by
  refine ihaveResponse_ok hinv hreads fun hstreaming htransfers => ?_
  obtain ⟨hqueue, hfinish⟩ := hexpects hstreaming htransfers
  rw [assert_bind (hinv.single .take htransfers hstreaming hqueue).1, assert_bind hqueue,
    hinv.validate]
  exact finishOnly_ok .take hinv htransfers hstreaming hqueue hfinish outcome

theorem of_bodyResponse {outcome : Outcome} (heq : cxn.bodyResponse cfg outcome = .ok cxn')
    (hvalid : cxn'.valid cfg = true) (hstreaming : cxn.doesStreaming = false)
    (htransfers : cxn.transfers) :
    cxn.takeRespHead ≠ [] ∧ cxn.canFinish := by
  obtain ⟨_, hrest⟩ := of_assert_bind (of_ihaveResponse heq hstreaming htransfers)
  obtain ⟨hqueue, hrest⟩ := of_assert_bind hrest
  obtain ⟨_, hfinish⟩ := of_assert_bind hrest
  exact ⟨hqueue, of_finishOnly .take hinv htransfers hstreaming hqueue hfinish hvalid⟩

theorem processResponse335_ok (hreads : cxn.reads)
    (hexpects : cxn.doesStreaming = false → cxn.transfers → cxn.checkRespHead ≠ [] →
      cxn.written = true) :
    ∃ cxn', cxn.processResponse335 cfg = .ok cxn' ∧ Sound cfg quiet cxn' := by
  refine ihaveResponse_ok hinv hreads fun hstreaming htransfers => ?_
  split
  · exact sleepOrDie_sound hinv (.inl hreads)
  next hqueue =>
    obtain ⟨endp, h⟩ := hinv.transferring htransfers
    have htotal := hinv.ledger.total
    have htake := (hinv.plain hstreaming).2.2
    have hone := (hinv.single .check htransfers hstreaming hqueue).1
    have hpos := List.length_pos_iff.mpr hqueue
    have hnone : cxn.takeRespHead = [] := List.eq_nil_of_length_eq_zero (by omega)
    have hwritten := hexpects hstreaming htransfers hqueue
    rw [written_eq h.myEp, Bool.not_eq_true'] at hwritten
    have hledger :
        Ledger quiet [] { cxn with takeHead := cxn.checkRespHead, checkRespHead := [] } := by
      refine ⟨?_, fun a => ?_, hinv.ledger.calm⟩
      · rw [htake] at htotal
        simp only [List.length_nil] at htotal ⊢
        omega
      · have hbooks := hinv.ledger.books a
        rw [htake] at hbooks
        simp only [List.count_nil] at hbooks ⊢
        omega
    have hmoved :
        Transfers cfg { cxn with takeHead := cxn.checkRespHead, checkRespHead := [] } endp :=
      h.queues (fun _ _ _ => .inr ⟨rfl, hnone⟩) fun _ => Nat.le_of_eq hone
    rw [hinv.validate]
    obtain ⟨cxn', heq, hinv', hreads'⟩ := issueIHAVEBody_ok hledger hinv.missing
      ⟨(hinv.plain hstreaming).1,
        (hinv.plain hstreaming).2.1⟩ hmoved hstreaming hone hqueue hwritten
    exact ⟨cxn', heq, hinv', Connection.reads_started hreads'⟩

theorem of_processResponse335 (heq : cxn.processResponse335 cfg = .ok cxn')
    (hstreaming : cxn.doesStreaming = false) (htransfers : cxn.transfers)
    (hqueue : cxn.checkRespHead ≠ []) :
    cxn.written = true := by
  obtain ⟨endp, h⟩ := hinv.transferring htransfers
  have huse := of_ihaveResponse heq hstreaming htransfers
  rw [if_neg hqueue] at huse
  obtain ⟨_, hbody⟩ := of_assert_bind huse
  obtain ⟨_, hrest⟩ := of_assert_bind hbody
  obtain ⟨_, hrest⟩ := of_assert_bind hrest
  obtain ⟨_, hwrite, _⟩ := of_bind hrest
  rw [written_eq h.myEp]
  unfold Connection.prepareWrite at hwrite
  rw [h.myEp] at hwrite
  dsimp only at hwrite
  split at hwrite
  · cases hwrite
  next hnone =>
    rw [writeIsPending_none (Option.not_isSome_iff_eq_none.mp hnone)]
    rfl

theorem processResponse435_ok (hreads : cxn.reads)
    (hexpects : cxn.doesStreaming = false → cxn.transfers → cxn.checkRespHead ≠ [] →
      cxn.canFinish) :
    ∃ cxn', cxn.processResponse435 cfg = .ok cxn' ∧ Sound cfg quiet cxn' := by
  refine ihaveResponse_ok hinv hreads fun hstreaming htransfers => ?_
  split
  · exact sleepOrDie_sound hinv (.inl hreads)
  next hqueue =>
    rw [assert_bind (hinv.single .check htransfers hstreaming hqueue).1, hinv.validate]
    exact finishOnly_ok .check hinv htransfers hstreaming hqueue
      (hexpects hstreaming htransfers hqueue) .notWanted

theorem of_processResponse435 (heq : cxn.processResponse435 cfg = .ok cxn')
    (hvalid : cxn'.valid cfg = true) (hstreaming : cxn.doesStreaming = false)
    (htransfers : cxn.transfers) (hqueue : cxn.checkRespHead ≠ []) : cxn.canFinish := by
  have huse := of_ihaveResponse heq hstreaming htransfers
  rw [if_neg hqueue] at huse
  obtain ⟨_, hrest⟩ := of_assert_bind huse
  obtain ⟨_, hfinish⟩ := of_assert_bind hrest
  exact of_finishOnly .check hinv htransfers hstreaming hqueue hfinish hvalid

omit hinv in
theorem deferred_queue (hqueues : cxn.takeRespHead ≠ [] ∨ cxn.checkRespHead ≠ []) :
    cxn.respHead (if cxn.takeRespHead ≠ [] then .take else .check) ≠ [] := by
  split
  next htake => exact htake
  next htake => exact hqueues.resolve_left htake

theorem processResponse436_ok (hreads : cxn.reads)
    (hexpects : cxn.doesStreaming = false → cxn.transfers →
      (cxn.takeRespHead ≠ [] ∨ cxn.checkRespHead ≠ []) ∧ cxn.canFinish) :
    ∃ cxn', cxn.processResponse436 cfg = .ok cxn' ∧ Sound cfg quiet cxn' := by
  refine ihaveResponse_ok hinv hreads fun hstreaming htransfers => ?_
  obtain ⟨hqueues, hfinish⟩ := hexpects hstreaming htransfers
  have hqueue := deferred_queue hqueues
  rw [assert_bind (hinv.single _ htransfers hstreaming hqueue).1, assert_bind hqueues,
    hinv.validate]
  exact finishOnly_ok _ hinv htransfers hstreaming hqueue hfinish .deferred

theorem of_processResponse436 (heq : cxn.processResponse436 cfg = .ok cxn')
    (hvalid : cxn'.valid cfg = true) (hstreaming : cxn.doesStreaming = false)
    (htransfers : cxn.transfers) :
    (cxn.takeRespHead ≠ [] ∨ cxn.checkRespHead ≠ []) ∧ cxn.canFinish := by
  obtain ⟨_, hrest⟩ := of_assert_bind (of_ihaveResponse heq hstreaming htransfers)
  obtain ⟨hqueues, hrest⟩ := of_assert_bind hrest
  obtain ⟨_, hfinish⟩ := of_assert_bind hrest
  exact ⟨hqueues, of_finishOnly _ hinv htransfers hstreaming
    (deferred_queue hqueues) hfinish hvalid⟩

theorem processResponse400_ok (hreads : cxn.reads) :
    ∃ cxn', cxn.processResponse400 cfg = .ok cxn' ∧ Sound cfg quiet cxn' := by
  obtain ⟨endp, hep, _⟩ := hinv.endPoint hreads
  unfold Connection.processResponse400
  rw [if_neg (not_not.mpr hreads), hinv.validate, writeIsPending_eq hep, ok_bind]
  cases hpending : endp.writeIsPending with
  | true =>
    rw [if_pos rfl]
    exact sleepOrDie_sound hinv (.inl hreads)
  | false =>
    rw [if_neg Bool.false_ne_true]
    split
    next hmore =>
      have htransfers : cxn.transfers := by
        refine hreads.resolve_right fun hidle => ?_
        obtain ⟨_, h⟩ := hinv.isIdle hidle
        rw [h.total] at hmore
        exact absurd hmore (Nat.lt_irrefl 0)
      obtain ⟨endp', h⟩ := hinv.transferring htransfers
      cases hep.symm.trans h.myEp
      have hempty : Ledger quiet [] (cxn.emptied cfg) := hinv.ledger.emptied
      have hledger : Ledger quiet [] { cxn.emptied cfg with readBlockedTimer := false } :=
        { hempty with }
      have hunblocked : Transfers cfg { cxn.emptied cfg with readBlockedTimer := false } endp := by
        rcases h with ⟨hstate, h⟩ | ⟨hleaving, h⟩
        · exact .inl ⟨hstate, { h with waits := fun _ _ => .inr ⟨rfl, rfl⟩, readTimer := nofun }⟩
        · exact .inr ⟨hleaving, { h with ihave := fun _ => Nat.zero_le 1 }⟩
      have hplain : cxn.doesStreaming = false → cxn.maxCheck = 1 ∧ cxn.needsChecks = true ∧
          ([] : List Article) = [] :=
        fun hstreaming => ⟨(hinv.plain hstreaming).1, (hinv.plain hstreaming).2.1, rfl⟩
      obtain ⟨cxn', heq, hinv', hreads'⟩ :=
        idle_ok hledger hinv.missing hplain hunblocked rfl hpending
      rw [deferAllArticles_eq hinv.ledger.total, ok_bind, heq, ok_bind]
      exact sleepOrDie_sound hinv' (.inl hreads')
    · exact sleepOrDie_sound hinv (.inl hreads)

omit hinv in
theorem shape_connecting (hstate : cxn.state = .cxnConnectingS) (h : IsConnecting cfg cxn endp) :
    Shape cfg cxn := by
  unfold Shape
  rw [hstate]
  exact ⟨endp, h⟩

theorem connectionDone_ok (hstate : cxn.state = .cxnConnectingS)
    (h : IsConnecting cfg cxn endp) (hwriting : endp.writing = none) (ok : Bool) :
    ∃ cxn', Connection.connectionDone cfg ok cxn = .ok cxn' ∧ Sound cfg quiet cxn' := by
  unfold Connection.connectionDone
  rw [assert_bind hstate, writeIsPending_eq h.myEp, ok_bind,
    assert_bind (writeIsPending_none hwriting)]
  cases ok with
  | true =>
    have hnot : (cxn.prepareRead .getBanner).state ≠ .cxnIdleS := by
      change cxn.state ≠ .cxnIdleS
      rw [hstate]
      nofun
    have hledger := hinv.ledger
    have hconnecting : IsConnecting cfg { cxn.prepareRead .getBanner with
        readBlockedTimer := 0 < cfg.readTimeout, flushTimer := cxn.flushTimer || 0 <
          cfg.flushTimeout }
        { endp with reading := some .getBanner } :=
      { h with
        myEp := congrArg (Option.map _) h.myEp
        banner := fun _ => by rw [hwriting]; nofun
        reading := nofun }
    have hinv' : Inv cfg quiet [] [] { cxn.prepareRead .getBanner with
        readBlockedTimer := 0 < cfg.readTimeout, flushTimer := cxn.flushTimer || 0 <
          cfg.flushTimeout } :=
      ⟨{ hledger with }, hinv.missing, hinv.plain,
        shape_connecting hstate hconnecting⟩
    unfold Connection.initReadBlockedTimeout
    rw [if_pos rfl, assert_bind hnot]
    refine ⟨_, assert_bind hinv'.valid _, hinv', ?_⟩
    change cxn.state ≠ .cxnStartingS
    rw [hstate]
    nofun
  | false =>
    obtain ⟨cxn', heq, hsound⟩ := sleepOrDie_sound hinv (.inr hstate)
    rw [if_neg Bool.false_ne_true, heq, ok_bind]
    exact ⟨cxn', hsound.1.validate _, hsound⟩

omit hinv in
theorem connect_ok (hledger : Ledger quiet [] cxn) (hmissing : cxn.missing = [])
    (hep : cxn.myEp = none)
    (hplain : cxn.doesStreaming = false ∧ cxn.maxCheck = 1 ∧ cxn.needsChecks = true ∧
      cxn.takeHead = [])
    (hstate : cxn.state = .cxnStartingS ∨ cxn.state = .cxnWaitingS ∨
        cxn.state = .cxnFlushingS ∨ cxn.state = .cxnSleepingS)
    (htotal : cxn.articleQTotal = if cxn.state = .cxnWaitingS then 1 else 0)
    (hqueues : cxn.checkRespHead = [] ∧ cxn.takeRespHead = [])
    (htimers : cxn.artReceiptTimer = false ∧
        cxn.writeBlockedTimer = false ∧ cxn.sleepTimer = false) (env : Env) :
    ∃ connecting cxn', cxn.connect cfg env = .ok (connecting, cxn') ∧ Sound cfg quiet cxn' := by
  have hfew : cxn.articleQTotal ≤ 1 := by
    rw [htotal]
    split <;> decide
  have hconnecting (writing : Option WriteCbk) (hwriting : writing = none ∨
      writing = some .connectionDone) :
      IsConnecting cfg { cxn with state := .cxnConnectingS, myEp := some ⟨none, writing, false⟩ }
        ⟨none, writing, false⟩ := by
    refine ⟨rfl, hplain.1, hfew, hqueues, htimers.1, htimers.2.2, ?_, rfl,
      fun h => absurd rfl h, by rintro ⟨⟩⟩
    rw [Connection.timed]
    rcases hwriting with rfl | rfl
    · exact htimers.2.1.trans (Bool.and_false _).symm
    · exact htimers.2.1.trans (Bool.and_false _).symm
  have hinv (writing : Option WriteCbk) (hwriting : writing = none ∨ writing = some .connectionDone) :
      Inv cfg quiet [] [] { cxn with state := .cxnConnectingS, myEp := some ⟨none, writing, false⟩ } :=
    ⟨{ hledger with }, hmissing, fun _ => hplain.2,
      ⟨_, hconnecting writing hwriting⟩⟩
  unfold Connection.connect
  rw [assert_bind hep, if_neg (not_not.mpr hstate), assert_bind htotal]
  cases env.connecting with
  | fails =>
    have hvalid : ({ cxn with state := .cxnConnectingS } : Connection).valid cfg = true :=
      (hinv none (.inl rfl)).valid
    have hledger' : Ledger quiet [] { cxn with state := .cxnConnectingS } :=
      { hledger with }
    obtain ⟨cxn', heq, hinv', hrests⟩ := sleepOrDie_ok hvalid hledger' hmissing (.inr rfl)
    exact ⟨_, cxn', bind_of heq _, hinv', Connection.rests_started hrests⟩
  | inProgress => exact ⟨_, _, rfl, hinv _ (.inr rfl), by rintro ⟨⟩⟩
  | isDone ok =>
    obtain ⟨cxn', heq, hsound⟩ :=
      connectionDone_ok (hinv none (.inl rfl)) rfl (hconnecting none (.inl rfl)) rfl ok
    exact ⟨_, cxn', bind_of heq _, hsound⟩

theorem depart_ok (env : Env) : ∃ cxn', cxn.depart cfg env = .ok cxn' ∧ Sound cfg quiet cxn' := by
  unfold Connection.depart
  split
  next hflush =>
    have hledger : Ledger quiet [] (cxn.aborted cfg) := aborted_ledger hinv.ledger
    rw [abort_eq hinv.valid, ok_bind]
    have hstate : (cxn.aborted cfg).state = .cxnFlushingS := hflush.1
    have hzero : (cxn.aborted cfg).articleQTotal =
        if (cxn.aborted cfg).state = .cxnWaitingS then 1 else 0 := by
      rw [hstate]
      rfl
    have hconnect : ∃ connecting cxn', (cxn.aborted cfg).connect cfg env = .ok (connecting, cxn') ∧
        Sound cfg quiet cxn' :=
      connect_ok hledger hinv.missing rfl ⟨rfl, rfl, rfl, rfl⟩ (.inr (.inr (.inl hstate)))
        hzero ⟨rfl, rfl⟩ ⟨rfl, rfl, rfl⟩ env
    obtain ⟨connecting, cxn', heq, hsound⟩ := hconnect
    exact ⟨cxn', bind_of heq _, hsound⟩
  split
  next hstate =>
    have heq := wait_eq hinv.valid (.inr (.inr (.inr (.inr hstate))))
    obtain ⟨hinv', hwaits⟩ := of_wait hinv.ledger hinv.missing heq
    exact ⟨_, heq, hinv', Connection.rests_started (.inr (.inr hwaits))⟩
  · have heq := die_eq hinv.valid
    obtain ⟨hinv', hrests, _⟩ := of_die hinv.ledger hinv.missing heq
    exact ⟨_, heq, hinv', Connection.rests_started hrests⟩

theorem processResponse205_ok (hreads : cxn.reads)
    (hexpects : cxn.leaving → cxn.articleQTotal = 0) (env : Env) :
    ∃ cxn', cxn.processResponse205 cfg env = .ok cxn' ∧ Sound cfg quiet cxn' := by
  unfold Connection.processResponse205
  rw [hinv.validate]
  split
  next hleaving =>
    rw [assert_bind (hexpects hleaving)]
    exact depart_ok hinv env
  · exact sleepOrDie_sound hinv (.inl hreads)

theorem processResponse503_ok (hreads : cxn.reads) (env : Env) :
    ∃ cxn', cxn.processResponse503 cfg env = .ok cxn' ∧ Sound cfg quiet cxn' := by
  unfold Connection.processResponse503
  rw [hinv.validate, if_pos hreads]
  exact depart_ok hinv env

theorem dispatch_ok (hreads : cxn.reads) (env : Env) {code : Nat} {response : Octets}
    (hexpects : cxn.expects cfg code response) :
    ∃ cxn', cxn.dispatch cfg env code response = .ok cxn' ∧ Sound cfg quiet cxn' := by
  obtain ⟨hreply, hquit, hmsgid⟩ := hexpects
  unfold Connection.dispatch
  split
  · exact processResponse205_ok hinv hreads (hquit rfl) env
  · exact processResponse238_ok hinv hreads
  · split
    · exact finishStreaming_ok hinv hreads .notWanted
    · exact finishStreaming_ok hinv hreads .deferred
  · exact finishStreaming_ok hinv hreads .notWanted
  · exact finishStreaming_ok hinv hreads .accepted
  · exact processResponse439_ok hinv hreads (hmsgid rfl)
  · exact processResponse335_ok hinv hreads hreply
  · exact processResponse435_ok hinv hreads hreply
  · split
    next hdrop =>
      refine processResponse435_ok hinv hreads fun hstreaming htransfers => ?_
      have hexpects := hreply hstreaming htransfers
      unfold Connection.expectsReply at hexpects
      rw [if_pos hdrop] at hexpects
      exact hexpects
    next hdrop =>
      refine processResponse436_ok hinv hreads fun hstreaming htransfers => ?_
      have hexpects := hreply hstreaming htransfers
      unfold Connection.expectsReply at hexpects
      rw [if_neg hdrop] at hexpects
      exact hexpects
  · exact bodyResponse_ok hinv hreads hreply
  · exact processResponse400_ok hinv hreads
  · exact bodyResponse_ok hinv hreads hreply
  · refine ihaveResponse_ok hinv hreads fun _ _ => ?_
    rw [hinv.validate]
    exact sleepOrDie_sound hinv (.inl hreads)
  · exact processResponse503_ok hinv hreads env
  · exact sleepOrDie_sound hinv (.inl hreads)

theorem of_dispatch {env : Env} {code : Nat} {response : Octets}
    (heq : cxn.dispatch cfg env code response = .ok cxn') (hvalid : cxn'.valid cfg = true) :
    cxn.expects cfg code response := by
  refine ⟨fun hstreaming htransfers => ?_, ?_, ?_⟩
  · unfold Connection.expectsReply
    split
    · exact of_processResponse335 hinv heq hstreaming htransfers
    · exact of_processResponse435 hinv heq hvalid hstreaming htransfers
    · change (if _ then _ else _) = Except.ok cxn' at heq
      split
      next hdrop =>
        rw [if_pos hdrop] at heq
        exact of_processResponse435 hinv heq hvalid hstreaming htransfers
      next hdrop =>
        rw [if_neg hdrop] at heq
        exact of_processResponse436 hinv heq hvalid hstreaming htransfers
    · exact of_bodyResponse hinv heq hvalid hstreaming htransfers
    · exact of_bodyResponse hinv heq hvalid hstreaming htransfers
    · trivial
  · rintro rfl hleaving
    obtain ⟨_, hrest⟩ := of_assert_bind heq
    rw [if_pos hleaving] at hrest
    exact (of_assert_bind hrest).1
  · rintro rfl hstreaming htransfers htake hresp
    exact of_processResponse439 heq hstreaming htransfers htake hresp

def Connection.expectsAll (cfg : Config) (env : Env) : List Octets → Connection → Prop
  | [], _ => True
  | response :: rest, cxn =>
    match getNntpResponse response with
    | none => True
    | some (code, _) =>
      cxn.expects cfg code response ∧
        ∀ cxn', cxn.dispatch cfg env code response = .ok cxn' → cxn'.reads →
          cxn'.expectsAll cfg env rest

theorem handleResponses_ok {env : Env} {lines : List Octets} (hreads : cxn.reads)
    (hexpects : cxn.expectsAll cfg env lines) :
    ∃ malformed cxn', cxn.handleResponses cfg env lines = .ok (malformed, cxn') ∧
      Sound cfg quiet cxn' := by
  induction lines generalizing cxn with
  | nil => exact ⟨false, cxn, rfl, hinv, Connection.reads_started hreads⟩
  | cons response rest ih =>
    unfold Connection.handleResponses
    unfold Connection.expectsAll at hexpects
    split
    · obtain ⟨cxn', heq, hsound⟩ := sleepOrDie_sound hinv (.inl hreads)
      exact ⟨true, cxn', bind_of heq _, hsound⟩
    next code text hcode =>
      rw [hcode] at hexpects
      obtain ⟨cxn', heq, hsound⟩ := dispatch_ok hinv hreads env hexpects.1
      rw [heq, ok_bind, hsound.1.validate]
      split
      next hreads' => exact ih hsound.1 hreads' (hexpects.2 cxn' heq hreads')
      · exact ⟨false, cxn', rfl, hsound⟩

theorem of_handleResponses {env : Env} {lines : List Octets} {malformed : Bool}
    (hreads : cxn.reads) (heq : cxn.handleResponses cfg env lines = .ok (malformed, cxn')) :
    cxn.expectsAll cfg env lines := by
  induction lines generalizing cxn with
  | nil => trivial
  | cons response rest ih =>
    unfold Connection.handleResponses at heq
    unfold Connection.expectsAll
    split
    · trivial
    next code text hcode =>
      rw [hcode] at heq
      obtain ⟨next, hdispatch, hrest⟩ := of_bind heq
      obtain ⟨hvalid, hrest⟩ := of_assert_bind hrest
      have hexpects := of_dispatch hinv hdispatch hvalid
      refine ⟨hexpects, fun cxn'' heq'' hreads'' => ?_⟩
      cases hdispatch.symm.trans heq''
      rw [if_pos hreads''] at hrest
      obtain ⟨_, hok, hsound⟩ := dispatch_ok hinv hreads env hexpects
      cases hdispatch.symm.trans hok
      exact ih hsound.1 hreads'' hrest

end Invariant

end Inn.Innfeed.Connections
