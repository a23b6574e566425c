import Inn.Innfeed.ConnectionEvents

/-!
# The states of a connection

What is true of a connection in each of its states, and how the functions that change the
state keep the account of the articles: each that the host has given is in a queue, in the
missing list, in a local variable, or the host has been told of it.
-/

namespace Inn.Innfeed.Connections

section Faults

variable {α β : Type}

theorem assert_bind {c : Prop} [Decidable c] (h : c) (f : Unit → Except Fault α) :
    (ASSERT c >>= f) = f () := by
  rw [ASSERT, if_pos h]
  rfl

theorem of_assert_bind {c : Prop} [Decidable c] {f : Unit → Except Fault α} {a : α}
    (h : (ASSERT c >>= f) = .ok a) :
    c ∧ f () = .ok a := by
  by_cases hc : c
  · exact ⟨hc, by rw [← assert_bind hc f]; exact h⟩
  · rw [ASSERT, if_neg hc] at h
    cases h

theorem ok_bind (b : β) (f : β → Except Fault α) :
    ((Except.ok b : Except Fault β) >>= f) = f b := rfl

theorem bind_of {x : Except Fault β} {b : β} (h : x = .ok b) (f : β → Except Fault α) :
    (x >>= f) = f b := by
  rw [h, ok_bind]

theorem of_bind {x : Except Fault β} {f : β → Except Fault α} {a : α} (h : (x >>= f) = .ok a) :
    ∃ b, x = .ok b ∧ f b = .ok a := by
  cases x with
  | error fault => cases h
  | ok b => exact ⟨b, rfl, h⟩

end Faults

section Ledger

/-- Each article is in one place, and the total is that of the queues. -/
structure Ledger (quiet : Prop) (hand : List Article) (cxn : Connection) : Prop where
  total : cxn.articleQTotal =
    cxn.checkHead.length + cxn.checkRespHead.length + cxn.takeHead.length + cxn.takeRespHead.length
  books : ∀ a, cxn.taken.count a = cxn.checkHead.count a + cxn.checkRespHead.count a +
    cxn.takeHead.count a +
    cxn.takeRespHead.count a + cxn.missing.count a +
      (cxn.handedBack.map Prod.snd).count a + hand.count a
  calm : quiet → cxn.offered = [] ∧ cxn.spoiled = false

variable {cfg : Config} {quiet : Prop} {hand : List Article} {cxn : Connection}

theorem count_cons_eq (a b : Article) (l : List Article) :
    (a :: l).count b = l.count b + if a = b then 1 else 0 := by
  rw [List.count_cons]
  congr 1
  exact if_congr beq_iff_eq rfl rfl

def tellBack (arts : List Article) (handedBack : List (Outcome × Article)) :
    List (Outcome × Article) :=
  arts.foldl (fun told art => (.takenBack, art) :: told) handedBack

theorem count_tellBack (arts : List Article) (handedBack : List (Outcome × Article)) (a : Article) :
    ((tellBack arts handedBack).map Prod.snd).count a = arts.count a +
    (handedBack.map Prod.snd).count a := by
  induction arts generalizing handedBack with
  | nil => exact (Nat.zero_add _).symm
  | cons art arts ih =>
    change ((tellBack arts ((.takenBack, art) :: handedBack)).map Prod.snd).count a = _
    rw [ih, List.map_cons, count_cons_eq, count_cons_eq]
    dsimp only
    omega

/-- Whether the queues are spoiled when these articles have been given back. -/
def Connection.spoils (cfg : Config) (freed : Bool) (arts : List Article)
    (cxn : Connection) : Bool :=
  (cxn.takeBackAll cfg freed arts).spoiled

theorem takeBackAll_eq (freed : Bool) (arts : List Article) (cxn : Connection) :
    cxn.takeBackAll cfg freed arts =
      { cxn with
        handedBack := tellBack arts cxn.handedBack
        articleQTotal := cxn.articleQTotal - arts.length
        spoiled := cxn.spoils cfg freed arts } := by
  unfold Connection.spoils
  induction arts generalizing freed cxn with
  | nil => rfl
  | cons art arts ih =>
    unfold Connection.takeBackAll
    rw [ih, List.length_cons, Nat.add_comm, ← Nat.sub_sub]
    rfl

theorem takeBack_calm {freed : Bool} {art : Article}
    (hcalm : cxn.offered = [] ∧ cxn.spoiled = false) :
    (cxn.takeBack cfg freed art).offered = [] ∧ (cxn.takeBack cfg freed art).spoiled = false := by
  refine ⟨hcalm.1, ?_⟩
  change (cxn.spoiled || (decide (art ∈ cxn.offered) && _)) = false
  rw [hcalm.2, hcalm.1, decide_eq_false List.not_mem_nil]
  rfl

theorem spoils_calm {freed : Bool} {arts : List Article} (hoffered : cxn.offered = [])
    (hspoiled : cxn.spoiled = false) :
    cxn.spoils cfg freed arts = false := by
  unfold Connection.spoils
  induction arts generalizing freed cxn with
  | nil => exact hspoiled
  | cons art arts ih => exact ih hoffered (takeBack_calm ⟨hoffered, hspoiled⟩).2

def Connection.walked (cfg : Config) (cxn : Connection) : Bool :=
  match cxn.deferAllArticles cfg with
  | .ok cxn => cxn.spoiled
  | .error _ => cxn.spoiled

def Connection.emptied (cfg : Config) (cxn : Connection) : Connection :=
  { cxn with
    spoiled := cxn.walked cfg
    checkHead := []
    checkRespHead := []
    takeHead := []
    takeRespHead := []
    articleQTotal := 0
    handedBack := tellBack cxn.takeRespHead (tellBack cxn.takeHead (tellBack cxn.checkRespHead
      (tellBack cxn.checkHead cxn.handedBack))) }

theorem deferAllArticles_eq (htotal : cxn.articleQTotal =
      cxn.checkHead.length + cxn.checkRespHead.length + cxn.takeHead.length +
        cxn.takeRespHead.length) :
    cxn.deferAllArticles cfg = .ok (cxn.emptied cfg) := by
  have hzero :
      cxn.articleQTotal - cxn.checkHead.length - cxn.checkRespHead.length - cxn.takeHead.length -
      cxn.takeRespHead.length = 0 := by omega
  obtain ⟨spoiled, heq⟩ : ∃ spoiled,
      cxn.deferAllArticles cfg = .ok { cxn.emptied cfg with spoiled := spoiled } := by
    unfold Connection.deferAllArticles
    simp only [takeBackAll_eq]
    rw [assert_bind hzero, hzero]
    exact ⟨_, rfl⟩
  have hwalked : cxn.walked cfg = spoiled := by rw [Connection.walked, heq]
  rw [heq, ← hwalked]
  rfl

theorem deferAllArticles_calm (hoffered : cxn.offered = []) (hspoiled : cxn.spoiled = false) :
    cxn.walked cfg = false := by
  unfold Connection.walked
  split
  next cxn' heq =>
    unfold Connection.deferAllArticles at heq
    simp only [takeBackAll_eq] at heq
    obtain ⟨_, hrest⟩ := of_assert_bind heq
    cases hrest
    iterate 4 refine spoils_calm hoffered ?_
    exact hspoiled
  · exact hspoiled

theorem Ledger.emptied (hledger : Ledger quiet hand cxn) : Ledger quiet hand (cxn.emptied cfg) where
  total := rfl
  calm := fun hquiet =>
    have hcalm := hledger.calm hquiet
    ⟨hcalm.1, deferAllArticles_calm hcalm.1 hcalm.2⟩
  books := fun a => by
    rw [Connection.emptied]
    simp only [count_tellBack, List.count_nil]
    have hbooks := hledger.books a
    omega

theorem Ledger.handBack {art : Article} (hledger : Ledger quiet (art :: hand) cxn)
    (outcome : Outcome) :
    Ledger quiet hand (cxn.handBack outcome art) where
  total := hledger.total
  calm := hledger.calm
  books := fun a => by
    have hbooks := hledger.books a
    rw [count_cons_eq] at hbooks
    change cxn.taken.count a = cxn.checkHead.count a + cxn.checkRespHead.count a +
      cxn.takeHead.count a +
      cxn.takeRespHead.count a + cxn.missing.count a +
        (art :: cxn.handedBack.map Prod.snd).count a + hand.count a
    rw [count_cons_eq]
    omega

end Ledger

section Shape

def Connection.timed (cfg : Config) (cxn : Connection) (endp : EndPoint) : Prop :=
  cxn.writeBlockedTimer = (decide (0 < cfg.writeTimeout) && endp.writeIsPending)

def WriteCbk.feeds : WriteCbk → Bool
  | .commandWriteDone | .ihaveBodyDone | .quitWritten => true
  | _ => false

/-- A connection without an endpoint and without articles. -/
structure Off (cxn : Connection) : Prop where
  myEp : cxn.myEp = none
  streaming : cxn.doesStreaming = false
  total : cxn.articleQTotal = 0
  timers : cxn.timersOff = true
  timeCon : cxn.timeCon = false

structure IsConnecting (cfg : Config) (cxn : Connection) (endp : EndPoint) : Prop where
  myEp : cxn.myEp = some endp
  streaming : cxn.doesStreaming = false
  total : cxn.articleQTotal ≤ 1
  queues : cxn.checkRespHead = [] ∧ cxn.takeRespHead = []
  artReceipt : cxn.artReceiptTimer = false
  sleep : cxn.sleepTimer = false
  timed : cxn.timed cfg endp
  work : endp.workCbk = false
  banner : endp.reading ≠ none → endp.writing ≠ some .connectionDone
  reading : endp.reading ≠ some .responseIsRead

structure IsIdle (cfg : Config) (cxn : Connection) (endp : EndPoint) : Prop where
  myEp : cxn.myEp = some endp
  writing : endp.writing = none
  total : cxn.articleQTotal = 0
  artReceipt : cfg.articleReceiptTimeout = 0 ∨ cxn.artReceiptTimer = true
  readBlocked : cxn.readBlockedTimer = false
  writeBlocked : cxn.writeBlockedTimer = false
  sleep : cxn.sleepTimer = false
  timeCon : cxn.timeCon = true

structure Feeds (cfg : Config) (cxn : Connection) (endp : EndPoint) : Prop where
  myEp : cxn.myEp = some endp
  writing : endp.writing.all WriteCbk.feeds = true
  waits : 0 < cfg.readTimeout → endp.writeIsPending = false →
    cxn.readBlockedTimer = true ∨ cxn.checkRespHead = [] ∧ cxn.takeRespHead = []
  readTimer : cxn.readBlockedTimer = true → 0 < cfg.readTimeout
  timed : cxn.timed cfg endp
  artReceipt : cxn.artReceiptTimer = false
  sleep : cxn.sleepTimer = false
  timeCon : cxn.timeCon = true

structure IsFeeding (cfg : Config) (cxn : Connection) (endp : EndPoint) :
    Prop extends Feeds cfg cxn endp where
  streams : cxn.doesStreaming = true → 0 < cxn.articleQTotal ∨ endp.writeIsPending = true
  ihave : cxn.doesStreaming = false → cxn.articleQTotal = 1

structure IsLeaving (cfg : Config) (cxn : Connection) (endp : EndPoint) : Prop where
  myEp : cxn.myEp = some endp
  writing : endp.writing.all WriteCbk.feeds = true
  ihave : cxn.doesStreaming = false → cxn.articleQTotal ≤ 1
  timed : cxn.timed cfg endp
  artReceipt : cxn.artReceiptTimer = false
  flush : cxn.flushTimer = false
  sleep : cxn.sleepTimer = false
  timeCon : cxn.timeCon = true

/-- What the state of a connection says of the rest of it. -/
def Shape (cfg : Config) (cxn : Connection) : Prop :=
  match cxn.state with
  | .cxnStartingS | .cxnWaitingS => Off cxn ∧ cxn.sleepTimer = false
  | .cxnSleepingS | .cxnDeadS => Off cxn
  | .cxnConnectingS => ∃ endp, IsConnecting cfg cxn endp
  | .cxnIdleS => ∃ endp, IsIdle cfg cxn endp
  | .cxnFeedingS => ∃ endp, IsFeeding cfg cxn endp
  | .cxnFlushingS | .cxnClosingS => ∃ endp, IsLeaving cfg cxn endp
  | .cxnIdleTimeoutS => False

/-- The ledger, and the shape of the state. -/
structure Inv (cfg : Config) (quiet : Prop) (missing hand : List Article)
    (cxn : Connection) : Prop where
  ledger : Ledger quiet hand cxn
  missing : cxn.missing = missing
  plain : cxn.doesStreaming = false → cxn.maxCheck = 1 ∧ cxn.needsChecks = true ∧ cxn.takeHead = []
  shape : Shape cfg cxn

variable {cfg : Config} {quiet : Prop} {missing hand : List Article} {cxn : Connection}
    {endp : EndPoint}

theorem writeIsPending_eq (hep : cxn.myEp = some endp) :
    cxn.writeIsPending = .ok endp.writeIsPending := by
  rw [Connection.writeIsPending, hep]

theorem writeIsPending_none (h : endp.writing = none) : endp.writeIsPending = false := by
  rw [EndPoint.writeIsPending, h]
  rfl

theorem writing_of_not_pending (hwriting : endp.writing.all WriteCbk.feeds = true)
    (hpending : endp.writeIsPending = false) :
    endp.writing = none := by
  cases hcase : endp.writing with
  | none => rfl
  | some done =>
    rw [EndPoint.writeIsPending, hcase, Option.any_some, decide_eq_false_iff_not,
      not_not] at hpending
    rw [hcase, Option.all_some, hpending] at hwriting
    cases hwriting

theorem valid_of (hledger : Ledger quiet hand cxn)
    (hone : cxn.doesStreaming = false → cxn.maxCheck = 1)
    (hshape : Shape cfg cxn) : cxn.valid cfg = true := by
  have htotal := hledger.total
  have hplain : (cxn.doesStreaming || decide (cxn.maxCheck = 1)) = true := by
    cases hstreaming : cxn.doesStreaming with
    | true => rfl
    | false => exact decide_eq_true (hone hstreaming)
  rw [Connection.valid, Bool.and_eq_true, decide_eq_true_eq]
  refine ⟨by omega, ?_⟩
  unfold Shape at hshape
  cases hstate : cxn.state with
  | cxnStartingS | cxnWaitingS =>
    rw [hstate] at hshape
    obtain ⟨⟨hep, _, hzero, htimers, htimeCon⟩, hsleep⟩ := hshape
    simp only [hep, hzero, htimers, htimeCon, hsleep, decide_true, Option.isNone_none,
      Bool.not_false, Bool.and_true]
  | cxnSleepingS =>
    rw [hstate] at hshape
    obtain ⟨hep, _, hzero, htimers, htimeCon⟩ := hshape
    simp only [hep, hzero, htimers, htimeCon, decide_true, Option.isNone_none, Bool.not_false,
      Bool.and_true]
  | cxnDeadS => rfl
  | cxnIdleTimeoutS =>
    rw [hstate] at hshape
    exact hshape.elim
  | cxnConnectingS =>
    rw [hstate] at hshape
    obtain ⟨endp, hc⟩ := hshape
    simp only [hc.streaming, hc.total, hc.artReceipt, hc.sleep, decide_true, Bool.not_false,
      Bool.and_true]
  | cxnIdleS =>
    rw [hstate] at hshape
    obtain ⟨endp, hc⟩ := hshape
    have hart : (decide (cfg.articleReceiptTimeout = 0) || cxn.artReceiptTimer) = true := by
      rw [Bool.or_eq_true, decide_eq_true_eq]
      exact hc.artReceipt
    simp only [hc.myEp, Option.any_some, hc.total, hart, hc.readBlocked, hc.writeBlocked,
      hc.sleep, hc.timeCon,
      writeIsPending_none hc.writing, decide_true, Bool.not_false, Bool.and_true]
  | cxnFlushingS | cxnClosingS =>
    rw [hstate] at hshape
    obtain ⟨endp, hc⟩ := hshape
    have hone : (cxn.doesStreaming || decide (cxn.articleQTotal ≤ 1)) = true := by
      cases hstreaming : cxn.doesStreaming with
      | true => rfl
      | false => exact decide_eq_true (hc.ihave hstreaming)
    simp only [hone, hplain, hc.artReceipt, hc.flush, hc.sleep, hc.timeCon, Bool.not_false,
      Bool.and_true]
  | cxnFeedingS =>
    rw [hstate] at hshape
    obtain ⟨endp, hc⟩ := hshape
    have hcount :
        (if cxn.doesStreaming = true then decide (0 < cxn.articleQTotal) || endp.writeIsPending
        else decide (cxn.articleQTotal = 1)) = true := by
      cases hstreaming : cxn.doesStreaming with
      | true =>
        rw [if_pos rfl, Bool.or_eq_true, decide_eq_true_eq]
        exact hc.streams hstreaming
      | false =>
        rw [if_neg Bool.false_ne_true]
        exact decide_eq_true (hc.ihave hstreaming)
    have hreadTimer :
        (!(decide (0 < cfg.readTimeout) && !endp.writeIsPending &&
          decide (cxn.checkRespHead ≠ []) &&
        decide (cxn.takeRespHead ≠ [])) || cxn.readBlockedTimer) = true := by
      cases hblocked : cxn.readBlockedTimer with
      | true => exact Bool.or_true _
      | false =>
        rw [Bool.or_false, Bool.not_eq_true', Bool.eq_false_iff]
        intro hall
        simp only [Bool.and_eq_true, decide_eq_true_eq, Bool.not_eq_true'] at hall
        cases hc.waits hall.1.1.1 hall.1.1.2 with
        | inl h => rw [hblocked] at h; cases h
        | inr h => exact hall.1.2 h.1
    have hwriteTimer :
        (!(decide (0 < cfg.writeTimeout) && endp.writeIsPending) || cxn.writeBlockedTimer) =
        true := by
      rw [hc.timed, Bool.not_or_self]
    simp only [hc.myEp, Option.any_some, hcount, hreadTimer, hwriteTimer, hplain, hc.sleep,
      hc.timeCon, Bool.not_false,
      Bool.and_true]

theorem Inv.valid (hinv : Inv cfg quiet missing hand cxn) : cxn.valid cfg = true :=
  valid_of hinv.ledger (fun hstreaming => (hinv.plain hstreaming).1) hinv.shape

theorem Inv.validate (hinv : Inv cfg quiet missing hand cxn) {α : Type}
    (f : Unit → Except Fault α) :
    (cxn.VALIDATE cfg >>= f) = f () := assert_bind hinv.valid f

end Shape

variable {cfg : Config} {quiet : Prop} {missing hand : List Article} {cxn cxn' : Connection}
    {endp : EndPoint}

def Connection.aborted (cfg : Config) (cxn : Connection) : Connection :=
    (cxn.clearTimers.emptied cfg).reset

theorem valid_total (hvalid : cxn.valid cfg = true) : cxn.articleQTotal =
    cxn.checkHead.length + cxn.checkRespHead.length + cxn.takeHead.length +
      cxn.takeRespHead.length := by
  rw [Connection.valid, Bool.and_eq_true, decide_eq_true_eq] at hvalid
  have htotal := hvalid.1
  omega

theorem abort_eq (hvalid : cxn.valid cfg = true) : cxn.abort cfg = .ok (cxn.aborted cfg) := by
  have htotal := valid_total hvalid
  have hdefer : cxn.clearTimers.deferAllArticles cfg = .ok (cxn.clearTimers.emptied cfg) :=
    deferAllArticles_eq htotal
  unfold Connection.abort
  rw [Connection.VALIDATE, assert_bind hvalid, hdefer]
  rfl

theorem aborted_ledger (hledger : Ledger quiet hand cxn) : Ledger quiet hand (cxn.aborted cfg) := by
  have hemptied : Ledger quiet hand (cxn.clearTimers.emptied cfg) :=
    Ledger.emptied { hledger with }
  exact { hemptied with }

theorem aborted_inv (hledger : Ledger quiet hand cxn) (hmissing : cxn.missing = missing)
    {state : CxnState} {sleepTimer : Bool}
    (hstate : state = .cxnSleepingS ∨ state = .cxnDeadS ∨ state = .cxnWaitingS ∧
      sleepTimer = false) :
    Inv cfg quiet missing hand { cxn.aborted cfg with
      state := state, sleepTimer := sleepTimer } := by
  have haborted : Ledger quiet hand (cxn.aborted cfg) := aborted_ledger hledger
  have hoff : Off { cxn.aborted cfg with state := state, sleepTimer := sleepTimer } :=
    ⟨rfl, rfl, rfl, rfl, rfl⟩
  refine ⟨{ haborted with }, hmissing, fun _ => ⟨rfl, rfl, rfl⟩, ?_⟩
  rcases hstate with rfl | rfl | ⟨rfl, rfl⟩
  · exact hoff
  · exact hoff
  · exact ⟨hoff, rfl⟩

theorem sleep_eq (hvalid : cxn.valid cfg = true)
    (hstate : cxn.state = .cxnFlushingS ∨ cxn.state = .cxnIdleS ∨
      cxn.state = .cxnFeedingS ∨ cxn.state = .cxnConnectingS) :
    cxn.sleep cfg = .ok { cxn.aborted cfg with sleepTimer := true, state := .cxnSleepingS } := by
  unfold Connection.sleep
  rw [assert_bind hstate, Connection.VALIDATE, assert_bind hvalid, abort_eq hvalid]
  rfl

theorem die_eq (hvalid : cxn.valid cfg = true) :
    cxn.die cfg = .ok { cxn.aborted cfg with state := .cxnDeadS } := by
  unfold Connection.die
  rw [Connection.VALIDATE, assert_bind hvalid, abort_eq hvalid]
  rfl

theorem wait_eq (hvalid : cxn.valid cfg = true)
    (hstate : cxn.state = .cxnStartingS ∨ cxn.state = .cxnSleepingS ∨
      cxn.state = .cxnConnectingS ∨ cxn.state = .cxnFeedingS ∨ cxn.state = .cxnFlushingS) :
    cxn.wait cfg = .ok { cxn.aborted cfg with state := .cxnWaitingS } := by
  unfold Connection.wait
  rw [assert_bind hstate, Connection.VALIDATE, assert_bind hvalid, abort_eq hvalid]
  rfl

section Offers

variable {art : Article}

theorem refuses_of_invalid (hinvalid : cxn.valid cfg = false) : cxn.refuses cfg art = false := by
  unfold Connection.refuses
  split
  next cxn' heq =>
    obtain ⟨_, hrest⟩ := of_assert_bind heq
    obtain ⟨hvalid, _⟩ := of_assert_bind hrest
    exact absurd (hinvalid.symm.trans hvalid) Bool.false_ne_true
  · rfl

/-- A connection that feeds is looked into by what it is offered, and its end point is gone. -/
theorem invalid_of_gone (hstate : cxn.state = .cxnFeedingS) (hep : cxn.myEp = none) :
    cxn.valid cfg = false := by
  rw [Connection.valid, hstate]
  simp only [hep, Option.any_none, Bool.and_false]

theorem spoils_mono {freed : Bool} (arts : List Article) (hspoiled : cxn.spoiled = true) :
    cxn.spoils cfg freed arts = true := by
  unfold Connection.spoils
  induction arts generalizing freed cxn with
  | nil => exact hspoiled
  | cons art arts ih =>
    refine ih ?_
    change (cxn.spoiled || _) = true
    rw [hspoiled]
    rfl

theorem spoils_offered {freed : Bool} {arts : List Article} (hstate : cxn.state = .cxnFeedingS)
    (hep : cxn.myEp = none)
    (hart : art ∈ arts) (hoffered : art ∈ cxn.offered) : cxn.spoils cfg freed arts = true := by
  induction arts generalizing freed cxn with
  | nil => cases hart
  | cons first arts ih =>
    rcases List.mem_cons.mp hart with rfl | hmem
    · refine spoils_mono arts ?_
      change (cxn.spoiled || (decide (art ∈ cxn.offered) && (freed || !cxn.refuses cfg art))) = true
      rw [decide_eq_true hoffered, refuses_of_invalid (invalid_of_gone hstate hep)]
      simp only [Bool.not_false, Bool.or_true, Bool.and_true]
    · have hrest (rest : Connection) (hrest : rest = { cxn.takeBack cfg freed first with
          articleQTotal := cxn.articleQTotal - 1 }) : rest.spoils cfg true arts = true := by
        subst hrest
        exact ih hstate hep hmem hoffered
      exact hrest _ rfl

theorem deferAllArticles_spoils (hstate : cxn.state = .cxnFeedingS) (hep : cxn.myEp = none)
    (hart : art ∈ cxn.checkHead ∨ art ∈ cxn.checkRespHead ∨ art ∈ cxn.takeHead ∨
      art ∈ cxn.takeRespHead)
    (hoffered : art ∈ cxn.offered) (heq : cxn.deferAllArticles cfg = .ok cxn') :
    cxn'.spoiled = true := by
  unfold Connection.deferAllArticles at heq
  simp only [takeBackAll_eq] at heq
  obtain ⟨_, hrest⟩ := of_assert_bind heq
  cases hrest
  rcases hart with hart | hart | hart | hart
  · exact spoils_mono _ (spoils_mono _ (spoils_mono _ (spoils_offered hstate hep hart hoffered)))
  · exact spoils_mono _ (spoils_mono _ (spoils_offered hstate hep hart hoffered))
  · exact spoils_mono _ (spoils_offered hstate hep hart hoffered)
  · exact spoils_offered hstate hep hart hoffered

/-- A connection that feeds may not be offered an article again while it goes to sleep. -/
theorem sleep_spoils (hvalid : cxn.valid cfg = true) (hstate : cxn.state = .cxnFeedingS)
    (hart : art ∈ cxn.checkHead ∨ art ∈ cxn.checkRespHead ∨ art ∈ cxn.takeHead ∨
      art ∈ cxn.takeRespHead)
    (hoffered : art ∈ cxn.offered) : cxn.sleep cfg >>= Connection.checked = .error .gone := by
  have htotal := valid_total hvalid
  have hdefer : cxn.clearTimers.deferAllArticles cfg = .ok (cxn.clearTimers.emptied cfg) :=
    deferAllArticles_eq htotal
  have hstate' : cxn.clearTimers.state = .cxnFeedingS := hstate
  have hspoiled : (cxn.clearTimers.emptied cfg).spoiled = true :=
    deferAllArticles_spoils hstate' rfl hart hoffered hdefer
  rw [sleep_eq hvalid (.inr (.inr (.inl hstate))), ok_bind]
  exact if_pos hspoiled

end Offers

def Connection.rests (cxn : Connection) : Prop :=
  cxn.state = .cxnSleepingS ∨ cxn.state = .cxnDeadS ∨ cxn.state = .cxnWaitingS

theorem of_sleep (hledger : Ledger quiet hand cxn) (hmissing : cxn.missing = missing)
    (heq : cxn.sleep cfg = .ok cxn') :
    Inv cfg quiet missing hand cxn' ∧ cxn'.rests := by
  obtain ⟨hstate, hrest⟩ := of_assert_bind heq
  obtain ⟨hvalid, _⟩ := of_assert_bind hrest
  rw [sleep_eq hvalid hstate] at heq
  cases heq
  exact ⟨aborted_inv hledger hmissing (.inl rfl), .inl rfl⟩

theorem of_die (hledger : Ledger quiet hand cxn) (hmissing : cxn.missing = missing)
    (heq : cxn.die cfg = .ok cxn') :
    Inv cfg quiet missing hand cxn' ∧ cxn'.rests ∧ cxn'.articleQTotal = 0 := by
  obtain ⟨hvalid, _⟩ := of_assert_bind heq
  rw [die_eq hvalid] at heq
  cases heq
  exact ⟨aborted_inv hledger hmissing (.inr (.inl rfl)), .inr (.inl rfl), rfl⟩

theorem of_wait (hledger : Ledger quiet hand cxn) (hmissing : cxn.missing = missing)
    (heq : cxn.wait cfg = .ok cxn') :
    Inv cfg quiet missing hand cxn' ∧ cxn'.state = .cxnWaitingS := by
  obtain ⟨hstate, hrest⟩ := of_assert_bind heq
  obtain ⟨hvalid, _⟩ := of_assert_bind hrest
  rw [wait_eq hvalid hstate] at heq
  cases heq
  exact ⟨aborted_inv hledger hmissing (.inr (.inr ⟨rfl, rfl⟩)), rfl⟩

theorem of_sleepOrDie (hledger : Ledger quiet hand cxn) (hmissing : cxn.missing = missing)
    (heq : cxn.sleepOrDie cfg = .ok cxn') : Inv cfg quiet missing hand cxn' ∧ cxn'.rests := by
  unfold Connection.sleepOrDie at heq
  split at heq
  · obtain ⟨hinv, hrests, _⟩ := of_die hledger hmissing heq
    exact ⟨hinv, hrests⟩
  · exact of_sleep hledger hmissing heq

theorem Inv.rests (hinv : Inv cfg quiet missing hand cxn) (hrests : cxn.rests) : Off cxn := by
  have hshape := hinv.shape
  unfold Shape at hshape
  rcases hrests with hstate | hstate | hstate
  · rw [hstate] at hshape
    exact hshape
  · rw [hstate] at hshape
    exact hshape
  · rw [hstate] at hshape
    exact hshape.1

theorem sleepOrDie_ok (hvalid : cxn.valid cfg = true) (hledger : Ledger quiet hand cxn)
    (hmissing : cxn.missing = missing) (hstate : cxn.reads ∨ cxn.state = .cxnConnectingS) :
    ∃ cxn', cxn.sleepOrDie cfg = .ok cxn' ∧ Inv cfg quiet missing hand cxn' ∧ cxn'.rests := by
  obtain ⟨cxn', heq⟩ : ∃ cxn', cxn.sleepOrDie cfg = .ok cxn' := by
    unfold Connection.sleepOrDie
    split
    · exact ⟨_, die_eq hvalid⟩
    next hclosing =>
      refine ⟨_, sleep_eq hvalid ?_⟩
      rcases hstate with ((h | h | h) | h) | h
      · exact .inr (.inr (.inl h))
      · exact .inl h
      · exact absurd h hclosing
      · exact .inr (.inl h)
      · exact .inr (.inr (.inr h))
  exact ⟨cxn', heq, of_sleepOrDie hledger hmissing heq⟩

theorem Ledger.queues_nil (hledger : Ledger quiet hand cxn) (hzero : cxn.articleQTotal = 0) :
    cxn.checkHead = [] ∧ cxn.checkRespHead = [] ∧ cxn.takeHead = [] ∧ cxn.takeRespHead = [] := by
  have htotal := hledger.total
  exact ⟨List.eq_nil_of_length_eq_zero (by omega), List.eq_nil_of_length_eq_zero (by omega),
    List.eq_nil_of_length_eq_zero (by omega), List.eq_nil_of_length_eq_zero (by omega)⟩

theorem delete_ok (hledger : Ledger quiet hand cxn) (hzero : cxn.articleQTotal = 0) :
    ∃ cxn', cxn.delete = .ok cxn' ∧ Ledger quiet hand cxn' ∧ cxn'.missing = cxn.missing ∧
      cxn'.deleted = true := by
  unfold Connection.delete
  rw [assert_bind (hledger.queues_nil hzero)]
  exact ⟨_, rfl, { hledger with }, rfl, rfl⟩

def Transfers (cfg : Config) (cxn : Connection) (endp : EndPoint) : Prop :=
  cxn.state = .cxnFeedingS ∧ Feeds cfg cxn endp ∨ cxn.leaving ∧ IsLeaving cfg cxn endp

theorem shape_leaving (hleaving : cxn.leaving) (h : IsLeaving cfg cxn endp) : Shape cfg cxn := by
  unfold Shape
  rcases hleaving with hstate | hstate
  · rw [hstate]
    exact ⟨endp, h⟩
  · rw [hstate]
    exact ⟨endp, h⟩

theorem shape_feeding (hstate : cxn.state = .cxnFeedingS) (h : IsFeeding cfg cxn endp) :
    Shape cfg cxn := by
  unfold Shape
  rw [hstate]
  exact ⟨endp, h⟩

theorem not_feeding_of_leaving (hleaving : cxn.leaving) : cxn.state ≠ .cxnFeedingS := by
  rcases hleaving with hstate | hstate
  · rw [hstate]
    nofun
  · rw [hstate]
    nofun

theorem Transfers.shape (h : Transfers cfg cxn endp)
    (hstreams : cxn.state = .cxnFeedingS → cxn.doesStreaming = true → 0 < cxn.articleQTotal ∨
      endp.writeIsPending = true)
    (hihave : cxn.state = .cxnFeedingS → cxn.doesStreaming = false → cxn.articleQTotal = 1) :
    Shape cfg cxn := by
  rcases h with ⟨hstate, hfeeds⟩ | ⟨hleaving, hleaves⟩
  · exact shape_feeding hstate { hfeeds with streams := hstreams hstate, ihave := hihave hstate }
  · exact shape_leaving hleaving hleaves

theorem Transfers.reads (h : Transfers cfg cxn endp) : cxn.reads := by
  rcases h with ⟨hstate, _⟩ | ⟨hleaving, _⟩
  · exact .inl (.inl hstate)
  · exact .inl (.inr hleaving)

theorem Transfers.myEp (h : Transfers cfg cxn endp) : cxn.myEp = some endp := by
  rcases h with ⟨_, hfeeds⟩ | ⟨_, hleaves⟩
  · exact hfeeds.myEp
  · exact hleaves.myEp

theorem Transfers.timed (h : Transfers cfg cxn endp) : cxn.timed cfg endp := by
  rcases h with ⟨_, hfeeds⟩ | ⟨_, hleaves⟩
  · exact hfeeds.timed
  · exact hleaves.timed

theorem Transfers.sleep (h : Transfers cfg cxn endp) : cxn.sleepTimer = false := by
  rcases h with ⟨_, hfeeds⟩ | ⟨_, hleaves⟩
  · exact hfeeds.sleep
  · exact hleaves.sleep

theorem idle_ok (hledger : Ledger quiet hand cxn) (hmissing : cxn.missing = missing)
    (hplain : cxn.doesStreaming = false → cxn.maxCheck = 1 ∧ cxn.needsChecks = true ∧
      cxn.takeHead = [])
    (htransfers : Transfers cfg cxn endp) (hzero : cxn.articleQTotal = 0)
    (hpending : endp.writeIsPending = false) :
    ∃ cxn', cxn.idle cfg = .ok cxn' ∧ Inv cfg quiet missing hand cxn' ∧ cxn'.reads := by
  have hwrite : cxn.writeBlockedTimer = false := by
    rw [htransfers.timed, hpending, Bool.and_false]
  have hstates : cxn.state = .cxnFeedingS ∨ cxn.state = .cxnConnectingS ∨
      cxn.state = .cxnFlushingS ∨
      cxn.state = .cxnClosingS := by
    rcases htransfers with ⟨hstate, _⟩ | ⟨hleaving, _⟩
    · exact .inl hstate
    · exact .inr (.inr hleaving)
  unfold Connection.idle
  rw [assert_bind hstates, assert_bind ⟨hzero, hwrite⟩, writeIsPending_eq htransfers.myEp, ok_bind,
    assert_bind ⟨hpending, htransfers.sleep⟩]
  rcases htransfers with ⟨hstate, hfeeds⟩ | ⟨hleaving, hleaves⟩
  · have hread :
        (cxn.readBlockedTimer &&
          !(decide (0 < cfg.readTimeout) && decide (cxn.state = .cxnFeedingS))) = false := by
      cases hblocked : cxn.readBlockedTimer with
      | false => rfl
      | true => rw [hstate, decide_eq_true (hfeeds.readTimer hblocked)]; rfl
    rw [if_pos (.inl hstate), assert_bind hread]
    refine ⟨_, rfl, ⟨{ hledger with }, hmissing, hplain, ?_⟩, .inr rfl⟩
    refine ⟨endp, hfeeds.myEp, writing_of_not_pending hfeeds.writing hpending, hzero, ?_, hread,
      hwrite, hfeeds.sleep,
      hfeeds.timeCon⟩
    cases htimeout : cfg.articleReceiptTimeout with
    | zero => exact .inl rfl
    | succ n => exact .inr (by rw [decide_eq_true (Nat.succ_pos n), Bool.or_true])
  · have hnot : ¬(cxn.state = .cxnFeedingS ∨ cxn.state = .cxnConnectingS) := by
      rcases hleaving with hstate | hstate
      · rw [hstate]
        decide
      · rw [hstate]
        decide
    rw [if_neg hnot]
    exact ⟨cxn, rfl, ⟨hledger, hmissing, hplain, shape_leaving hleaving hleaves⟩,
      .inl (.inr hleaving)⟩

theorem idleIfDone_ok (hledger : Ledger quiet hand cxn) (hmissing : cxn.missing = missing)
    (hplain : cxn.doesStreaming = false → cxn.maxCheck = 1 ∧ cxn.needsChecks = true ∧
      cxn.takeHead = [])
    (htransfers : Transfers cfg cxn endp)
    (hihave : cxn.state = .cxnFeedingS → cxn.doesStreaming = false →
      cxn.articleQTotal = 0 ∧ endp.writeIsPending = false) :
    ∃ cxn', cxn.idleIfDone cfg = .ok cxn' ∧ Inv cfg quiet missing hand cxn' ∧ cxn'.reads := by
  unfold Connection.idleIfDone
  split
  next hzero =>
    rw [writeIsPending_eq htransfers.myEp, ok_bind]
    cases hpending : endp.writeIsPending with
    | true =>
      have hshape : Shape cfg cxn :=
        htransfers.shape (fun _ _ => .inr hpending) fun hstate hstreaming =>
        absurd (hpending.symm.trans (hihave hstate hstreaming).2) Bool.true_eq_false.mp
      rw [if_neg Bool.true_eq_false.mp]
      exact ⟨cxn, rfl, ⟨hledger, hmissing, hplain, hshape⟩, htransfers.reads⟩
    | false =>
      rw [if_pos rfl]
      exact idle_ok hledger hmissing hplain htransfers hzero hpending
  next hmore =>
    have hshape : Shape cfg cxn :=
      htransfers.shape (fun _ _ => .inl (Nat.pos_of_ne_zero hmore)) fun hstate hstreaming =>
      absurd (hihave hstate hstreaming).1 hmore
    exact ⟨cxn, rfl, ⟨hledger, hmissing, hplain, hshape⟩, htransfers.reads⟩

end Inn.Innfeed.Connections
