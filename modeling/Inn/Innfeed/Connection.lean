import Inn.Foundation.Runs
import Inn.Innfeed.Responses

/-!
# Connections

A connection of `innfeed` sends articles to a peer, by `CHECK` and `TAKETHIS` if the peer
streams, and else by `IHAVE`. An article that its host has given it moves from queue to
queue, and goes back to the host with what has become of it. The state says whether there
is an end point, and what a timer or a response may do.
-/

namespace Inn.Innfeed.Connections

structure Article where
  ident : Nat
  msgid : Octets
  deriving DecidableEq

inductive CxnState
  | cxnStartingS
  | cxnWaitingS
  | cxnConnectingS
  | cxnIdleS
  | cxnIdleTimeoutS
  | cxnFeedingS
  | cxnSleepingS
  | cxnFlushingS
  | cxnClosingS
  | cxnDeadS
  deriving DecidableEq

inductive ReadCbk
  | getBanner
  | getAuthUserResponse
  | getAuthPassResponse
  | getModeResponse
  | responseIsRead
  deriving DecidableEq

inductive WriteCbk
  | connectionDone
  | authUserIssued
  | authPassIssued
  | modeCmdIssued
  | commandWriteDone
  | ihaveBodyDone
  | quitWritten
  deriving DecidableEq

structure EndPoint where
  reading : Option ReadCbk
  writing : Option WriteCbk
  workCbk : Bool
  deriving DecidableEq

inductive Outcome
  | accepted
  | notWanted
  | rejected
  | deferred
  | isMissing
  | takenBack
  deriving DecidableEq

/-- A connection: its queues, its timers and what has become of articles. -/
structure Connection where
  state : CxnState
  checkHead : List Article
  checkRespHead : List Article
  takeHead : List Article
  takeRespHead : List Article
  articleQTotal : Nat
  missing : List Article
  maxCheck : Nat
  myEp : Option EndPoint
  artReceiptTimer : Bool
  readBlockedTimer : Bool
  writeBlockedTimer : Bool
  flushTimer : Bool
  sleepTimer : Bool
  immedRecon : Bool
  doesStreaming : Bool
  authenticated : Bool
  quitWasIssued : Bool
  needsChecks : Bool
  timeCon : Bool
  deleted : Bool
  /-- The articles that the host will give when it is asked for some. -/
  gives : List (List Article)
  /-- The articles that the host does not get rid of at once: while it takes one of them back,
  another connection fails, and the host offers an article to this one. -/
  offered : List Article
  /-- An article was offered while the queues were given back, and it was not just refused. -/
  spoiled : Bool
  /-- The articles that the host has given, and what it has been told of them. -/
  taken : List Article
  handedBack : List (Outcome × Article)
  deriving DecidableEq

structure Config where
  articleReceiptTimeout : Nat
  readTimeout : Nat
  writeTimeout : Nat
  flushTimeout : Nat
  wantsStreaming : Bool
  maxChecks : Nat
  dropDeferred : Bool
  /-- There is a user name and a password. -/
  hasLogin : Bool

inductive Fault
  | assertion
  | nullPointer
  | badState
  | prepareWrite
  /-- A holder or an end point is used behind its end. -/
  | gone
  deriving DecidableEq

def ASSERT (c : Prop) [Decidable c] : Except Fault Unit := if c then .ok () else .error .assertion

def EndPoint.writeIsPending (endp : EndPoint) : Bool := endp.writing.any (· ≠ .connectionDone)

def Connection.writeIsPending (cxn : Connection) : Except Fault Bool :=
  match cxn.myEp with
  | some endp => .ok endp.writeIsPending
  | none => .error .nullPointer

def Connection.timersOff (cxn : Connection) : Bool :=
  !cxn.artReceiptTimer && !cxn.readBlockedTimer && !cxn.writeBlockedTimer && !cxn.flushTimer

def Connection.valid (cfg : Config) (cxn : Connection) : Bool :=
  cxn.takeHead.length + cxn.takeRespHead.length + cxn.checkHead.length + cxn.checkRespHead.length =
    cxn.articleQTotal &&
    match cxn.state with
    | .cxnConnectingS => !cxn.doesStreaming && cxn.articleQTotal ≤
        1 && !cxn.artReceiptTimer && !cxn.sleepTimer
    | .cxnWaitingS =>
      cxn.articleQTotal = 0 && cxn.myEp.isNone && cxn.timersOff && !cxn.sleepTimer && !cxn.timeCon
    | .cxnFlushingS | .cxnClosingS =>
      (cxn.doesStreaming || cxn.articleQTotal ≤ 1) && !cxn.artReceiptTimer && !cxn.flushTimer &&
        !cxn.sleepTimer &&
        cxn.timeCon && (cxn.doesStreaming || cxn.maxCheck = 1)
    | .cxnFeedingS =>
      cxn.myEp.any fun endp =>
        (if cxn.doesStreaming then 0 <
          cxn.articleQTotal || endp.writeIsPending else cxn.articleQTotal = 1) &&
          (!(0 < cfg.readTimeout && !endp.writeIsPending && cxn.checkRespHead ≠
            [] && cxn.takeRespHead ≠ []) ||
            cxn.readBlockedTimer) &&
          (!(0 < cfg.writeTimeout && endp.writeIsPending) || cxn.writeBlockedTimer) &&
            !cxn.sleepTimer && cxn.timeCon &&
          (cxn.doesStreaming || cxn.maxCheck = 1)
    | .cxnIdleS =>
      cxn.myEp.any fun endp =>
        cxn.articleQTotal = 0 && (cfg.articleReceiptTimeout = 0 || cxn.artReceiptTimer) &&
          !cxn.readBlockedTimer &&
          !cxn.writeBlockedTimer && !cxn.sleepTimer && cxn.timeCon && !endp.writeIsPending
    | .cxnIdleTimeoutS =>
      cxn.myEp.any fun endp =>
        cxn.articleQTotal = 0 && !cxn.artReceiptTimer && !cxn.writeBlockedTimer &&
          !cxn.sleepTimer && cxn.timeCon &&
          !endp.writeIsPending
    | .cxnSleepingS => cxn.articleQTotal = 0 && cxn.myEp.isNone && cxn.timersOff && !cxn.timeCon
    | .cxnStartingS =>
      cxn.articleQTotal = 0 && cxn.myEp.isNone && cxn.timersOff && !cxn.sleepTimer && !cxn.timeCon
    | .cxnDeadS => true

def Connection.VALIDATE (cfg : Config) (cxn : Connection) : Except Fault Unit :=
    ASSERT (cxn.valid cfg = true)

def Connection.queueSpace (cxn : Connection) : Nat :=
  match cxn.state with
  | .cxnFeedingS | .cxnIdleS | .cxnConnectingS | .cxnWaitingS => cxn.maxCheck - cxn.articleQTotal
  | _ => 0

def Connection.appendCheck (cxn : Connection) (art : Article) : Connection :=
  { cxn with
    checkHead := cxn.checkHead ++ [art]
    articleQTotal := cxn.articleQTotal + 1
    taken := art :: cxn.taken }

def Connection.appendTake (cxn : Connection) (art : Article) : Connection :=
  { cxn with
    takeHead := cxn.takeHead ++ [art]
    articleQTotal := cxn.articleQTotal + 1
    taken := art :: cxn.taken }

def Connection.queueArticle (cfg : Config) (cxn : Connection) (art : Article) :
    Except Fault (Bool × Connection) := do
  ASSERT (cxn.state ≠ .cxnStartingS ∧ cxn.state ≠ .cxnDeadS)
  cxn.VALIDATE cfg
  match cxn.state with
  | .cxnClosingS | .cxnFlushingS | .cxnSleepingS => return (false, cxn)
  | .cxnWaitingS => return (true, cxn.appendCheck art)
  | .cxnConnectingS =>
    return if cxn.articleQTotal ≠ 0 then (false, cxn) else (true, cxn.appendCheck art)
  | .cxnIdleS | .cxnFeedingS =>
    if cxn.maxCheck ≤ cxn.articleQTotal then
      return (false, cxn)
    else
      let cxn' := if cxn.needsChecks then cxn.appendCheck art else cxn.appendTake art
      return (true, if cxn.state = .cxnIdleS then
        { cxn' with state := .cxnFeedingS, artReceiptTimer := false } else cxn')
  | _ => throw .badState

def Connection.queueAll (cfg : Config) : List Article → Connection → Except Fault Connection
  | [], cxn => .ok cxn
  | art :: arts, cxn => do
      let (tookIt, cxn) ← cxn.queueArticle cfg art
      ASSERT (tookIt = true)
      cxn.queueAll cfg arts

def Connection.gimmeArticle (cfg : Config) (cxn : Connection) : Except Fault (Bool × Connection) :=
  match cxn.gives with
  | [] => .ok (false, cxn)
  | arts :: gives =>
    let arts := arts.take cxn.queueSpace
    match { cxn with gives := gives }.queueAll cfg arts with
    | .ok cxn => .ok (!arts.isEmpty, cxn)
    | .error fault => .error fault

def Connection.handBack (cxn : Connection) (outcome : Outcome) (art : Article) : Connection :=
  { cxn with handedBack := (outcome, art) :: cxn.handedBack }

def Connection.articleGone (cfg : Config) (cxn : Connection) (outcome : Outcome) (art : Article) :
    Except Fault Connection :=
  match (cxn.handBack outcome art).gimmeArticle cfg with
  | .ok (_, cxn) => .ok cxn
  | .error fault => .error fault

def Connection.refuses (cfg : Config) (cxn : Connection) (art : Article) : Bool :=
  match cxn.queueArticle cfg art with
  | .ok (queued, _) => !queued
  | .error _ => false

/-- The host takes an article back, and passes the connection over while it gives the article away
again. But a connection that is given the article may give it back in turn, and then this one is
asked, with its queue as it is at that moment: `freed` says that the front of it has been freed. -/
def Connection.takeBack (cfg : Config) (freed : Bool) (cxn : Connection)
    (art : Article) : Connection :=
  { cxn.handBack .takenBack art with
    spoiled := cxn.spoiled || (decide (art ∈ cxn.offered) && (freed || !cxn.refuses cfg art)) }

def Connection.takeBackAll (cfg : Config) : Bool → List Article → Connection → Connection
  | _, [], cxn => cxn
  | freed, art :: arts, cxn =>
    Connection.takeBackAll cfg true arts
      { cxn.takeBack cfg freed art with articleQTotal := cxn.articleQTotal - 1 }

def Connection.deferQueuedArticles (cfg : Config) (cxn : Connection) : Connection :=
  let cxn := { cxn.takeBackAll cfg false cxn.checkHead with checkHead := [] }
  if cxn.doesStreaming then { cxn.takeBackAll cfg false cxn.takeHead with takeHead := [] }
  else { cxn with takeHead := [] }

def Connection.deferAllArticles (cfg : Config) (cxn : Connection) : Except Fault Connection := do
  let cxn : Connection := { cxn.takeBackAll cfg false cxn.checkHead with checkHead := [] }
  let cxn : Connection := { cxn.takeBackAll cfg false cxn.checkRespHead with checkRespHead := [] }
  let cxn : Connection := { cxn.takeBackAll cfg false cxn.takeHead with takeHead := [] }
  let cxn : Connection := { cxn.takeBackAll cfg false cxn.takeRespHead with takeRespHead := [] }
  ASSERT (cxn.articleQTotal = 0)
  return cxn

/-- What follows behind a spoiled queue is undefined. -/
def Connection.checked (cxn : Connection) : Except Fault Connection :=
  if cxn.spoiled then .error .gone else .ok cxn

def Connection.reset (cxn : Connection) : Connection :=
  { cxn with
    maxCheck := 1
    immedRecon := false
    doesStreaming := false
    authenticated := false
    quitWasIssued := false
    needsChecks := true
    timeCon := false }

def Connection.clearTimers (cxn : Connection) : Connection :=
  { cxn with
    myEp := none
    sleepTimer := false
    artReceiptTimer := false
    readBlockedTimer := false
    writeBlockedTimer := false
    flushTimer := false }

def Connection.abort (cfg : Config) (cxn : Connection) : Except Fault Connection := do
  cxn.VALIDATE cfg
  let cxn ← cxn.clearTimers.deferAllArticles cfg
  return cxn.reset

def Connection.sleep (cfg : Config) (cxn : Connection) : Except Fault Connection := do
  ASSERT (cxn.state = .cxnFlushingS ∨ cxn.state = .cxnIdleS ∨ cxn.state = .cxnFeedingS ∨
    cxn.state = .cxnConnectingS)
  cxn.VALIDATE cfg
  let cxn ← cxn.abort cfg
  ASSERT (cxn.sleepTimer = false)
  return { cxn with sleepTimer := true, state := .cxnSleepingS }

def Connection.die (cfg : Config) (cxn : Connection) : Except Fault Connection := do
  cxn.VALIDATE cfg
  let cxn ← cxn.abort cfg
  return { cxn with state := .cxnDeadS }

def Connection.sleepOrDie (cfg : Config) (cxn : Connection) : Except Fault Connection :=
  if cxn.state = .cxnClosingS then cxn.die cfg else cxn.sleep cfg

def Connection.wait (cfg : Config) (cxn : Connection) : Except Fault Connection := do
  ASSERT (cxn.state = .cxnStartingS ∨ cxn.state = .cxnSleepingS ∨ cxn.state = .cxnConnectingS ∨
    cxn.state = .cxnFeedingS ∨ cxn.state = .cxnFlushingS)
  cxn.VALIDATE cfg
  let cxn ← cxn.abort cfg
  return { cxn with state := .cxnWaitingS }

def Connection.idle (cfg : Config) (cxn : Connection) : Except Fault Connection := do
  ASSERT (cxn.state = .cxnFeedingS ∨ cxn.state = .cxnConnectingS ∨ cxn.state = .cxnFlushingS ∨
    cxn.state = .cxnClosingS)
  ASSERT (cxn.articleQTotal = 0 ∧ cxn.writeBlockedTimer = false)
  let pending ← cxn.writeIsPending
  ASSERT (pending = false ∧ cxn.sleepTimer = false)
  if cxn.state = .cxnFeedingS ∨ cxn.state = .cxnConnectingS then
    let cxn := { cxn with
      artReceiptTimer := cxn.artReceiptTimer || 0 < cfg.articleReceiptTimeout
      readBlockedTimer := cxn.readBlockedTimer && !(0 < cfg.readTimeout && cxn.state = .cxnFeedingS)
      state := .cxnIdleS }
    ASSERT (cxn.readBlockedTimer = false)
    return cxn
  else
    return cxn

def Connection.delete (cxn : Connection) : Except Fault Connection := do
  ASSERT (cxn.checkHead = [] ∧ cxn.checkRespHead = [] ∧ cxn.takeHead = [] ∧ cxn.takeRespHead = [])
  return { cxn with
    myEp := none
    deleted := true
    artReceiptTimer := false
    readBlockedTimer := false
    writeBlockedTimer := false
    flushTimer := false
    timeCon := false }

def Connection.prepareWrite (cfg : Config) (cxn : Connection) (done : WriteCbk) :
    Except Fault Connection :=
  match cxn.myEp with
  | none => .error .nullPointer
  | some endp =>
    if endp.writing.isSome then .error .prepareWrite
    else .ok { cxn with
      readBlockedTimer := false
      writeBlockedTimer := 0 < cfg.writeTimeout
      myEp := some { endp with writing := some done } }

def Connection.initReadBlockedTimeout (cfg : Config) (cxn : Connection) :
    Except Fault Connection := do
  ASSERT (cxn.state ≠ .cxnIdleS)
  return { cxn with readBlockedTimer := 0 < cfg.readTimeout }

def Connection.issueQUIT (cfg : Config) (cxn : Connection) : Except Fault Connection := do
  ASSERT (cxn.takeHead = [] ∧ cxn.checkHead = [])
  cxn.VALIDATE cfg
  if cxn.quitWasIssued then
    return cxn
  else
    if ← cxn.writeIsPending then
      if cxn.state = .cxnClosingS then cxn.die cfg else cxn.wait cfg
    else
      Connection.prepareWrite cfg { cxn with quitWasIssued := true } .quitWritten

def Connection.writesNeeded (cxn : Connection) : Bool := cxn.checkHead ≠ [] || cxn.takeHead ≠ []

def Connection.leaving (cxn : Connection) : Prop :=
    cxn.state = .cxnFlushingS ∨ cxn.state = .cxnClosingS

instance (cxn : Connection) : Decidable cxn.leaving := inferInstanceAs (Decidable (_ ∨ _))

def Connection.transfers (cxn : Connection) : Prop := cxn.state = .cxnFeedingS ∨ cxn.leaving

instance (cxn : Connection) : Decidable cxn.transfers := inferInstanceAs (Decidable (_ ∨ _))

def Connection.issueIHAVE (cfg : Config) (cxn : Connection) : Except Fault Connection := do
  ASSERT (cxn.doesStreaming = false ∧ cxn.transfers ∧ cxn.articleQTotal = 1 ∧ cxn.checkHead ≠ [])
  let pending ← cxn.writeIsPending
  ASSERT (pending = false)
  cxn.VALIDATE cfg
  let cxn ← cxn.prepareWrite cfg .commandWriteDone
  return { cxn with checkRespHead := cxn.checkHead, checkHead := [] }

def Connection.issueIHAVEBody (cfg : Config) (cxn : Connection) : Except Fault Connection := do
  ASSERT (cxn.doesStreaming = false ∧ cxn.transfers ∧ cxn.articleQTotal = 1 ∧ cxn.takeHead ≠ [])
  cxn.VALIDATE cfg
  let cxn ← cxn.prepareWrite cfg .ihaveBodyDone
  return { cxn with takeRespHead := cxn.takeHead, takeHead := [] }

def Connection.tellMissing (cfg : Config) : List Article → Connection → Except Fault Connection
  | [], cxn => .ok cxn
  | art :: arts, cxn => do
      let cxn ← Connection.articleGone cfg { cxn with missing := arts } .isMissing art
      cxn.tellMissing cfg arts

def Connection.buildBuffers (gone : Article → Bool) (cxn : Connection) : Connection :=
  { cxn with
    checkRespHead := cxn.checkRespHead ++ cxn.checkHead
    checkHead := []
    takeHead := cxn.takeHead.filter (!gone ·)
    articleQTotal := cxn.articleQTotal - (cxn.takeHead.filter gone).length
    missing := (cxn.takeHead.filter gone).reverse ++ cxn.missing }

def Connection.writeBuffers (cfg : Config) (doneSome : Bool) (cxn : Connection) :
    Except Fault Connection :=
  if doneSome then do
    let cxn ← cxn.prepareWrite cfg .commandWriteDone
    return { cxn with takeRespHead := cxn.takeRespHead ++ cxn.takeHead, takeHead := [] }
  else return cxn

def Connection.dropMissing (cfg : Config) (cxn : Connection) : Except Fault Connection := do
  let pending ← cxn.writeIsPending
  let cxn ← if cxn.missing ≠ [] ∧ cxn.articleQTotal = 0 ∧ pending = false then
    cxn.idle cfg else pure cxn
  cxn.tellMissing cfg cxn.missing

def Connection.issueStreamingCommands (cfg : Config) (gone : Article → Bool) (cxn : Connection) :
    Except Fault (Bool × Connection) := do
  if cxn.myEp.isNone then throw .assertion
  ASSERT (cxn.doesStreaming = true)
  cxn.VALIDATE cfg
  let built := cxn.buildBuffers gone
  let doneSome := cxn.checkHead ≠ [] || built.takeHead ≠ []
  let cxn ← built.writeBuffers cfg doneSome
  let cxn ← cxn.dropMissing cfg
  return (doneSome, cxn)

def Connection.doSomeWrites (cfg : Config) (gone : Article → Bool) (cxn : Connection) :
    Except Fault Connection := do
  if ← cxn.writeIsPending then
    return cxn
  else if cxn.writesNeeded then
    let (doneSome, cxn) ←
      if cxn.doesStreaming then cxn.issueStreamingCommands cfg gone
      else do
        let cxn ← cxn.issueIHAVE cfg
        pure (true, cxn)
    if doneSome then
      return cxn
    else if cxn.writesNeeded then
      return { cxn with myEp := cxn.myEp.map fun endp => { endp with workCbk := true } }
    else if cxn.articleQTotal = 0 ∧ cxn.leaving then
      cxn.issueQUIT cfg
    else
      return cxn
  else if cxn.leaving ∧ cxn.articleQTotal = 0 then
    cxn.issueQUIT cfg
  else
    return cxn

end Inn.Innfeed.Connections
