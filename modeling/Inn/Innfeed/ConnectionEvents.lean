import Inn.Innfeed.Connection

/-!
# What happens to a connection

The network, the timers and the host call a connection. Each of the calls is a step, with
what the network, the storage and the host answer to the connection on the way.
-/

namespace Inn.Innfeed.Connections

inductive Connecting
  | fails
  | inProgress
  | isDone (ok : Bool)
  deriving DecidableEq

structure Env where
  gone : Article → Bool
  connecting : Connecting
  aboveOnThreshold : Bool
  belowOffThreshold : Bool

inductive Read
  | failed
  | incomplete
  /-- Full lines, with the line ends taken off. -/
  | responses (lines : List Octets)
  deriving DecidableEq

variable (cfg : Config)

def Connection.prepareRead (cxn : Connection) (done : ReadCbk) : Connection :=
  { cxn with myEp := cxn.myEp.map fun endp => { endp with reading := some done } }

def Connection.connectionDone (ok : Bool) (cxn : Connection) : Except Fault Connection := do
  ASSERT (cxn.state = .cxnConnectingS)
  let pending ← cxn.writeIsPending
  ASSERT (pending = false)
  let cxn ←
    if ok then do
      let cxn ← (cxn.prepareRead .getBanner).initReadBlockedTimeout cfg
      pure { cxn with flushTimer := cxn.flushTimer || 0 < cfg.flushTimeout }
    else cxn.sleepOrDie cfg
  cxn.VALIDATE cfg
  return cxn

def Connection.connect (env : Env) (cxn : Connection) : Except Fault (Bool × Connection) := do
  ASSERT (cxn.myEp = none)
  if ¬(cxn.state = .cxnStartingS ∨ cxn.state = .cxnWaitingS ∨ cxn.state = .cxnFlushingS ∨
    cxn.state = .cxnSleepingS) then
    let cxn ← cxn.sleepOrDie cfg
    return (false, cxn)
  else
    ASSERT (cxn.articleQTotal = if cxn.state = .cxnWaitingS then 1 else 0)
    let cxn := { cxn with state := .cxnConnectingS }
    let cxn ←
      match env.connecting with
      | .fails => cxn.sleepOrDie cfg
      | .inProgress => pure { cxn with myEp := some ⟨none, some .connectionDone, false⟩ }
      | .isDone ok => Connection.connectionDone cfg ok { cxn with myEp := some ⟨none, none, false⟩ }
    return (decide (cxn.state = .cxnConnectingS), cxn)

def Connection.issueCommand (written : WriteCbk) (done : ReadCbk) (cxn : Connection) :
    Except Fault Connection := do
  let cxn ← cxn.prepareWrite cfg written
  return cxn.prepareRead done

def Connection.issueAuthUser : Connection → Except Fault Connection :=
  Connection.issueCommand cfg .authUserIssued .getAuthUserResponse

def Connection.issueAuthPass : Connection → Except Fault Connection :=
  Connection.issueCommand cfg .authPassIssued .getAuthPassResponse

def Connection.issueModeStream : Connection → Except Fault Connection :=
  Connection.issueCommand cfg .modeCmdIssued .getModeResponse

def codeOf (lines : List Octets) : Option Nat := (lines.head?.bind getNntpResponse).map Prod.fst

def Connection.getBanner (read : Read) (cxn : Connection) : Except Fault Connection := do
  ASSERT (cxn.state = .cxnConnectingS)
  let pending ← cxn.writeIsPending
  ASSERT (pending = false)
  match read with
  | .failed => cxn.sleepOrDie cfg
  | .incomplete => return cxn.prepareRead .getBanner
  | .responses lines =>
    if codeOf lines = some 200 ∨ codeOf lines = some 201 then
      if cfg.hasLogin then cxn.issueAuthUser cfg else cxn.issueModeStream cfg
    else cxn.sleepOrDie cfg

def Connection.getResponse (done : ReadCbk) (read : Read) (cxn : Connection)
    (use : Nat → Connection → Except Fault Connection) : Except Fault Connection := do
  ASSERT (cxn.state = .cxnConnectingS)
  cxn.VALIDATE cfg
  let pending ← cxn.writeIsPending
  match read with
  | .failed => cxn.sleepOrDie cfg
  | .incomplete => if pending then cxn.sleepOrDie cfg else return cxn.prepareRead done
  | .responses lines =>
    if pending then cxn.sleepOrDie cfg
    else
      let cxn := { cxn with readBlockedTimer := false }
      match codeOf lines with
      | none => cxn.sleepOrDie cfg
      | some code => use code cxn

def Connection.getAuthUserResponse (read : Read) (cxn : Connection) : Except Fault Connection :=
  cxn.getResponse cfg .getAuthUserResponse read fun code cxn =>
    if code = 381 then cxn.issueAuthPass cfg else Connection.issueModeStream cfg
      { cxn with authenticated := true }

def Connection.getAuthPassResponse (read : Read) (cxn : Connection) : Except Fault Connection :=
  cxn.getResponse cfg .getAuthPassResponse read fun code cxn =>
    if code = 281 then Connection.issueModeStream cfg { cxn with authenticated := true }
      else cxn.sleepOrDie cfg

def Connection.getModeResponse (env : Env) (read : Read) (cxn : Connection) :
    Except Fault Connection :=
  cxn.getResponse cfg .getModeResponse read fun code cxn => do
    let streams := code = 203 ∧ cfg.wantsStreaming = true
    let cxn := { cxn with
      doesStreaming := cxn.doesStreaming || streams
      maxCheck := if streams then cfg.maxChecks else 1
      timeCon := true }
    let cxn ← if cxn.articleQTotal = 0 then cxn.idle cfg
      else pure { cxn with state := .cxnFeedingS }
    let cxn := cxn.prepareRead .responseIsRead
    if cxn.writesNeeded then cxn.doSomeWrites cfg env.gone
    else
      let (gaveSomething, cxn) ← cxn.gimmeArticle cfg
      if gaveSomething then cxn.doSomeWrites cfg env.gone else return cxn

inductive RespQueue
  | check
  | take
  deriving DecidableEq

def Connection.respHead (cxn : Connection) : RespQueue → List Article
  | .check => cxn.checkRespHead
  | .take => cxn.takeRespHead

def Connection.setRespHead (cxn : Connection) (arts : List Article) : RespQueue → Connection
  | .check => { cxn with checkRespHead := arts }
  | .take => { cxn with takeRespHead := arts }

def Connection.noSuchMessageId (cxn : Connection) : Except Fault Connection :=
  if cxn.state ≠ .cxnClosingS then cxn.sleep cfg else cxn.die cfg

def Connection.idleIfDone (cxn : Connection) : Except Fault Connection := do
  if cxn.articleQTotal = 0 then
    let pending ← cxn.writeIsPending
    if pending = false then cxn.idle cfg else return cxn
  else return cxn

def Connection.finish (queue : RespQueue) (outcome : Outcome) (art : Article) (cxn : Connection) :
    Except Fault Connection := do
  let cxn :=
    { cxn.setRespHead ((cxn.respHead queue).erase art) queue
      with articleQTotal := cxn.articleQTotal - 1 }
  let cxn ← cxn.idleIfDone cfg
  cxn.articleGone cfg outcome art

def Connection.streamingResponse (queue : RespQueue) (response : Octets) (cxn : Connection)
    (use : Article → Connection → Except Fault Connection) : Except Fault Connection := do
  if cxn.doesStreaming = false ∨ ¬cxn.transfers then
    cxn.sleepOrDie cfg
  else
    cxn.VALIDATE cfg
    if cxn.respHead queue = [] then cxn.sleepOrDie cfg
    else
      match (getMsgId response).bind fun msgid => (cxn.respHead queue).find? fun art => msgid ≠ [] ∧
        art.msgid = msgid with
      | none => cxn.noSuchMessageId cfg
      | some art => use art cxn

def Connection.processResponse238 (cxn : Connection) (response : Octets) :
    Except Fault Connection :=
  cxn.streamingResponse cfg .check response fun art cxn =>
    let cxn := { cxn with checkRespHead := cxn.checkRespHead.erase art }
    if cxn.state ≠ .cxnClosingS then .ok { cxn with takeHead := cxn.takeHead ++ [art] }
    else .ok (Connection.takeBack cfg false { cxn with articleQTotal := cxn.articleQTotal - 1 } art)

def Connection.processResponse431 (cxn : Connection) (response : Octets) :
    Except Fault Connection :=
  cxn.streamingResponse cfg .check response (Connection.finish cfg .check .deferred)

def Connection.processResponse438 (cxn : Connection) (response : Octets) :
    Except Fault Connection :=
  cxn.streamingResponse cfg .check response (Connection.finish cfg .check .notWanted)

def Connection.processResponse239 (cxn : Connection) (response : Octets) :
    Except Fault Connection :=
  cxn.streamingResponse cfg .take response (Connection.finish cfg .take .accepted)

def Connection.processResponse439 (cxn : Connection) (response : Octets) :
    Except Fault Connection :=
  if cxn.doesStreaming = true ∧ cxn.transfers ∧ cxn.takeRespHead = [] ∧ cxn.checkRespHead ≠ [] then
    do
    cxn.VALIDATE cfg
    match getMsgId response with
    | none => throw .nullPointer
    | some msgid =>
      match cxn.checkRespHead.find? fun art => art.msgid = msgid with
      | none => cxn.noSuchMessageId cfg
      | some art => Connection.finish cfg .check .notWanted art cxn
  else
    cxn.streamingResponse cfg .take response (Connection.finish cfg .take .rejected)

def Connection.ihaveResponse (cxn : Connection) (use : Connection → Except Fault Connection) :
    Except Fault Connection :=
  if cxn.doesStreaming = true ∨ ¬cxn.transfers then cxn.sleepOrDie cfg else use cxn

def Connection.finishOnly (queue : RespQueue) (outcome : Outcome) (cxn : Connection) :
    Except Fault Connection := do
  match cxn.respHead queue with
  | [] => throw .nullPointer
  | art :: _ =>
    let cxn ← Connection.idleIfDone cfg
      { cxn.setRespHead [] queue with articleQTotal := cxn.articleQTotal - 1 }
    cxn.articleGone cfg outcome art

def Connection.bodyResponse (outcome : Outcome) (cxn : Connection) : Except Fault Connection :=
  cxn.ihaveResponse cfg fun cxn => do
    ASSERT (cxn.articleQTotal = 1)
    ASSERT (cxn.takeRespHead ≠ [])
    cxn.VALIDATE cfg
    cxn.finishOnly cfg .take outcome

def Connection.processResponse235 (cxn : Connection) : Except Fault Connection :=
    cxn.bodyResponse cfg .accepted

def Connection.processResponse437 (cxn : Connection) : Except Fault Connection :=
    cxn.bodyResponse cfg .rejected

def Connection.processResponse335 (cxn : Connection) : Except Fault Connection :=
  cxn.ihaveResponse cfg fun cxn =>
    if cxn.checkRespHead = [] then cxn.sleepOrDie cfg
    else do
      cxn.VALIDATE cfg
      Connection.issueIHAVEBody cfg { cxn with takeHead := cxn.checkRespHead, checkRespHead := [] }

def Connection.processResponse435 (cxn : Connection) : Except Fault Connection :=
  cxn.ihaveResponse cfg fun cxn =>
    if cxn.checkRespHead = [] then cxn.sleepOrDie cfg
    else do
      ASSERT (cxn.articleQTotal = 1)
      cxn.VALIDATE cfg
      cxn.finishOnly cfg .check .notWanted

def Connection.processResponse436 (cxn : Connection) : Except Fault Connection :=
  cxn.ihaveResponse cfg fun cxn => do
    ASSERT (cxn.articleQTotal = 1)
    ASSERT (cxn.takeRespHead ≠ [] ∨ cxn.checkRespHead ≠ [])
    cxn.VALIDATE cfg
    cxn.finishOnly cfg (if cxn.takeRespHead ≠ [] then .take else .check) .deferred

def Connection.reads (cxn : Connection) : Prop := cxn.transfers ∨ cxn.state = .cxnIdleS

instance (cxn : Connection) : Decidable cxn.reads := inferInstanceAs (Decidable (_ ∨ _))

def Connection.processResponse400 (cxn : Connection) : Except Fault Connection :=
  if ¬cxn.reads then cxn.sleepOrDie cfg
  else do
    cxn.VALIDATE cfg
    if ← cxn.writeIsPending then cxn.sleepOrDie cfg
    else if 0 < cxn.articleQTotal then
      let cxn ← cxn.deferAllArticles cfg
      let cxn ← Connection.idle cfg { cxn with readBlockedTimer := false }
      cxn.sleepOrDie cfg
    else cxn.sleepOrDie cfg

def Connection.processResponse480 (cxn : Connection) : Except Fault Connection :=
  cxn.ihaveResponse cfg fun cxn => do
    cxn.VALIDATE cfg
    cxn.sleepOrDie cfg

def Connection.depart (env : Env) (cxn : Connection) : Except Fault Connection :=
  if cxn.state = .cxnFlushingS ∧ cxn.immedRecon = true then do
    let cxn ← cxn.abort cfg
    let (_, cxn) ← cxn.connect cfg env
    return cxn
  else if cxn.state = .cxnFlushingS then cxn.wait cfg
  else cxn.die cfg

def Connection.processResponse205 (env : Env) (cxn : Connection) : Except Fault Connection := do
  cxn.VALIDATE cfg
  if cxn.leaving then
    ASSERT (cxn.articleQTotal = 0)
    cxn.depart cfg env
  else cxn.sleepOrDie cfg

def Connection.processResponse503 (env : Env) (cxn : Connection) : Except Fault Connection := do
  cxn.VALIDATE cfg
  if cxn.reads then cxn.depart cfg env else cxn.sleepOrDie cfg

def Connection.dispatch (env : Env) (cxn : Connection) (code : Nat) (response : Octets) :
    Except Fault Connection :=
  match code with
  | 205 => cxn.processResponse205 cfg env
  | 238 => cxn.processResponse238 cfg response
  | 431 => if cfg.dropDeferred then cxn.processResponse438 cfg response
      else cxn.processResponse431 cfg response
  | 438 => cxn.processResponse438 cfg response
  | 239 => cxn.processResponse239 cfg response
  | 439 => cxn.processResponse439 cfg response
  | 335 => cxn.processResponse335 cfg
  | 435 => cxn.processResponse435 cfg
  | 436 =>
    if cxn.takeRespHead = [] ∧ cfg.dropDeferred = true then cxn.processResponse435 cfg
      else cxn.processResponse436 cfg
  | 437 => cxn.processResponse437 cfg
  | 400 => cxn.processResponse400 cfg
  | 235 => cxn.processResponse235 cfg
  | 480 => cxn.processResponse480 cfg
  | 503 => cxn.processResponse503 cfg env
  | _ => cxn.sleepOrDie cfg

def Connection.handleResponses (env : Env) :
    List Octets → Connection → Except Fault (Bool × Connection)
  | [], cxn => .ok (false, cxn)
  | response :: rest, cxn =>
    match getNntpResponse response with
    | none => do
        let cxn ← cxn.sleepOrDie cfg
        return (true, cxn)
    | some (code, _) => do
        let cxn ← cxn.dispatch cfg env code response
        cxn.VALIDATE cfg
        if cxn.reads then cxn.handleResponses env rest else return (false, cxn)

def Connection.switchMode (env : Env) (cxn : Connection) : Connection :=
  if cxn.state = .cxnFeedingS ∧ cxn.doesStreaming = true then
    if env.aboveOnThreshold && cxn.needsChecks then { cxn with needsChecks := false }
    else if env.belowOffThreshold && !cxn.needsChecks then { cxn with needsChecks := true }
    else cxn
  else cxn

def Connection.readOn (env : Env) (cxn : Connection) : Except Fault Connection :=
  match cxn.state with
  | .cxnIdleS | .cxnFeedingS | .cxnClosingS | .cxnFlushingS => do
      let cxn := (cxn.switchMode env).prepareRead .responseIsRead
      cxn.VALIDATE cfg
      let cxn ← cxn.doSomeWrites cfg env.gone
      cxn.VALIDATE cfg
      return cxn
  | .cxnWaitingS | .cxnConnectingS | .cxnSleepingS => return cxn
  | .cxnDeadS => cxn.delete
  | _ => throw .badState

def Connection.responseIsRead (env : Env) (read : Read) (cxn : Connection) :
    Except Fault Connection := do
  ASSERT cxn.reads
  cxn.VALIDATE cfg
  match read with
  | .failed =>
    if cxn.state = .cxnClosingS then
      let cxn ← cxn.die cfg
      cxn.delete
    else cxn.sleep cfg
  | .incomplete => return cxn.prepareRead .responseIsRead
  | .responses lines =>
    let (malformed, cxn) ← cxn.handleResponses cfg env lines
    if malformed then return cxn else cxn.readOn cfg env

def ReadCbk.call (env : Env) (read : Read) : ReadCbk → Connection → Except Fault Connection
  | .getBanner => Connection.getBanner cfg read
  | .getAuthUserResponse => Connection.getAuthUserResponse cfg read
  | .getAuthPassResponse => Connection.getAuthPassResponse cfg read
  | .getModeResponse => Connection.getModeResponse cfg env read
  | .responseIsRead => Connection.responseIsRead cfg env read

def Connection.dieAndDelete (cxn : Connection) : Except Fault Connection := do
  let cxn ← cxn.die cfg
  cxn.delete

def Connection.quitWritten (ok : Bool) (cxn : Connection) : Except Fault Connection := do
  let cxn := { cxn with writeBlockedTimer := false }
  cxn.VALIDATE cfg
  if ok then cxn.initReadBlockedTimeout cfg
  else if cxn.state = .cxnClosingS then cxn.dieAndDelete cfg
  else cxn.wait cfg

def Connection.idleOrWait (cxn : Connection) : Except Fault Connection :=
  if cxn.state = .cxnFeedingS ∧ cxn.articleQTotal = 0 then cxn.idle cfg
    else cxn.initReadBlockedTimeout cfg

def Connection.ihaveBodyDone (ok : Bool) (cxn : Connection) : Except Fault Connection := do
  let cxn := { cxn with writeBlockedTimer := false }
  if ok then cxn.idleOrWait cfg
  else if cxn.state = .cxnClosingS then cxn.dieAndDelete cfg
  else cxn.sleep cfg

def Connection.commandWriteDone (env : Env) (ok : Bool) (cxn : Connection) :
    Except Fault Connection := do
  let cxn := { cxn with writeBlockedTimer := false }
  if ok then
    let cxn ← cxn.idleOrWait cfg
    if cxn.doesStreaming then cxn.doSomeWrites cfg env.gone else return cxn
  else if cxn.state = .cxnClosingS then cxn.dieAndDelete cfg
  else
    let cxn ← cxn.deferAllArticles cfg
    let cxn ← cxn.idle cfg
    cxn.sleep cfg

def Connection.commandIssued (ok : Bool) (cxn : Connection) : Except Fault Connection := do
  let cxn ← Connection.initReadBlockedTimeout cfg { cxn with writeBlockedTimer := false }
  if ok then return cxn else cxn.sleepOrDie cfg

def WriteCbk.call (env : Env) (ok : Bool) : WriteCbk → Connection → Except Fault Connection
  | .connectionDone => Connection.connectionDone cfg ok
  | .authUserIssued | .authPassIssued | .modeCmdIssued => Connection.commandIssued cfg ok
  | .commandWriteDone => Connection.commandWriteDone cfg env ok
  | .ihaveBodyDone => Connection.ihaveBodyDone cfg ok
  | .quitWritten => Connection.quitWritten cfg ok

def Connection.workProc (env : Env) (cxn : Connection) : Except Fault Connection :=
  if cxn.writesNeeded then cxn.doSomeWrites cfg env.gone
  else if cxn.leaving ∧ cxn.articleQTotal = 0 then cxn.issueQUIT cfg
  else return cxn

def Connection.flush (env : Env) (cxn : Connection) : Except Fault Connection := do
  ASSERT (cxn.state ≠ .cxnStartingS ∧ cxn.state ≠ .cxnDeadS)
  cxn.VALIDATE cfg
  match cxn.state with
  | .cxnSleepingS => cxn.wait cfg
  | .cxnConnectingS =>
    let cxn ← cxn.wait cfg
    let (_, cxn) ← cxn.connect cfg env
    return cxn
  | .cxnIdleTimeoutS | .cxnIdleS =>
    ASSERT (cxn.articleQTotal = 0)
    Connection.issueQUIT cfg { cxn with
      artReceiptTimer := cxn.artReceiptTimer && cxn.state = .cxnIdleTimeoutS
      flushTimer := false
      state := .cxnFlushingS }
  | .cxnClosingS | .cxnFlushingS | .cxnWaitingS =>
    if cxn.articleQTotal = 0 then
      let pending ← cxn.writeIsPending
      if pending then return cxn else cxn.issueQUIT cfg
    else return cxn
  | .cxnFeedingS =>
    let cxn := { cxn with
      immedRecon := cxn.immedRecon || 0 < cxn.articleQTotal
      flushTimer := false
      state := .cxnFlushingS }
    if cxn.articleQTotal = 0 then
      let pending ← cxn.writeIsPending
      if pending then return cxn else cxn.issueQUIT cfg
    else return cxn
  | _ => throw .badState

def Connection.stop (cxn : Connection) (queued : Connection → Connection) :
    Except Fault Connection :=
  match cxn.state with
  | .cxnFeedingS => do
      let cxn := queued { cxn with flushTimer := false, state := .cxnClosingS }
      if cxn.articleQTotal = 0 then cxn.issueQUIT cfg else return cxn
  | .cxnIdleTimeoutS | .cxnIdleS => do
      ASSERT (cxn.articleQTotal = 0)
      Connection.issueQUIT cfg { cxn with
        artReceiptTimer := cxn.artReceiptTimer && cxn.state = .cxnIdleTimeoutS
        flushTimer := false
        state := .cxnClosingS }
  | .cxnFlushingS => do
      let cxn := { cxn with state := .cxnClosingS }
      if cxn.articleQTotal = 0 then cxn.issueQUIT cfg else return cxn
  | .cxnClosingS => return cxn
  | .cxnWaitingS | .cxnConnectingS | .cxnSleepingS => cxn.die cfg
  | _ => throw .badState

def Connection.closing (cxn : Connection) (queued : Connection → Connection) :
    Except Fault Connection := do
  ASSERT (cxn.state ≠ .cxnStartingS ∧ cxn.state ≠ .cxnDeadS)
  cxn.VALIDATE cfg
  let cxn ← cxn.stop cfg queued
  cxn.VALIDATE cfg
  if cxn.state = .cxnDeadS then cxn.delete else return cxn

def Connection.close (cxn : Connection) : Except Fault Connection := cxn.closing cfg id

def Connection.terminate (cxn : Connection) : Except Fault Connection :=
  cxn.closing cfg (Connection.deferQueuedArticles cfg)

def Connection.nuke (cxn : Connection) : Except Fault Connection := do
  let cxn ← cxn.abort cfg
  cxn.delete

def Connection.takeArticle (env : Env) (art : Article) (cxn : Connection) :
    Except Fault Connection := do
  cxn.VALIDATE cfg
  let (queued, cxn) ← cxn.queueArticle cfg art
  if queued then
    match cxn.state with
    | .cxnWaitingS =>
      ASSERT (cxn.articleQTotal = 1)
      let (_, cxn) ← cxn.connect cfg env
      return cxn
    | .cxnFeedingS =>
      cxn.VALIDATE cfg
      cxn.doSomeWrites cfg env.gone
    | .cxnConnectingS =>
      cxn.VALIDATE cfg
      return cxn
    | _ => cxn.sleepOrDie cfg
  else return cxn

def Connection.timedOut (cxn : Connection) : Except Fault Connection := do
  ASSERT (cxn.state = .cxnConnectingS ∨ cxn.transfers)
  cxn.VALIDATE cfg
  if cxn.state = .cxnClosingS then cxn.nuke cfg else cxn.sleep cfg

inductive Timer
  | responseTimeoutCbk
  | writeTimeoutCbk
  | reopenTimeoutCbk
  | flushCxnCbk
  | articleTimeoutCbk
  deriving DecidableEq

def Timer.runs (cxn : Connection) : Timer → Bool
  | .responseTimeoutCbk => cxn.readBlockedTimer
  | .writeTimeoutCbk => cxn.writeBlockedTimer
  | .reopenTimeoutCbk => cxn.sleepTimer
  | .flushCxnCbk => cxn.flushTimer
  | .articleTimeoutCbk => cxn.artReceiptTimer

def Timer.call (env : Env) (cxn : Connection) : Timer → Except Fault Connection
  | .responseTimeoutCbk | .writeTimeoutCbk => cxn.timedOut cfg
  | .reopenTimeoutCbk => do
      let cxn := { cxn with sleepTimer := false }
      if cxn.state ≠ .cxnSleepingS then cxn.sleepOrDie cfg
      else
        let (_, cxn) ← cxn.connect cfg env
        return cxn
  | .flushCxnCbk => do
      cxn.VALIDATE cfg
      let cxn := { cxn with flushTimer := false }
      if cxn.state = .cxnFeedingS ∨ cxn.state = .cxnConnectingS ∨ cxn.state = .cxnIdleS then
        cxn.flush cfg env
      else cxn.sleepOrDie cfg
  | .articleTimeoutCbk => do
      cxn.VALIDATE cfg
      let cxn := { cxn with artReceiptTimer := false }
      if cxn.state ≠ .cxnIdleS then cxn.sleepOrDie cfg
      else if 0 < cxn.articleQTotal then return cxn
      else Connection.flush cfg env { cxn with state := .cxnIdleTimeoutS }

inductive Action
  | read (result : Read)
  | written (ok : Bool)
  | work
  | timeout (timer : Timer)
  | cxnConnect
  | cxnWait
  | cxnTakeArticle (art : Article)
  | cxnFlush
  | cxnClose
  | cxnTerminate
  | cxnNuke

structure Event where
  action : Action
  env : Env
  gives : List (List Article)
  offered : List Article

def Connection.callback (cxn : Connection) (endp : EndPoint) (env : Env) :
    Action → Except Fault Connection
  | .read result =>
    match endp.reading with
    | some done => done.call cfg env result { cxn with myEp := some { endp with reading := none } }
    | none => .ok cxn
  | .written ok =>
    match endp.writing with
    | some done => done.call cfg env ok { cxn with myEp := some { endp with writing := none } }
    | none => .ok cxn
  | .work =>
    if endp.workCbk then Connection.workProc cfg env
      { cxn with myEp := some { endp with workCbk := false } } else .ok cxn
  | _ => .ok cxn

def Connection.act (env : Env) (cxn : Connection) (action : Action) : Except Fault Connection :=
  match action with
  | .read _ | .written _ | .work =>
    match cxn.myEp with
    | some endp => cxn.callback cfg endp env action
    | none => .ok cxn
  | .timeout timer => if timer.runs cxn then timer.call cfg env cxn else .ok cxn
  | .cxnConnect => if cxn.state = .cxnStartingS then (cxn.connect cfg env).map Prod.snd else .ok cxn
  | .cxnWait => if cxn.state = .cxnStartingS then cxn.wait cfg else .ok cxn
  | .cxnTakeArticle art => cxn.takeArticle cfg env art
  | .cxnFlush => cxn.flush cfg env
  | .cxnClose => cxn.close cfg
  | .cxnTerminate => cxn.terminate cfg
  | .cxnNuke => cxn.nuke cfg

def step (cxn : Connection) (event : Event) : Except Fault Connection :=
  if cxn.deleted then .ok cxn
  else
    Connection.act cfg event.env { cxn with
      gives := event.gives, offered := event.offered } event.action >>=
      Connection.checked

def start : Connection where
  state := .cxnStartingS
  checkHead := []
  checkRespHead := []
  takeHead := []
  takeRespHead := []
  articleQTotal := 0
  missing := []
  maxCheck := 1
  myEp := none
  artReceiptTimer := false
  readBlockedTimer := false
  writeBlockedTimer := false
  flushTimer := false
  sleepTimer := false
  immedRecon := false
  doesStreaming := false
  authenticated := false
  quitWasIssued := false
  needsChecks := true
  timeCon := false
  deleted := false
  gives := []
  offered := []
  spoiled := false
  taken := []
  handedBack := []

end Inn.Innfeed.Connections
