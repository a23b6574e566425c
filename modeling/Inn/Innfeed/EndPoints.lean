import Mathlib

/-!
# The event loop of innfeed

The loop asks which descriptors are ready, and goes through the list of end points with the answer.
What it calls may prepare and cancel reads and writes, delete end points and make others, while
the answer stays as it was. From time to time the main end point is looked at between two others.
-/

namespace Inn.Innfeed.EndPoints

open Function (update)

inductive Kind
  | read
  | write
  deriving DecidableEq

structure Io where
  buffers : Option Nat
  cbk : Bool
  request : Nat

structure Ep where
  io : Kind → Io
  workCbk : Bool
  myFd : Nat

inductive Phase
  | start
  | select
  /-- At a place of the priority list. -/
  | visit (idx : Nat)
  /-- About to read for an end point, which may be the main one between two others. -/
  | read (idx ep fd : Nat) (specialCheck : Bool)
  | write (idx fd : Nat) (specialCheck : Bool)
  | work (idx : Nat)
  | stopped
  deriving DecidableEq

structure Call where
  kind : Kind
  ep : Nat
  request : Nat
  prepared : Bool
  reportedFor : Option Nat
  deriving DecidableEq

/-- The endpoints, and where the loop over them stands. -/
structure State where
  endPoints : Nat → Option Nat
  eps : Nat → Ep
  priorityList : List (Option Nat)
  maxEndPoints : Nat
  /-- `rdSet` and `wrSet` -/
  sets : Kind → Nat → Bool
  mainEndPoint : Option Nat
  mainEpIsReg : Bool
  keepSelecting : Bool
  thisTime : Nat
  phase : Phase
  /-- `rSet` and `wSet`, and what had the descriptors when they were reported. -/
  ready : Kind → Nat → Bool
  reported : Kind → Nat → Option Nat
  readyCount : Int
  endpointsServiced : Nat
  nextEp : Nat
  nextRequest : Nat
  calls : List Call

inductive Fault
  | useAfterFree
  | overflow
  deriving DecidableEq

def State.Live (s : State) (ep : Nat) : Prop := s.endPoints (s.eps ep).myFd = some ep

instance (s : State) (ep : Nat) : Decidable (s.Live ep) := inferInstanceAs (Decidable (_ = _))

def FD_SETSIZE : Nat := 1024

def SELECT_RATIO : Nat := 3

def tableSize (maxEndPoints fd : Nat) : Nat :=
    if maxEndPoints ≤ fd then (fd + 256) / 256 * 256 else maxEndPoints

def State.newEndPoint (s : State) (fd : Nat) : Except Fault State :=
  let s := { s with maxEndPoints := tableSize s.maxEndPoints fd }
  -- the system does not give out a descriptor that is open
  if (s.endPoints fd).isSome then .ok s
  else if FD_SETSIZE ≤ fd then .ok s
  else if s.maxEndPoints ≤ s.priorityList.length then .error .overflow
  else
    .ok
      { s with
        endPoints := update s.endPoints fd (some s.nextEp)
        eps := update s.eps s.nextEp ⟨fun _ => ⟨none, false, 0⟩, false, fd⟩
        priorityList := s.priorityList ++ [some s.nextEp]
        nextEp := s.nextEp + 1 }

def State.delEndPoint (s : State) (ep : Nat) : State :=
  let fd := (s.eps ep).myFd
  { s with
    mainEndPoint := if s.mainEndPoint = some ep then none else s.mainEndPoint
    sets := fun kind => update (s.sets kind) fd false
    endPoints := update s.endPoints fd none
    priorityList := s.priorityList.map fun slot => if slot = some ep then none else slot }

def State.setIo (s : State) (ep : Nat) (kind : Kind) (io : Io) : State :=
  { s with eps := update s.eps ep { s.eps ep with io := update (s.eps ep).io kind io } }

def State.setSet (s : State) (kind : Kind) (fd : Nat) (b : Bool) : State :=
  { s with sets := update s.sets kind (update (s.sets kind) fd b) }

def State.prepare (s : State) (kind : Kind) (ep : Nat) (buffers : Option Nat)
    (func : Bool) : State :=
  if ((s.eps ep).io kind).buffers.isSome ∨ s.sets kind (s.eps ep).myFd then s
  else
    { (s.setIo ep kind ⟨buffers, func, s.nextRequest⟩).setSet kind (s.eps ep).myFd true
      with nextRequest := s.nextRequest + 1 }

def State.cancel (s : State) (kind : Kind) (ep : Nat) : State :=
  (s.setIo ep kind ⟨none, false, ((s.eps ep).io kind).request⟩).setSet kind (s.eps ep).myFd false

def State.setWork (s : State) (ep : Nat) (cbk : Bool) : State :=
  { s with eps := update s.eps ep { s.eps ep with workCbk := cbk } }

inductive Op
  | newEndPoint (fd : Nat)
  | delEndPoint (ep : Nat)
  | prepare (kind : Kind) (ep : Nat) (buffers : Option Nat) (func : Bool)
  | cancel (kind : Kind) (ep : Nat)
  | addWorkCallback (ep : Nat) (cbk : Bool)
  | stopRun

def State.perform (s : State) : Op → Except Fault State
  | .newEndPoint fd => s.newEndPoint fd
  | .delEndPoint ep => .ok (if s.Live ep then s.delEndPoint ep else s)
  | .prepare kind ep buffers func => .ok (if s.Live ep then s.prepare kind ep buffers func else s)
  | .cancel kind ep => .ok (if s.Live ep then s.cancel kind ep else s)
  | .addWorkCallback ep cbk => .ok (if s.Live ep then s.setWork ep cbk else s)
  | .stopRun => .ok { s with keepSelecting := false }

def State.performAll : State → List Op → Except Fault State
  | s, [] => .ok s
  | s, op :: ops =>
    match s.perform op with
    | .error fault => .error fault
    | .ok s => s.performAll ops

inductive IoResult
  | completes
  | incomplete
  /-- A signal, with what its handler does. -/
  | interrupted
  /-- A part has been written, and the progress callback is called. -/
  | progress
  deriving DecidableEq

def doIo (kind : Kind) (buffers : Option Nat) (result : IoResult) : IoResult :=
  if buffers.getD 0 = 0 then .completes
  else if kind = .read ∧ result = .progress then .incomplete
  else result

def State.complete (s : State) (kind : Kind) (ep fd : Nat) : State :=
  (s.setIo ep kind { (s.eps ep).io kind with buffers := none }).setSet kind fd false

def State.call (s : State) (kind : Kind) (ep fd : Nat) : Call :=
  ⟨kind, ep, ((s.eps ep).io kind).request, s.sets kind fd, s.reported kind fd⟩

def State.calling (s : State) (kind : Kind) (ep fd : Nat) : State :=
  { s.complete kind ep fd with calls := s.call kind ep fd :: s.calls }

def State.counted (s : State) : State :=
  { s with readyCount := s.readyCount - 1, endpointsServiced := s.endpointsServiced + 1 }

def State.service (s : State) (kind : Kind) (ep fd : Nat) (result : IoResult) (ops : List Op) :
    Except Fault State :=
  if s.ready kind fd then
    let s := s.counted
    if ¬s.Live ep then .error .useAfterFree
    else
      match doIo kind ((s.eps ep).io kind).buffers result with
      | .completes =>
        if ((s.eps ep).io kind).cbk then (s.calling kind ep fd).performAll ops
          else .ok (s.complete kind ep fd)
      | .incomplete => .ok s
      | .progress => s.performAll ops
      | .interrupted =>
        match s.performAll ops with
        | .error fault => .error fault
        -- the end point is used behind the handler
        | .ok s => if s.Live ep then .ok s else .error .useAfterFree
  else .ok s

inductive SelectResult
  /-- There is nothing to wait for. -/
  | nothing
  | interrupted (handler : List Op)
  | failed
  | timeout (callbacks : List Op)
  | ready (sets : Kind → Nat → Bool) (count : Nat) (handler : List Op)

inductive SpecialResult
  | failed
  | none
  | ready (sets : Kind → Bool)

def State.reportMain (s : State) (main : Nat) (fd : Nat) (found : Kind → Bool) : State :=
  let hit (kind : Kind) : Bool := s.sets kind fd && found kind
  { s with
    ready := fun kind => if hit kind then update (s.ready kind) fd true else s.ready kind
    reported :=
      fun kind => if hit kind then update (s.reported kind) fd (some main) else s.reported kind
    readyCount := s.readyCount + (if hit .read then 1 else 0) + (if hit .write then 1 else 0) }

def State.choose (s : State) (idx ep : Nat) (special : SpecialResult) : State :=
  let plain (s : State) : State := { s with phase := .read idx ep (s.eps ep).myFd false }
  match s.mainEndPoint with
  | none => plain s
  | some main =>
    if s.endpointsServiced % ( SELECT_RATIO + 1) = 0 ∧ ep ≠ main ∧ s.mainEpIsReg = false then
      let s := { s with endpointsServiced := s.endpointsServiced + 1 }
      let fd := (s.eps main).myFd
      if s.sets .read fd ∨ s.sets .write fd then
        match special with
        | .failed => { s with keepSelecting := false, phase := .stopped }
        | .none => plain s
        | .ready found => { s.reportMain main fd found with phase := .read idx main fd true }
      else plain s
    else plain s

def State.reorderPriorityList (s : State) (order : List Nat) : State :=
  if 1 < s.thisTime then { s with thisTime := s.thisTime - 1 }
  else
    let held := s.priorityList.filterMap id
    { s with thisTime := 4, priorityList := (if order.Perm held then order else held).map some }

def State.again (s : State) (idx : Nat) (specialCheck : Bool) : Option Nat :=
  if specialCheck then s.mainEndPoint else s.priorityList.getD idx none

inductive Input
  /-- What has been prepared before `Run` is called, and the main end point. -/
  | start (ops : List Op) (main : Option (Nat × Bool))
  | select (wake : List Op) (result : SelectResult)
  | visit (special : SpecialResult)
  | io (result : IoResult) (ops : List Op)
  | reorder (order : List Nat)
  | work (ops : List Op)

def State.select (s : State) (result : SelectResult) : State × List Op :=
  match result with
  | .nothing => ({ s with phase := .stopped }, [])
  | .interrupted handler => ({ s with ready := s.sets, phase := .work 0 }, handler)
  | .failed => ({ s with ready := s.sets, keepSelecting := false, phase := .work 0 }, [])
  | .timeout callbacks => ({ s with ready := fun _ _ => false, phase := .work 0 }, callbacks)
  | .ready sets count handler =>
    ({ s with
        -- a descriptor is in the set only when it was asked for
        ready := fun kind fd => s.sets kind fd && sets kind fd
        reported := fun _ => s.endPoints
        readyCount := count
        endpointsServiced := 1
        phase := .visit 0 }, handler)

def State.step (s : State) (input : Input) : Except Fault State :=
  match s.phase, input with
  | .start, .start ops main =>
    match s.performAll ops with
    | .error fault => .error fault
    | .ok s =>
      .ok
        { s with
          mainEndPoint := main.bind fun main => if s.Live main.1 then some main.1 else none
          mainEpIsReg := main.any Prod.snd
          keepSelecting := true
          phase := .select }
  | .select, .select wake result =>
    if s.keepSelecting = false then .ok { s with phase := .stopped }
    else
      match s.performAll wake with
      | .error fault => .error fault
      | .ok s => (s.select result).1.performAll (s.select result).2
  | .visit idx, .visit special =>
    match s.priorityList[idx]? with
    | none => .ok s
    | some none => .ok { s with phase := .visit (idx + 1) }
    | some (some ep) => .ok
        (if 0 < s.readyCount then s.choose idx ep special else { s with phase := .visit (idx + 1) })
  | .visit idx, .reorder order =>
    .ok (if s.priorityList.length ≤ idx then
      { s.reorderPriorityList order with phase := .work 0 } else s)
  | .read idx ep fd specialCheck, .io result ops =>
    { s with phase := .write idx fd specialCheck }.service .read ep fd result ops
  | .write idx fd specialCheck, .io result ops =>
    let next := { s with phase := .visit (if specialCheck then idx else idx + 1) }
    match s.again idx specialCheck with
    | none => .ok next
    | some ep => if 0 < s.readyCount then next.service .write ep fd result ops else .ok next
  | .work idx, .work ops =>
    match s.priorityList[idx]? with
    | none => .ok { s with phase := .select }
    | some none => .ok { s with phase := .work (idx + 1) }
    | some (some ep) =>
      let fd := (s.eps ep).myFd
      let next := { s with phase := .work (idx + 1) }
      if s.ready .read fd = false ∧ s.ready .write fd = false ∧ (s.eps ep).workCbk then
        (next.setWork ep false).performAll ops
      else .ok next
  | _, _ => .ok s

def State.run : State → List Input → Except Fault State
  | s, [] => .ok s
  | s, input :: inputs =>
    match s.step input with
    | .error fault => .error fault
    | .ok s => s.run inputs

def State.empty : State where
  endPoints _ := none
  eps _ := ⟨fun _ => ⟨none, false, 0⟩, false, 0⟩
  priorityList := []
  maxEndPoints := 0
  sets _ _ := false
  mainEndPoint := none
  mainEpIsReg := false
  keepSelecting := false
  thisTime := 4
  phase := .start
  ready _ _ := false
  reported _ _ := none
  readyCount := 0
  endpointsServiced := 1
  nextEp := 0
  nextRequest := 0
  calls := []

end Inn.Innfeed.EndPoints
