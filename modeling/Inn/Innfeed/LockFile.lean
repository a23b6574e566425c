import Inn.Foundation.Locks
import Inn.Foundation.Runs

/-!
# The lock of a backlog

A process writes its number to a file of its own and links the name of the lock to it. When
the name is taken, it reads the number of the owner, asks whether that process is alive,
and otherwise removes the name. Each system call is a step, and other processes take
theirs in between.
-/

namespace Inn.Innfeed.LockFile

open Foundation.Locks
open Foundation.Runs
open Function (update)

variable {ι : Type} [DecidableEq ι]

inductive Stage (ι : Type)
  | dead
  | away
  | creating
  | writing (f : Nat)
  | linking
  | opening
  | reading (f : Nat)
  | asking (f : Nat) (pid : ι)
  | stale (f : Nat)
  | failing
  | done (f : Nat)
  | locked (f : Nat)
  deriving DecidableEq

structure State (ι : Type) where
  stage : ι → Stage ι
  tmpName : ι → Option Nat
  realName : Option Nat
  pid : Nat → Option ι
  next : Nat

inductive Call
  | lockFile
  | create
  | write
  | link
  | «open»
  | read
  | kill
  | unlinkReal
  | unlinkTmp
  | unlockFile
  | exit
  | start
  deriving DecidableEq

structure Action (ι : Type) where
  who : ι
  call : Call
  ok : Bool

def State.goto (s : State ι) (p : ι) (stage : Stage ι) : State ι :=
    { s with stage := update s.stage p stage }

def State.setTmp (s : State ι) (p : ι) (f : Option Nat) : State ι :=
    { s with tmpName := update s.tmpName p f }

def step (maySignal : ι → ι → Bool) (s : State ι) (a : Action ι) : Except Unit (State ι) :=
  let p := a.who
  match a.call, s.stage p with
  | .lockFile, .away => .ok (s.goto p .creating)
  | .create, .creating =>
    match s.tmpName p with
    | some _ =>
      -- One from an earlier process of that number is removed, and the call made again.
      if a.ok then .ok (s.setTmp p none) else .ok (s.goto p .away)
    | none =>
      if a.ok then
        .ok { (s.setTmp p (some s.next)).goto p (.writing s.next) with
          pid := update s.pid s.next none
          next := s.next + 1 }
      else .ok (s.goto p .away)
  | .write, .writing f =>
    if a.ok then .ok { s.goto p .linking with pid := update s.pid f (some p) }
    else .ok ((s.setTmp p none).goto p .away)
  | .link, .linking =>
    match s.realName, s.tmpName p with
    | none, some f => if a.ok then .ok { s.goto p (.done f) with realName := some f }
        else .ok (s.goto p .failing)
    | some _, some _ => if a.ok then .ok (s.goto p .opening) else .ok (s.goto p .failing)
    | _, none => .ok (s.goto p .failing)
  | .open, .opening =>
    match s.realName with
    | some f => if a.ok then .ok (s.goto p (.reading f)) else .ok (s.goto p .failing)
    | none => .ok (s.goto p .failing)
  | .read, .reading f =>
    match s.pid f with
    | some pid => if a.ok then .ok (s.goto p (.asking f pid)) else .ok (s.goto p .failing)
    | none => .ok (s.goto p .failing)
  | .kill, .asking f pid =>
    if s.stage pid ≠ .dead ∧ maySignal p pid then .ok (s.goto p .failing)
      else .ok (s.goto p (.stale f))
  | .unlinkReal, .stale _ =>
    match s.realName with
    | some _ => if a.ok then .ok { s.goto p .linking with realName := none }
        else .ok (s.goto p .failing)
    | none => .ok (s.goto p .failing)
  | .unlinkTmp, .failing => .ok ((s.setTmp p none).goto p .away)
  | .unlinkTmp, .done f => .ok ((s.setTmp p none).goto p (.locked f))
  | .unlockFile, .locked _ =>
    if a.ok then .ok { s.goto p .away with realName := none } else .ok (s.goto p .away)
  | .exit, stage => if stage = .dead then .error () else .ok (s.goto p .dead)
  | .start, .dead => .ok (s.goto p .away)
  | _, _ => .error ()

def Stage.holds : Stage ι → Option Nat
  | .done f => some f
  | .locked f => some f
  | _ => none

def State.lock (s : State ι) : Lock ι Nat := ⟨s.realName, fun p => (s.stage p).holds⟩

def Believes (s : State ι) (p : ι) : Prop := s.lock.Believed p

instance (s : State ι) (p : ι) : Decidable (Believes s p) := by
  unfold Believes Lock.Believed
  infer_instance

/-- A lock is only removed when nobody holds it. -/
def Stale (s : State ι) (a : Action ι) : Prop :=
    a.call = .unlinkReal → a.ok = true → Deserted s.lock

instance {n : Nat} (s : State (Fin n)) (a : Action (Fin n)) : Decidable (Stale s a) := by
  unfold Stale
  infer_instance

theorem lock_goto (s : State ι) (p : ι) (stage : Stage ι) :
    (s.goto p stage).lock = ⟨s.realName, update s.lock.taken p stage.holds⟩ :=
  lock_update s.realName Stage.holds s.stage p stage

theorem move_goto {s : State ι} {p : ι} {stage : Stage ι} (hold : (s.stage p).holds = none)
    (hnew : stage.holds = none) :
    Move s.lock (s.goto p stage).lock := by
  have hsame : (s.goto p stage).lock = s.lock := by
    rw [lock_goto, hnew]
    exact congrArg (Lock.mk s.realName) (Function.update_eq_self_iff.mpr hold.symm)
  rw [hsame]
  exact .stay

theorem step_moves {maySignal : ι → ι → Bool} {s s' : State ι} {a : Action ι} (hstale : Stale s a)
    (hstep : step maySignal s a = .ok s') : Move s.lock s'.lock := by
  unfold step at hstep
  dsimp only at hstep
  split at hstep
  next hcall hstage =>
    cases hstep
    exact move_goto (by rw [hstage]; rfl) rfl
  next hcall hstage =>
    split at hstep
    next =>
      split at hstep
      next =>
        cases hstep
        exact .stay
      next =>
        cases hstep
        exact move_goto (by rw [hstage]; rfl) rfl
    next =>
      split at hstep <;> obtain rfl :=
        Except.ok.inj hstep <;> exact move_goto (s := s) (by rw [hstage]; rfl) rfl
  next f hcall hstage =>
    split at hstep <;> obtain rfl :=
      Except.ok.inj hstep <;> exact move_goto (s := s) (by rw [hstage]; rfl) rfl
  next hcall hstage =>
    split at hstep
    next f hfree _ =>
      split at hstep
      next =>
        -- The name has not been taken, and is linked.
        cases hstep
        have htaken := congrArg Lock.taken (lock_goto s a.who (.done f))
        change Move s.lock ⟨some f, (s.goto a.who (.done f)).lock.taken⟩
        rw [htaken]
        exact .take a.who f hfree
      next =>
        cases hstep
        exact move_goto (by rw [hstage]; rfl) rfl
    next =>
      split at hstep <;> obtain rfl :=
        Except.ok.inj hstep <;> exact move_goto (by rw [hstage]; rfl) rfl
    next =>
      cases hstep
      exact move_goto (by rw [hstage]; rfl) rfl
  next hcall hstage =>
    split at hstep
    next => split at hstep <;> obtain rfl :=
      Except.ok.inj hstep <;> exact move_goto (by rw [hstage]; rfl) rfl
    next =>
      cases hstep
      exact move_goto (by rw [hstage]; rfl) rfl
  next f hcall hstage =>
    split at hstep
    next => split at hstep <;> obtain rfl :=
      Except.ok.inj hstep <;> exact move_goto (by rw [hstage]; rfl) rfl
    next =>
      cases hstep
      exact move_goto (by rw [hstage]; rfl) rfl
  next f pid hcall hstage =>
    split at hstep <;> obtain rfl :=
      Except.ok.inj hstep <;> exact move_goto (by rw [hstage]; rfl) rfl
  next f hcall hstage =>
    split at hstep
    next =>
      split at hstep
      next hok =>
        -- The name is removed although somebody may have linked it meanwhile.
        cases hstep
        have htaken := congrArg Lock.taken (lock_goto s a.who .linking)
        have hsame : update s.lock.taken a.who (Stage.linking : Stage ι).holds = s.lock.taken :=
          Function.update_eq_self_iff.mpr (congrArg Stage.holds hstage).symm
        change Move s.lock ⟨none, (s.goto a.who .linking).lock.taken⟩
        rw [htaken, hsame]
        exact .remove (hstale hcall hok)
      next =>
        cases hstep
        exact move_goto (by rw [hstage]; rfl) rfl
    next =>
      cases hstep
      exact move_goto (by rw [hstage]; rfl) rfl
  next hcall hstage =>
    cases hstep
    exact move_goto (s := s) (by rw [hstage]; rfl) rfl
  next f hcall hstage =>
    -- The temporary name is removed, and the lock is the same.
    cases hstep
    have hsame : update s.lock.taken a.who (Stage.locked f : Stage ι).holds = s.lock.taken :=
      Function.update_eq_self_iff.mpr (congrArg Stage.holds hstage).symm
    change Move s.lock (s.goto a.who (.locked f)).lock
    rw [lock_goto, hsame]
    exact .stay
  next f hcall hstage =>
    have hholds : s.lock.taken a.who = some f := congrArg Stage.holds hstage
    split at hstep
    next =>
      cases hstep
      have htaken := congrArg Lock.taken (lock_goto s a.who .away)
      change Move s.lock ⟨none, (s.goto a.who .away).lock.taken⟩
      rw [htaken]
      exact .give a.who f hholds
    next =>
      cases hstep
      rw [lock_goto]
      exact .leave a.who
  next stage hcall hstage =>
    split at hstep
    next => cases hstep
    next =>
      cases hstep
      rw [lock_goto]
      exact .leave a.who
  next hcall hstage =>
    cases hstep
    exact move_goto (by rw [hstage]; rfl) rfl
  next => cases hstep

theorem held_of_run {maySignal : ι → ι → Bool} {s s' : State ι} (hs : Held s.lock)
    {actions : List (Action ι)}
    (hmeets : Meets (step maySignal) Stale actions s)
    (hrun : run (step maySignal) actions s = .ok s') : Held s'.lock :=
  of_run_of_meets (fun _ _ _ hheld hstale hstep => (step_moves hstale hstep).held hheld)
    hs hmeets hrun

end Inn.Innfeed.LockFile
