import Inn.Innfeed.LockFile

/-!
# The lock of a post record

The lock is a file that is created only when there is none. One that is older than the
back-off of the reader is removed, whether its owner is still at work or not.
-/

namespace Inn.Nnrpd.PostRec

open Foundation.Locks
open Foundation.Runs

variable {ι : Type} [DecidableEq ι]

inductive Stage
  | dead
  | away
  | opening (statfailed : Nat)
  | statting (statfailed : Nat)
  | judging (ctime : Int)
  | stale
  | sleeping (statfailed : Nat)
  | writing (f : Nat)
  | locked (f : Nat)
  deriving DecidableEq

structure State (ι : Type) where
  stage : ι → Stage
  lockname : Option Nat
  ctime : Nat → Int
  next : Nat

inductive Call
  | LockPostRec
  | «open»
  | write
  | stat
  | time
  | unlink
  | sleep
  | UnlockPostRec
  | exit
  | start
  deriving DecidableEq

structure Action (ι : Type) where
  who : ι
  call : Call
  ok : Bool
  now : Int

def State.goto (s : State ι) (p : ι) (stage : Stage) : State ι :=
    { s with stage := Function.update s.stage p stage }

def step (backoff_postslow : ι → Int) (s : State ι) (a : Action ι) : Except Unit (State ι) :=
  let p := a.who
  match a.call, s.stage p with
  | .LockPostRec, .away => .ok (s.goto p (.opening 0))
  | .open, .opening statfailed =>
    match s.lockname with
    | none =>
      if a.ok then
        .ok { s.goto p (.writing s.next) with
          lockname := some s.next
          ctime := Function.update s.ctime s.next a.now
          next := s.next + 1 }
      else .ok (s.goto p (.statting statfailed))
    | some _ => .ok (s.goto p (.statting statfailed))
  | .write, .writing f => .ok { s.goto p (.locked f) with ctime := Function.update s.ctime f a.now }
  | .stat, .statting statfailed =>
    match s.lockname, a.ok with
    | some f, true => .ok (s.goto p (.judging (s.ctime f)))
    | _, _ => if statfailed > 5 then .ok (s.goto p .away)
        else .ok (s.goto p (.sleeping (statfailed + 1)))
  | .time, .judging ctime =>
    if a.now < ctime + backoff_postslow p then .ok (s.goto p (.sleeping 0))
      else .ok (s.goto p .stale)
  | .unlink, .stale =>
    if a.ok then .ok { s.goto p (.sleeping 0) with lockname := none }
      else .ok (s.goto p (.sleeping 0))
  | .sleep, .sleeping statfailed => .ok (s.goto p (.opening statfailed))
  | .UnlockPostRec, .locked _ =>
    if a.ok then .ok { s.goto p .away with lockname := none } else .ok (s.goto p .away)
  | .exit, stage => if stage = .dead then .error () else .ok (s.goto p .dead)
  | .start, .dead => .ok (s.goto p .away)
  | _, _ => .error ()

def Stage.holds : Stage → Option Nat
  | .writing f => some f
  | .locked f => some f
  | _ => none

def State.lock (s : State ι) : Lock ι Nat := ⟨s.lockname, fun p => (s.stage p).holds⟩

def Believes (s : State ι) (p : ι) : Prop := s.lock.Believed p

/-- A lock is only removed when nobody holds it. -/
def Stale (s : State ι) (a : Action ι) : Prop := a.call = .unlink → a.ok = true → Deserted s.lock

instance {n : Nat} (s : State (Fin n)) (a : Action (Fin n)) : Decidable (Stale s a) := by
  unfold Stale
  infer_instance

theorem lock_goto (s : State ι) (p : ι) (stage : Stage) :
    (s.goto p stage).lock = ⟨s.lockname, Function.update s.lock.taken p stage.holds⟩ :=
  lock_update s.lockname Stage.holds s.stage p stage

theorem move_goto {s : State ι} {p : ι} {stage : Stage} (hsame : stage.holds = (s.stage p).holds) :
    Move s.lock (s.goto p stage).lock := by
  have hlock : (s.goto p stage).lock = s.lock := by
    rw [lock_goto]
    exact congrArg (Lock.mk s.lockname) (Function.update_eq_self_iff.mpr hsame)
  rw [hlock]
  exact .stay

theorem step_moves {backoff_postslow : ι → Int} {s s' : State ι} {a : Action ι} (hstale : Stale s a)
    (hstep : step backoff_postslow s a = .ok s') : Move s.lock s'.lock := by
  unfold step at hstep
  dsimp only at hstep
  split at hstep
  next hcall hstage =>
    cases hstep
    exact move_goto (by rw [hstage]; rfl)
  next statfailed hcall hstage =>
    split at hstep
    next hfree =>
      split at hstep
      next =>
        -- The file is made with the name.
        cases hstep
        have htaken := congrArg Lock.taken (lock_goto s a.who (.writing s.next))
        change Move s.lock ⟨some s.next, (s.goto a.who (.writing s.next)).lock.taken⟩
        rw [htaken]
        exact .take a.who s.next hfree
      next =>
        cases hstep
        exact move_goto (by rw [hstage]; rfl)
    next =>
      cases hstep
      exact move_goto (by rw [hstage]; rfl)
  next f hcall hstage =>
    cases hstep
    exact move_goto (s := s) (by rw [hstage]; rfl)
  next statfailed hcall hstage =>
    split at hstep
    next =>
      cases hstep
      exact move_goto (by rw [hstage]; rfl)
    next => split at hstep <;> obtain rfl :=
      Except.ok.inj hstep <;> exact move_goto (by rw [hstage]; rfl)
  next ctime hcall hstage =>
    split at hstep <;> obtain rfl := Except.ok.inj hstep <;> exact move_goto (by rw [hstage]; rfl)
  next hcall hstage =>
    split at hstep
    next hok =>
      -- The name is removed, whoever has made the file meanwhile.
      cases hstep
      have htaken := congrArg Lock.taken (lock_goto s a.who (.sleeping 0))
      have hsame : Function.update s.lock.taken a.who (Stage.sleeping 0).holds = s.lock.taken :=
        Function.update_eq_self_iff.mpr (congrArg Stage.holds hstage).symm
      change Move s.lock ⟨none, (s.goto a.who (.sleeping 0)).lock.taken⟩
      rw [htaken, hsame]
      exact .remove (hstale hcall hok)
    next =>
      cases hstep
      exact move_goto (by rw [hstage]; rfl)
  next statfailed hcall hstage =>
    cases hstep
    exact move_goto (by rw [hstage]; rfl)
  next f hcall hstage =>
    have hholds : s.lock.taken a.who = some f := congrArg Stage.holds hstage
    split at hstep
    next =>
      cases hstep
      have htaken := congrArg Lock.taken (lock_goto s a.who .away)
      change Move s.lock ⟨none, (s.goto a.who .away).lock.taken⟩
      rw [htaken]
      exact .give a.who f hholds
    next =>
      cases hstep
      rw [lock_goto]
      exact .leave a.who
  next stage hcall hstage =>
    split at hstep
    next => cases hstep
    next =>
      cases hstep
      rw [lock_goto]
      exact .leave a.who
  next hcall hstage =>
    cases hstep
    exact move_goto (by rw [hstage]; rfl)
  next => cases hstep

theorem held_of_run {backoff_postslow : ι → Int} {s s' : State ι} (hs : Held s.lock)
    {actions : List (Action ι)}
    (hmeets : Meets (step backoff_postslow) Stale actions s)
    (hrun : run (step backoff_postslow) actions s = .ok s') :
    Held s'.lock :=
  of_run_of_meets (fun _ _ _ hheld hstale hstep => (step_moves hstale hstep).held hheld)
    hs hmeets hrun

/-- One process at most believes that it holds a backlog's lock, and one a post record's, in runs
in which a name that is removed as stale or too old is not the lock of a process that holds it. -/
theorem locks_exclusive (ι : Type) [DecidableEq ι] :
    (∀ (maySignal : ι → ι → Bool) (s : Innfeed.LockFile.State ι),
      (∀ p, ¬Innfeed.LockFile.Believes s p) → ∀ actions s',
      Meets (Innfeed.LockFile.step maySignal) Innfeed.LockFile.Stale actions s →
        run (Innfeed.LockFile.step maySignal) actions s = .ok s' →
        ∀ p q, Innfeed.LockFile.Believes s' p → Innfeed.LockFile.Believes s' q → p = q) ∧
    ∀ (backoff_postslow : ι → Int) (s : State ι), (∀ p, ¬Believes s p) → ∀ actions s',
      Meets (step backoff_postslow) Stale actions s →
        run (step backoff_postslow) actions s = .ok s' →
        ∀ p q, Believes s' p → Believes s' q → p = q := by
  constructor
  · intro maySignal s hnobody actions s' hmeets hrun p q hp hq
    have hheld :=
      Innfeed.LockFile.held_of_run (held_of_nobody fun r => not_not.mp (hnobody r)) hmeets hrun
    obtain ⟨f, hf⟩ := Option.ne_none_iff_exists'.mp hp
    obtain ⟨g, hg⟩ := Option.ne_none_iff_exists'.mp hq
    exact hheld.single p q f g hf hg
  · intro backoff_postslow s hnobody actions s' hmeets hrun p q hp hq
    have hheld := held_of_run (held_of_nobody fun r => not_not.mp (hnobody r)) hmeets hrun
    obtain ⟨f, hf⟩ := Option.ne_none_iff_exists'.mp hp
    obtain ⟨g, hg⟩ := Option.ne_none_iff_exists'.mp hq
    exact hheld.single p q f g hf hg

def left : Innfeed.LockFile.State (Fin 3) :=
  ⟨fun p => if p = 0 then .dead else .away, fun _ => none, some 0,
    fun f => if f = 0 then some 0 else none, 1⟩

def findsStale (p : Fin 3) : List (Innfeed.LockFile.Action (Fin 3)) :=
  [⟨p, .lockFile, true⟩, ⟨p, .create, true⟩, ⟨p, .write, true⟩, ⟨p, .link, true⟩, ⟨p, .open, true⟩,
    ⟨p, .read, true⟩,
    ⟨p, .kill, true⟩]

def replaces (p : Fin 3) : List (Innfeed.LockFile.Action (Fin 3)) :=
  [⟨p, .unlinkReal, true⟩, ⟨p, .link, true⟩, ⟨p, .unlinkTmp, true⟩]

def readers : State (Fin 2) := ⟨fun _ => .away, none, fun _ => 0, 0⟩

def takes (p : Fin 2) (now : Int) : List (Action (Fin 2)) :=
  [⟨p, .LockPostRec, true, now⟩, ⟨p, .open, true, now⟩, ⟨p, .stat, true, now⟩,
    ⟨p, .time, true, now⟩, ⟨p, .unlink, true, now⟩,
    ⟨p, .sleep, true, now⟩, ⟨p, .open, true, now⟩, ⟨p, .write, true, now⟩]

def makes (p : Fin 2) (now : Int) : List (Action (Fin 2)) :=
  [⟨p, .LockPostRec, true, now⟩, ⟨p, .open, true, now⟩, ⟨p, .write, true, now⟩]

/-- A lock that has been left is taken by one process. -/
theorem locks_exclusive_two :
    (∃ s', run (Innfeed.LockFile.step fun _ _ => true) (findsStale 1 ++ replaces 1) left = .ok s' ∧
      Innfeed.LockFile.Believes s' 1 ∧ ∀ p q, Innfeed.LockFile.Believes s' p →
        Innfeed.LockFile.Believes s' q → p = q) ∧
    ∃ s', run (step fun _ => 10) (makes 0 0 ++ [⟨0, .exit, true, 5⟩] ++ takes 1 10) readers =
      .ok s' ∧
      Believes s' 1 ∧ ∀ p q, Believes s' p → Believes s' q → p = q := by
  constructor
  · have hrun :
        ∃ s', run (Innfeed.LockFile.step fun _ _ => true) (findsStale 1 ++ replaces 1) left =
        .ok s' ∧
        Innfeed.LockFile.Believes s' 1 := ⟨_, rfl, fun h => by cases h⟩
    obtain ⟨s', hs', hbelieves⟩ := hrun
    exact ⟨s', hs', hbelieves, (locks_exclusive (Fin 3)).1 (fun _ _ => true) left (by decide)
      _ s' (by decide +kernel) hs'⟩
  · have hrun :
        ∃ s', run (step fun _ => 10) (makes 0 0 ++ [⟨0, .exit, true, 5⟩] ++ takes 1 10) readers =
        .ok s' ∧
        Believes s' 1 := ⟨_, rfl, fun h => by cases h⟩
    obtain ⟨s', hs', hbelieves⟩ := hrun
    exact ⟨s', hs', hbelieves, (locks_exclusive (Fin 2)).2 (fun _ => 10) readers (fun _ hp =>
      hp rfl) _ s' (by decide +kernel) hs'⟩

/-- Two processes have both found the lock stale, and the second one removes what the first one
has linked. A reader removes the lock of another one that is still at work. -/
theorem not_locks_exclusive :
    (¬∀ (ι : Type) [DecidableEq ι] (maySignal : ι → ι → Bool) (s : Innfeed.LockFile.State ι),
      (∀ p, ¬Innfeed.LockFile.Believes s p) →
        ∀ actions s', run (Innfeed.LockFile.step maySignal) actions s = .ok s' →
        ∀ p q, Innfeed.LockFile.Believes s' p → Innfeed.LockFile.Believes s' q → p = q) ∧
    ¬∀ (ι : Type) [DecidableEq ι] (backoff_postslow : ι → Int) (s : State ι),
      (∀ p, ¬Believes s p) → ∀ actions s',
      run (step backoff_postslow) actions s = .ok s' → ∀ p q, Believes s' p →
        Believes s' q → p = q := by
  constructor
  · intro hall
    have hrun :
        ∃ s', run (Innfeed.LockFile.step fun _ _ => true)
        (findsStale 1 ++ findsStale 2 ++ replaces 1 ++ replaces 2)
        left = .ok s' ∧ Innfeed.LockFile.Believes s' 1 ∧ Innfeed.LockFile.Believes s' 2 :=
      ⟨_, rfl, fun h => (by cases h), fun h => by cases h⟩
    obtain ⟨s', hs', hone, htwo⟩ := hrun
    have hsame := hall (Fin 3) (fun _ _ => true) left (by decide) _ s' hs' 1 2 hone htwo
    exact absurd hsame (by decide)
  · intro hall
    have hrun : ∃ s', run (step fun _ => 10) (makes 0 0 ++ takes 1 10) readers = .ok s' ∧
        Believes s' 0 ∧ Believes s' 1 :=
      ⟨_, rfl, fun h => (by cases h), fun h => by cases h⟩
    obtain ⟨s', hs', hzero, hone⟩ := hrun
    have hsame := hall (Fin 2) (fun _ => 10) readers (fun _ hp => hp rfl) _ s' hs' 0 1 hzero hone
    exact absurd hsame (by decide)

end Inn.Nnrpd.PostRec
