import Mathlib

/-!
# Scanners that can be resumed

A scanner looks at the items it has been given so far and turns its state into
the next one, or waits. When it does not take a turn back once there are more
items, it does not matter in how many portions they arrive.
-/

namespace Inn.Foundation.Scanning

variable {σ Item : Type*}

def drive (turn : σ → Option σ) : Nat → σ → σ
  | 0, state => state
  | fuel + 1, state =>
    match turn state with
    | none => state
    | some state => drive turn fuel state

/-- One turn leads from the state to the next. -/
def Turns (turn : σ → Option σ) (state state' : σ) : Prop := turn state = some state'

section Drive

variable {turn turn' : σ → Option σ} {state state' : σ}

open Relation

theorem drive_of_waits {fuel : Nat} (hwaits : turn state = none) :
    drive turn fuel state = state := by
  cases fuel with
  | zero => rfl
  | succ fuel => rw [drive, hwaits]

theorem reaches_drive (fuel : Nat) (state : σ) :
    ReflTransGen (Turns turn) state (drive turn fuel state) := by
  induction fuel generalizing state with
  | zero => exact .refl
  | succ fuel ih =>
    rw [drive]
    split
    · exact .refl
    next state' hturn => exact .head hturn (ih state')

theorem drive_waits {rest : σ → Nat}
    (hrest : ∀ {state state'}, turn state = some state' → rest state' < rest state) {fuel : Nat}
    (hfuel : rest state ≤ fuel) : turn (drive turn fuel state) = none := by
  induction fuel generalizing state with
  | zero =>
    rw [drive]
    cases hturn : turn state with
    | none => rfl
    | some state' =>
      have := hrest hturn
      omega
  | succ fuel ih =>
    rw [drive]
    split
    next hturn => exact hturn
    next state' hturn =>
      have := hrest hturn
      exact ih (by omega)

theorem unique_of_waits {first second : σ} (hfirst : ReflTransGen (Turns turn) state first)
    (hsecond : ReflTransGen (Turns turn) state second) (hwaits : turn first = none)
    (hwaits' : turn second = none) : first = second := by
  induction hfirst using ReflTransGen.head_induction_on with
  | refl =>
    cases hsecond using ReflTransGen.head_induction_on with
    | refl => rfl
    | head hturn _ => exact absurd (hwaits.symm.trans hturn) nofun
  | head hturn _ ih =>
    cases hsecond using ReflTransGen.head_induction_on with
    | refl => exact absurd (hwaits'.symm.trans hturn) nofun
    | head hturn' hrest =>
      cases hturn.symm.trans hturn'
      exact ih hrest

theorem reaches_mono (hmono : ∀ {state state'}, turn state = some state' →
    turn' state = some state')
    (hreaches : ReflTransGen (Turns turn) state state') :
    ReflTransGen (Turns turn') state state' := hreaches.lift id fun _ _ => hmono

theorem invariant_of_reaches {P : σ → Prop}
    (hkeep : ∀ {state state'}, P state → turn state = some state' → P state')
    (hreaches : ReflTransGen (Turns turn) state state') (hstate : P state) : P state' := by
  induction hreaches with
  | refl => exact hstate
  | tail _ hturn ih => exact hkeep ih hturn

end Drive

/-- Turns over the items that have come so far. -/
structure Scanner (σ Item : Type*) where
  turn : List Item → σ → Option σ
  /-- How many more turns there can be. -/
  rest : List Item → σ → Nat
  decreasing : ∀ {items state state'}, turn items state = some state' →
    rest items state' < rest items state
  /-- More items do not take a turn back. -/
  extends_turn : ∀ {items state state'} (more : List Item), turn items state = some state' →
    turn (items ++ more) state = some state'

namespace Scanner

variable (scanner : Scanner σ Item)

def scan (items : List Item) (state : σ) : σ :=
    drive (scanner.turn items) (scanner.rest items state) state

theorem scan_waits (items : List Item) (state : σ) :
    scanner.turn items (scanner.scan items state) = none :=
  drive_waits scanner.decreasing (Nat.le_refl _)

theorem reaches_scan (items : List Item) (state : σ) :
    Relation.ReflTransGen (Turns (scanner.turn items)) state (scanner.scan items state) :=
  reaches_drive _ _

theorem scan_append (items more : List Item) (state : σ) :
    scanner.scan (items ++ more) (scanner.scan items state) =
      scanner.scan (items ++ more) state := by
  have hfirst := reaches_mono (scanner.extends_turn more) (scanner.reaches_scan items state)
  exact unique_of_waits (hfirst.trans (scanner.reaches_scan _ _)) (scanner.reaches_scan _ _)
    (scanner.scan_waits _ _) (scanner.scan_waits _ _)

def read (before : List Item) (state : σ) : List (List Item) → σ
  | [] => state
  | portion :: portions =>
      read (before ++ portion) (scanner.scan (before ++ portion) state) portions

theorem read_eq (before : List Item) (portions : List (List Item)) {state : σ}
    (hwaits : scanner.turn before state = none) :
    scanner.read before state portions = scanner.scan (before ++ portions.flatten) state := by
  induction portions generalizing before state with
  | nil =>
    rw [read, List.flatten_nil, List.append_nil, scan, drive_of_waits hwaits]
  | cons portion portions ih =>
    rw [read, ih (before ++ portion) (scanner.scan_waits _ _), List.flatten_cons,
      ← List.append_assoc,
      scanner.scan_append]

end Scanner

end Inn.Foundation.Scanning
