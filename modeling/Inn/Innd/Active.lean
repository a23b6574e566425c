import Inn.Foundation.Files
import Inn.Foundation.Runs
import Inn.Foundation.Sorting
import Inn.Innd.Numbering

/-!
# The active file

The file has a line for each group: its name, its high and its low water mark, and its flag. The
server has the file in memory, with a table of the groups that says where their marks and flags
stand, and a hash table of their names. The marks are set in place; for a new group, a change of a
flag, or the removal of a group the file is written again, and read.

A write to the file works, and so does what is asked of the overview. What a group has of its sites
and of the group it stands for is left out.
-/

namespace Inn.Innd.Active

open Foundation.Files (overwrite)
open Foundation.Runs
open Foundation.Sorting
open Foundation.Words
open Innd.Numbering (atol)

structure NEWSGROUP where
  Start : Nat
  Name : Octets
  LastString : Nat
  Lastwidth : Nat
  Rest : Nat
  Last : Int
  deriving DecidableEq

/-- The groups in memory, and the hash table of their names. -/
structure Tables where
  Groups : List NEWSGROUP
  NGHtable : Nat → List Nat

structure State extends Tables where
  active : Octets
  running : Bool
  ICDneedsetup : Bool

inductive Fault
  | exit
  deriving DecidableEq

structure Config where
  mergetogroups : Bool
  enableoverview : Bool

section Reading

def NGH_HASH (Name : Octets) : UInt32 :=
    Name.foldl (fun j c => (j <<< 5) + j + c.toInt8.toInt32.toUInt32) 0

def NGH_BUCKET (j : UInt32) : Nat := (j &&& 2047).toNat

def bucket (Name : Octets) : Nat := NGH_BUCKET (NGH_HASH Name)

def strchr (active : Octets) (p : Nat) (c : UInt8) : Option Nat :=
  let string := (active.drop p).takeWhile (· ≠ 0)
  if c ∈ string then some (p + string.idxOf c) else none

def NGparseentry (active : Octets) (p stop : Nat) : Option NEWSGROUP := do
  let space ← strchr active p 32
  let LastString := space + 1
  let q ← strchr active LastString 32
  if stop < q then none
  else
    let lo ← strchr active q 32
    if stop < lo then none
    else
      let q' ← strchr active (lo + 1) 32
      if stop < q' then none
      else
        some
          { Start := p
            Name := (active.drop p).take (space - p)
            LastString
            Lastwidth := q - LastString
            Rest := q' + 1
            Last := atol (active.drop LastString) }

def Tables.enter (tables : Tables) (ngp : NEWSGROUP) : Option Tables :=
  let place := bucket ngp.Name
  if (tables.NGHtable place).any fun i => tables.Groups[i]?.any fun other =>
    other.Name = ngp.Name then none
  else
    some
      { Groups := tables.Groups ++ [ngp]
        NGHtable := Function.update tables.NGHtable place
          (tables.NGHtable place ++ [tables.Groups.length]) }

def parseLines (active : Octets) : Nat → Nat → Tables → Option Tables
  | 0, _, tables => some tables
  | i + 1, p, tables => do
      let q ← strchr active p 10
      let ngp ← NGparseentry active p q
      let tables ← tables.enter ngp
      parseLines active i (q + 1) tables

def NGcompare (Groups : List NEWSGROUP) (i j : Nat) : Int :=
  let Last (i : Nat) : Int := (Groups[i]?.map NEWSGROUP.Last).getD 0
  Int.bmod (Last i - Last j) (2 ^ 32)

variable (sorter : ∀ Groups : List NEWSGROUP, Sorter (NGcompare Groups))

def NGparsefile (active : Octets) : Option Tables :=
  let nGroups := active.count 10
  if nGroups = 0 then none
  else
    (parseLines active nGroups 0 ⟨[], fun _ => []⟩).map fun tables =>
      { tables with NGHtable := fun place => (sorter tables.Groups).qsort (tables.NGHtable place) }

def Tables.NGfind (tables : Tables) (Name : Octets) : Option Nat :=
  (tables.NGHtable (bucket Name)).find? fun i => tables.Groups[i]?.any fun ngp => ngp.Name = Name

end Reading

section Writing

variable (sorter : ∀ Groups : List NEWSGROUP, Sorter (NGcompare Groups)) (cfg : Config)

def Config.required : List Octets :=
  ["control", "junk", "control.cancel"].map octets ++
    if cfg.mergetogroups then [octets "to"] else []

def State.parse (s : State) : Except Fault State :=
  match NGparsefile sorter s.active with
  | none => .error .exit
  | some tables => .ok { s with toTables := tables }

def State.ICDsetup (s : State) : Except Fault State := do
  let s ← if s.ICDneedsetup then .ok { s with ICDneedsetup := false } else s.parse sorter
  if cfg.required.all fun name => (s.NGfind name).isSome then .ok s else .error .exit

def State.ICDwritevactive (s : State) (content : Octets) : Except Fault State :=
  if s.running then State.ICDsetup sorter cfg { s with active := content }
  else State.parse sorter { s with active := content, ICDneedsetup := true }

def State.ICDchangegroup (s : State) (i : Nat) (ngp : NEWSGROUP) (Rest : Octets) :
    Except Fault (State × Bool) := do
  let tail := match s.Groups[i + 1]? with
    | some next => s.active.drop (next.Start - 1)
    | none => [10]
  let s ← s.ICDwritevactive sorter cfg (s.active.take ngp.Rest ++ Rest ++ tail)
  .ok (s, true)

def newLine (Name Rest : Octets) : Octets :=
  (Name ++ octets " 0000000000 0000000001 " ++ Rest ++ [10]).take (SMBUF - 1)

def State.ICDnewgroup (s : State) (Name Rest : Octets) : Except Fault (State × Bool) :=
  if SMBUF - 24 < Name.length + Rest.length then .ok (s, false)
  else do
    let s ← s.ICDwritevactive sorter cfg (s.active ++ newLine Name Rest)
    .ok (s, true)

local instance : LawfulBEq Octets := inferInstance

def State.ICDrmgroup (s : State) (i : Nat) (ngp : NEWSGROUP) : Except Fault (State × Bool) :=
  if ngp.Name ∈ cfg.required then .ok (s, false)
  else do
    let front := if i = 0 then [] else s.active.take ngp.Start
    let back := match s.Groups[i + 1]? with
      | some next => s.active.drop next.Start
      | none => []
    let s ← s.ICDwritevactive sorter cfg (front ++ back)
    .ok (s, true)

end Writing

def digitsOf : Nat → Nat → Octets × Bool
  | 0, value => ([], value = 0)
  | width + 1, value =>
    let higher := digitsOf width (value / 10)
    (higher.1 ++ [(48 + value % 10).toUInt8], higher.2)

def FormatLong (active : Octets) (p : Nat) (value : Int) (width : Nat) : Octets × Bool :=
  let formatted := digitsOf width (value % 2 ^ 64).toNat
  (overwrite 0 active p formatted.1, formatted.2)

def markFields (active : Octets) (start : Nat) : Option (Nat × Nat × Nat) := do
  let f2 ← strchr active start 32
  let f3 ← strchr active (f2 + 1) 32
  let f4 ← strchr active (f3 + 1) 32
  some (f2 + 1, f3 + 1, f4)

def State.setHigh (s : State) (i f2 f3 : Nat) (himark : Int) : State × Bool :=
  let formatted := FormatLong s.active f2 himark (f3 - f2 - 1)
  if formatted.2 then
    ({ s with active := formatted.1, Groups := s.Groups.modify i fun ngp =>
      { ngp with Last := himark } }, true)
  else ({ s with active := formatted.1 }, false)

def State.setMarks (s : State) (i f2 f3 f4 : Nat) (raised : Option Int) (lomark : Int) :
    State × Bool :=
  let high := raised.elim (s, true) (s.setHigh i f2 f3)
  if high.2 = false then (high.1, false)
  else if lomark = atol (high.1.active.drop f3) then (high.1, true)
  else
    let formatted := FormatLong high.1.active f3 lomark (f4 - f3)
    ({ high.1 with active := formatted.1 }, formatted.2)

structure Stats where
  low : Int32
  high : Int32
  count : Int32

def Stats.himark (stats : Stats) : Int := stats.high.toInt

def Stats.lomark (stats : Stats) : Int :=
    if stats.count ≠ 0 then stats.low.toInt else stats.himark + 1

def State.NGrenumber (cfg : Config) (s : State) (i : Nat) (ngp : NEWSGROUP) (stats : Option Stats) :
    State × Bool :=
  if cfg.enableoverview = false then (s, true)
  else if s.ICDneedsetup then (s, false)
  else
    match markFields s.active ngp.Start, stats with
    | some (f2, f3, f4), some stats =>
      let raised := if atol (s.active.drop f2) < stats.himark then some stats.himark else none
      s.setMarks i f2 f3 f4 raised stats.lomark
    | _, _ => (s, false)

def State.NGlowmark (s : State) (i : Nat) (ngp : NEWSGROUP) (lomark : Int64) : State × Bool :=
  match markFields s.active ngp.Start with
  | none => (s, false)
  | some (f2, f3, f4) =>
    let raised :=
      if atol (s.active.drop f2) + 1 < lomark.toInt then some (lomark.toInt - 1) else none
    s.setMarks i f2 f3 f4 raised lomark.toInt

inductive Operation
  | ICDnewgroup (Name Rest : Octets)
  | ICDrmgroup (Name : Octets)
  | ICDchangegroup (Name Rest : Octets)
  | NGrenumber (Name : Octets) (stats : Option Stats)
  | NGlowmark (Name : Octets) (lomark : Int64)
  | pause
  | CCgo

section Steps

variable (sorter : ∀ Groups : List NEWSGROUP, Sorter (NGcompare Groups)) (cfg : Config)

def State.withGroup (s : State) (Name : Octets)
    (act : Nat → NEWSGROUP → Except Fault (State × Bool)) :
    Except Fault (State × Bool) :=
  match s.NGfind Name with
  | none => .ok (s, false)
  | some i =>
    match s.Groups[i]? with
    | none => .ok (s, false)
    | some ngp => act i ngp

def State.perform (s : State) : Operation → Except Fault (State × Bool)
  | .ICDnewgroup Name Rest => s.ICDnewgroup sorter cfg Name Rest
  | .ICDrmgroup Name => s.withGroup Name (s.ICDrmgroup sorter cfg)
  | .ICDchangegroup Name Rest => s.withGroup Name fun i ngp =>
      s.ICDchangegroup sorter cfg i ngp Rest
  | .NGrenumber Name stats => s.withGroup Name fun i ngp => .ok (s.NGrenumber cfg i ngp stats)
  | .NGlowmark Name lomark => s.withGroup Name fun i ngp => .ok (s.NGlowmark i ngp lomark)
  | .pause => .ok ({ s with running := false }, true)
  | .CCgo => do
      if s.running then .ok (s, false)
      else
        let s := { s with running := true }
        let s ← if s.ICDneedsetup then s.ICDsetup sorter cfg else .ok s
        .ok (s, true)

structure Session where
  server : State
  replies : List Bool

def Session.step (session : Session) (operation : Operation) : Except Fault Session :=
  (session.server.perform sorter cfg operation).map fun result =>
    ⟨result.1, session.replies ++ [result.2]⟩

def State.start (active : Octets) : Except Fault State :=
  State.ICDsetup sorter cfg ⟨⟨[], fun _ => []⟩, active, true, false⟩

end Steps

end Inn.Innd.Active
