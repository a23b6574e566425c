import Inn.Foundation.Files
import Inn.Foundation.Words
import Inn.Innfeed.Responses

/-!
# The backlog of a peer

`innfeed` keeps the articles that it could not send in files. It reads the input file
from the front, and records in the file itself how far it has come: the first lines,
which have been read, are blanked, and the position is written there. A process that
starts later goes on from this position.
-/

namespace Inn.Innfeed

open Foundation.Words (decimal readDigits isdigit)
open Foundation.Files (overwrite)

def BITS64 : Nat := 21

inductive Happening
  | handedOut (place : Nat) (filename msgid : Octets)
  | recorded (place : Nat)
  deriving DecidableEq

structure Life where
  content : Octets
  history : List Happening
  deriving DecidableEq

structure Input where
  bytes : Octets
  life : Life
  deriving DecidableEq

structure Tape where
  /-- The position in the input file. -/
  inFp : Option Nat
  outFp : Bool
  lastRotated : Nat
  checkNew : Bool
  outputSize : Nat
  scribbled : Bool
  tellpos : Nat
  changed : Bool
  noRotate : Bool
  deriving DecidableEq

/-- The three files of a peer, and the input files of its past. -/
structure Spool where
  hand : Option Octets
  input : Option Input
  output : Option Octets
  past : List Life
  deriving DecidableEq

def Input.happens (input : Input) (event : Happening) : Input :=
  { input with life := { input.life with history := input.life.history ++ [event] } }

def Input.fresh (content : Octets) : Input := ⟨content, ⟨content, []⟩⟩

def Spool.unlink (spool : Spool) : Spool :=
  { spool with input := none, past := spool.past ++ (spool.input.map Input.life).toList }

def throughLF : Octets → Octets
  | [] => []
  | c :: rest => if c = LF then [LF] else c :: throughLF rest

def fgets (size : Nat) (file : Octets) (place : Nat) : Octets :=
    throughLF ((file.drop place).take (size - 1))

def validMsgid (msgid : Octets) : Bool := msgid.head? = some 60 && msgid.getLast? = some 62

def parseLine (line : Octets) : Option (Octets × Octets) :=
  let p := (line.takeWhile (· ≠ 0)).dropWhile isspace
  if 32 ∈ p then
    let filename := p.takeWhile (· ≠ 32)
    let q := (p.dropWhile (· ≠ 32)).dropWhile isspace
    let msgid :=
      if 32 ∈ q then some (q.takeWhile (· ≠ 32))
      else if LF ∈ q then some (q.takeWhile (· ≠ LF))
      else none
    (msgid.filter validMsgid).map fun msgid => (filename, msgid)
  else
    none

def readOn : Nat → Octets → Nat → Nat × Option (Nat × Octets × Octets)
  | 0, _, place => (place, none)
  | fuel + 1, file, place =>
    let line := fgets 2048 file place
    if line = [] then
      (place, none)
    else
      match parseLine line with
      | some (filename, msgid) => (place + line.length, some (place, filename, msgid))
      | none => readOn fuel file (place + line.length)

def readMark (file : Octets) : Option Nat :=
  let buffer := (fgets 63 file 0).takeWhile (· ≠ 0)
  let buffer := if buffer.getLast? = some LF then buffer.dropLast else buffer
  if buffer ≠ [] ∧ buffer.all (fun c => isdigit c || c == 32 || c == LF) then
    let digits := (buffer.dropWhile isspace).takeWhile isdigit
    if digits = [] then none else some (min (2 ^ 63 - 1) (readDigits digits))
  else
    none

def nextLF (file : Octets) (place : Nat) : Option Nat :=
    ((file.drop place).idxOf? LF).map (place + ·)

def checkpointTape (input : Input) (place : Nat) (tape : Tape) : Input × Tape :=
  if tape.changed = false then
    (input, tape)
  else
    let tape := { tape with tellpos := place }
    if BITS64 < place then
      if tape.scribbled = false then
        match nextLF input.bytes (BITS64 + 1) with
        | none => (input, { tape with inFp := some input.bytes.length })
        | some currloc =>
          let bytes := overwrite 0 input.bytes 0 (List.replicate currloc 32)
          let bytes := overwrite 0 bytes 0 (decimal place)
          ({ input with bytes := bytes }.happens (.recorded place),
            { tape with scribbled := true, inFp := some place, changed := false })
      else
        let bytes := overwrite 0 input.bytes 0 (decimal place)
        ({ input with bytes := bytes }.happens (.recorded place),
          { tape with inFp := some place, changed := false })
    else
      (input, { tape with changed := false })

def takeHand (spool : Spool) (tape : Tape) : Bool × Spool :=
  let newExists := if tape.lastRotated = 0 || tape.checkNew then spool.hand.isSome else false
  let inpExists := if tape.lastRotated = 0 then spool.input.isSome else tape.inFp.isSome
  if newExists && !inpExists then
    (true, { spool with hand := none, input := spool.hand.map Input.fresh })
  else
    (inpExists, spool)

def takeOutput (inpExists : Bool) (spool : Spool) (tape : Tape) : Bool × Spool × Tape :=
  let outExists :=
    if tape.lastRotated = 0 then spool.output.isSome else tape.outFp && 0 < tape.outputSize
  if outExists && !inpExists && !tape.noRotate then
    (true, { spool with output := none, input := spool.output.map Input.fresh },
      { tape with outFp := false })
  else
    (inpExists, spool, tape)

inductive Opened
  | ready (input : Input) (tape : Tape)
  | empty (tape : Tape)
  | atEnd (tape : Tape)

def openInput (input : Input) (tape : Tape) : Opened :=
  let first := fgets 63 input.bytes 0
  if first = [] then
    .empty { tape with inFp := none, scribbled := false }
  else
    let tape :=
      match readMark input.bytes with
      | some newPos => { tape with scribbled := true, tellpos := newPos }
      | none => tape
    if input.bytes.length < tape.tellpos then
      .ready input { tape with inFp := some first.length, tellpos := 0 }
    else if tape.tellpos = 0 then
      .ready input { tape with inFp := some 0 }
    else
      -- The position has to be just behind a line feed.
      match nextLF input.bytes (tape.tellpos - 1) with
      | none => .atEnd { tape with inFp := none, scribbled := false }
      | some place =>
        if place = tape.tellpos - 1 then
          .ready input { tape with inFp := some tape.tellpos }
        else
          let (input, tape) :=
            checkpointTape input (place + 1) { tape with inFp := some (place + 1), changed := true }
          .ready input tape

def openOutput (now : Nat) (spool : Spool) (tape : Tape) : Spool × Tape :=
  let tape := { tape with lastRotated := now, checkNew := false }
  if tape.outFp then
    (spool, tape)
  else
    let output := spool.output.getD []
    ({ spool with output := some output }, { tape with outFp := true, outputSize := output.length })

def prepareFiles : Nat → Nat → Spool → Tape → Spool × Tape
  | 0, _, spool, tape => (spool, tape)
  | fuel + 1, now, spool, tape =>
    let tape := { tape with tellpos := 0 }
    let (inpExists, spool) := takeHand spool tape
    match takeOutput inpExists spool tape with
    | (false, spool, tape) => openOutput now spool tape
    | (true, spool, tape) =>
      match spool.input with
      | none => openOutput now spool tape
      | some input =>
        match openInput input tape with
        | .ready input tape => openOutput now { spool with input := some input } tape
        | .empty tape => openOutput now spool.unlink tape
        | .atEnd tape =>
          let (spool, tape) := prepareFiles fuel now spool.unlink tape
          openOutput now spool tape

def ROUNDS : Nat := 4

def initTape (now : Nat) (spool : Spool) (noRotate : Bool) : Spool × Tape :=
  prepareFiles ROUNDS now spool
    { inFp := none, outFp := false, lastRotated := 0, checkNew := false, outputSize := 0,
      scribbled := false,
      tellpos := 0, changed := false, noRotate := noRotate }

section Operations

variable (rotatePeriod : Nat)

def peel : Nat → Nat → Spool → Tape → Option (Octets × Octets) × Spool × Tape
  | 0, _, spool, tape => (none, spool, tape)
  | fuel + 1, now, spool, tape =>
    match tape.inFp, spool.input with
    | some place, some input =>
      let tape := { tape with changed := true }
      match readOn (input.bytes.length + 1) input.bytes place with
      | (next, some (place, filename, msgid)) =>
        (some (filename, msgid),
          { spool with input := some (input.happens (.handedOut place filename msgid)) },
          { tape with inFp := some next })
      | (_, none) =>
        let spool := spool.unlink
        let tape := { tape with inFp := none, scribbled := false }
        let (spool, tape) :=
          if rotatePeriod < now - tape.lastRotated then prepareFiles ROUNDS now spool tape
            else (spool, tape)
        peel fuel now spool tape
    | _, _ => (none, spool, tape)

def getArticle (now : Nat) (spool : Spool) (tape : Tape) :
    Option (Octets × Octets) × Spool × Tape :=
  let (spool, tape) :=
    if tape.inFp.isNone && rotatePeriod < now - tape.lastRotated then prepareFiles ROUNDS
      now spool tape
    else (spool, tape)
  peel rotatePeriod ROUNDS now spool tape

def checkpoint (spool : Spool) (tape : Tape) : Spool × Tape :=
  match tape.inFp, spool.input with
  | some place, some input =>
    let (input, tape) := checkpointTape input place tape
    ({ spool with input := some input }, tape)
  | _, _ => (spool, tape)

def tapeFlush (now : Nat) (spool : Spool) (tape : Tape) : Spool × Tape :=
  let (spool, tape) := checkpoint spool tape
  initTape now spool tape.noRotate

def delTape (spool : Spool) (tape : Tape) : Spool :=
  let spool := if spool.output = some [] then { spool with output := none } else spool
  (checkpoint spool tape).1

structure Backlog where
  spool : Spool
  tape : Option Tape
  deriving DecidableEq

inductive Action
  | newTape (now : Nat) (dontRotate : Bool)
  | getArticle (now : Nat)
  | checkPointTapes
  | tapesSetCheckNew
  | tapeFlush (now : Nat)
  | delTape
  /-- The process ends without more ado, and this is left of the output file. -/
  | crash (output : Option Octets)
  /-- The output file has been written to, and shrunk when it had become too large. -/
  | spooled (output : Octets)
  /-- The administrator drops a file. -/
  | dropped (hand : Octets)

def step (backlog : Backlog) : Action → Backlog
  | .newTape now dontRotate =>
    match backlog.tape with
    | some _ => backlog
    | none =>
      let (spool, tape) := initTape now backlog.spool false
      ⟨spool, some { tape with noRotate := dontRotate }⟩
  | .getArticle now =>
    match backlog.tape with
    | some tape =>
      let (_, spool, tape) := getArticle rotatePeriod now backlog.spool tape
      ⟨spool, some tape⟩
    | none => backlog
  | .checkPointTapes =>
    match backlog.tape with
    | some tape =>
      let (spool, tape) := checkpoint backlog.spool tape
      ⟨spool, some tape⟩
    | none => backlog
  | .tapesSetCheckNew =>
      { backlog with tape := backlog.tape.map fun tape => { tape with checkNew := true } }
  | .tapeFlush now =>
    match backlog.tape with
    | some tape =>
      let (spool, tape) := tapeFlush now backlog.spool tape
      ⟨spool, some tape⟩
    | none => backlog
  | .delTape =>
    match backlog.tape with
    | some tape => ⟨delTape backlog.spool tape, none⟩
    | none => backlog
  | .crash output =>
    match backlog.tape with
    | some _ => ⟨{ backlog.spool with output := output }, none⟩
    | none => backlog
  | .spooled output =>
    match backlog.tape with
    | some tape => ⟨{ backlog.spool with output := some output },
        some { tape with outputSize := output.length }⟩
    | none => backlog
  | .dropped hand => { backlog with spool := { backlog.spool with hand := some hand } }

end Operations

def Backlog.start (hand input output : Option Octets) : Backlog where
  spool := ⟨hand, input.map Input.fresh, output, []⟩
  tape := none

end Inn.Innfeed
