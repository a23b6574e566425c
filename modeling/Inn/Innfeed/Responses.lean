import Inn.Foundation.Lines
import Inn.Foundation.Words
import Inn.Innd.Channel

/-!
# Reading responses

`innfeed` reads the responses of a peer into one buffer. It cuts the lines out of the
buffer in place, and moves what is left of the last line to the front. The buffer is
modelled as memory, so that a read outside of it shows.
-/

namespace Inn.Innfeed

open Foundation.Words (isdigit)

def BUFFER_SIZE : Nat := 256

def BUFFER_EXPAND_AMOUNT : Nat := 128

def number (digits : Octets) : Nat := digits.foldl (fun cd c => cd * 10 + (c.toNat - 48)) 0

def getNntpResponse (p : Octets) : Option (Nat × Octets) :=
  let p := p.dropWhile isspace
  let digits := p.takeWhile isdigit
  if digits.length = 3 then
    let rest := p.dropWhile isdigit
    let rest := if rest.head? = some 45 then rest.tail else rest
    some (number digits, rest.dropWhile isspace)
  else
    none

def getMsgId (p : Octets) : Option Octets :=
  let p := ((p.dropWhile isspace).dropWhile fun c => !isspace c).dropWhile isspace
  if p = [] then none else some (p.takeWhile fun c => !isspace c)

inductive Fault
  | beforeStart
  | pastEnd
  deriving DecidableEq

def load (mem : Octets) (p : Nat) : Except Fault UInt8 :=
  match mem[p]? with
  | some c => .ok c
  | none => .error .pastEnd

def loadBefore (mem : Octets) (p : Nat) : Except Fault UInt8 :=
  if p = 0 then .error .beforeStart else load mem (p - 1)

def findLF : Octets → Nat → Except Fault (Option Nat)
  | [], _ => .error .pastEnd
  | c :: rest, p => if c = LF then .ok (some p) else if c = 0 then .ok none else findLF rest (p + 1)

def strchr (mem : Octets) (p : Nat) : Except Fault (Option Nat) := findLF (mem.drop p) p

def cstring (mem : Octets) (p : Nat) : Except Fault Octets :=
  if 0 ∈ mem.drop p then .ok ((mem.drop p).takeWhile (· ≠ 0)) else .error .pastEnd

structure Cut where
  mem : Octets
  /-- Where its terminator was, and where the next response begins. -/
  endr : Nat
  next : Nat
  text : Octets

def cutResponse (mem : Octets) (response endr : Nat) : Except Fault Cut := do
  let after ← load mem (endr + 1)
  let next := if after = CR then endr + 2 else endr + 1
  let before ← loadBefore mem endr
  let endr := if before = CR then endr - 1 else endr
  let mem := mem.set endr 0
  let text ← cstring mem response
  return { mem := mem, endr := endr, next := next, text := text }

/-- What a connection does with the responses that are read for it. -/
structure Handlers (Cxn : Type) where
  /-- Whether the connection is feeding, idle, closing or flushing. -/
  reads : Cxn → Bool
  handle : Nat → Octets → Cxn → Cxn
  /-- A response has no code. -/
  malformed : Cxn → Cxn
  /-- The responses of a read are handled: the connection waits for the next read, and writes. -/
  readOn : Cxn → Cxn

/-- The response buffer, and the connection that handles responses. -/
structure Reading (Cxn : Type) where
  /-- The response buffer: the octets that are allocated, one of them for a null byte. -/
  mem : Octets
  dataSize : Nat
  loggedNoCr : Bool
  cxn : Cxn
  /-- The responses that have been handled, with their codes. -/
  dispatched : List (Nat × Octets)
  /-- The connection has not left the states in which it reads responses. -/
  reading : Bool
  /-- How many reads there were. -/
  count : Nat

variable {Cxn : Type}

def Reading.kept (r : Reading Cxn) : Octets := r.mem.take r.dataSize

def Reading.room (r : Reading Cxn) : Nat := r.mem.length - 1 - r.dataSize

section Handlers

variable (h : Handlers Cxn)

def Reading.dispatch (r : Reading Cxn) (response : Octets) : Reading Cxn :=
  match getNntpResponse response with
  | none => { r with cxn := h.malformed r.cxn, reading := false }
  | some (code, _) =>
    let cxn := h.handle code response r.cxn
    { r with cxn := cxn, dispatched := r.dispatched ++ [(code, response)], reading := h.reads cxn }

def processResponses : Nat → Reading Cxn → Nat → Except Fault (Reading Cxn × Nat)
  | 0, r, response => .ok (r, response)
  | fuel + 1, r, response => do
      match ← strchr r.mem response with
      | none => return (r, response)
      | some endr =>
        let cut ← cutResponse r.mem response endr
        let r := { r with
          mem := cut.mem
          loggedNoCr := r.loggedNoCr || cut.next - cut.endr != 2 }
        let r := r.dispatch h cut.text
        if r.reading then processResponses fuel r cut.next else return (r, response)

def Reading.expand (r : Reading Cxn) : Reading Cxn :=
  { r with mem := r.mem ++ List.replicate BUFFER_EXPAND_AMOUNT 0 }

def Reading.keep (r : Reading Cxn) (response : Nat) : Except Fault (Reading Cxn) := do
  let c ← load r.mem response
  if c = 0 then
    return { r with dataSize := 0 }
  else if response = 0 then
    return r.expand
  else
    let leftAmt := r.dataSize - response
    return { r with
      mem := (r.mem.drop response).take leftAmt ++ r.mem.drop leftAmt
      dataSize := leftAmt }

def Reading.enter (r : Reading Cxn) (f : Cxn → Cxn) : Reading Cxn :=
  { r with cxn := f r.cxn, reading := h.reads (f r.cxn) }

def responseIsRead (r : Reading Cxn) : Except Fault (Reading Cxn) := do
  let r := { r with mem := r.mem.set r.dataSize 0 }
  match ← strchr r.mem 0 with
  | none => return r.expand
  | some _ =>
    let (r, response) ← processResponses h r.mem.length r 0
    if r.reading then
      let r ← r.keep response
      return r.enter h h.readOn
    else
      return r

def doRead (r : Reading Cxn) (data : Octets) : Reading Cxn :=
  { r with
    mem := r.mem.take r.dataSize ++ data ++ r.mem.drop (r.dataSize + data.length)
    dataSize := r.dataSize + data.length
    count := r.count + 1 }

-- What happens to the connection before each of the reads: what it has written goes out, timers run
-- down, and its host calls it.
variable (happens : Nat → Cxn → Cxn)

def receive : Nat → Reading Cxn → Octets → Except Fault (Reading Cxn)
  | 0, r, _ => .ok r
  | fuel + 1, r, data => do
      if data = [] ∨ r.reading = false then
        return r
      else
        let r := r.enter h (happens r.count)
        if r.reading = false then
          return r
        else if r.room = 0 then
          return { r with reading := false }
        else
          let r' ← responseIsRead h (doRead r (data.take r.room))
          receive fuel r' (data.drop r.room)

def receiveAll : Reading Cxn → List Octets → Except Fault (Reading Cxn)
  | r, [] => .ok r
  | r, data :: more => do
      let r' ← receive h happens data.length r data
      receiveAll r' more

end Handlers

def Reading.start (mem : Octets) (cxn : Cxn) : Reading Cxn where
  mem := mem
  dataSize := 0
  loggedNoCr := false
  cxn := cxn
  dispatched := []
  reading := true
  count := 0

end Inn.Innfeed
