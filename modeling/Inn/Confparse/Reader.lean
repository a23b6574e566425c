import Inn.Innd.Channel

/-!
# Reading a configuration file

The lexer looks at a buffer that ends with a NUL. When it comes to the NUL it reads on, over the
buffer, or behind the part of it that it still needs. How much a read returns is not up to the
lexer.

A careful run stops where the reading goes wrong. The program itself is not careful.
-/

namespace Inn.Confparse

inductive TokenType
  | CRLF | STRING | QSTRING | PARAM | LBRACE | RBRACE | LANGLE | RANGLE | LBRACKET | RBRACKET |
      SEMICOLON | EOF | ERROR
  deriving DecidableEq, Repr

inductive Fault
  | beyond | slip | bound
  deriving DecidableEq, Repr

/-- A file over its reader: the buffer of the code, or a plain text. -/
structure ConfigFile (ρ : Type) where
  reader : ρ
  filename : Octets
  line : Nat
  error : Bool
  type : TokenType
  string : Octets
  deriving DecidableEq, Repr

/-- A buffer with what `read` is yet to deliver. -/
structure Reader where
  data : Octets
  reads : List Nat
  buffer : List (Option UInt8)
  bufsize : Nat
  BUFSIZ : Nat
  current : Option Nat
  deriving DecidableEq, Repr

namespace Reader

def read (r : Reader) (amount : Nat) : Octets × Reader :=
  let n := match r.reads with
    | [] => amount
    | n :: _ => min (n + 1) amount
  (r.data.take n, { r with data := r.data.drop n, reads := r.reads.tail })

def place (r : Reader) : Nat := r.current.getD 0

def look (r : Reader) (i : Nat) : Except Fault UInt8 :=
  match r.buffer[r.place + i]? with
  | some (some c) => .ok c
  | _ => .error .beyond

def scan (pass : UInt8 → Bool) : List (Option UInt8) → Except Fault (Nat × UInt8)
  | some c :: rest => if pass c then (scan pass rest).map fun found =>
      (found.1 + 1, found.2) else .ok (0, c)
  | _ => .error .beyond

def advance (r : Reader) (n : Nat) : Reader := { r with current := some (r.place + n) }

def Full (r : Reader) : Prop := r.buffer.length = r.bufsize

instance (r : Reader) : Decidable r.Full := inferInstanceAs (Decidable (_ = _))

/-- The buffer is read again while it is not full. -/
def Misplaces (r : Reader) : Prop := r.data ≠ [] ∧ ¬r.Full

instance (r : Reader) : Decidable r.Misplaces := inferInstanceAs (Decidable (_ ∧ _))

def Unended (r : Reader) : Prop := r.data = [] ∧ r.Full ∧ 0 < r.place

instance (r : Reader) : Decidable r.Unended := inferInstanceAs (Decidable (_ ∧ _))

def moved (r : Reader) (offset : Nat) : Reader :=
  if 0 < offset then
    { r with buffer := (r.buffer.drop offset).take (r.bufsize - offset - 1), current := some (r.place - offset) }
  else { r with current := some 0, bufsize := r.bufsize + r.BUFSIZ }

def fileReadMore (r : Reader) (offset : Nat) : Bool × Reader :=
  let start := r.bufsize - offset - 1
  let (got, next) := (r.moved offset).read (if 0 < offset then offset else r.BUFSIZ)
  if got = [] then (false, next)
  else
    (0 ∉ got, { next with
      buffer := next.buffer.take start ++ List.replicate (start - next.buffer.length) none ++
        (got.map some ++ [some 0]) })

end Reader

section Lexer

variable (careful : Bool)

def fileRead (f : ConfigFile Reader) : Except Fault (Bool × ConfigFile Reader) :=
  let (got, next) := f.reader.read (f.reader.bufsize - 1)
  if got = [] then .ok (false, { f with reader := next, type := .EOF })
  else if careful ∧ f.reader.current.isSome ∧ 0 ∈ got then .error .slip
  else .ok (0 ∉ got, { f with
    reader := { next with buffer := got.map some ++ [some 0], current := some 0 } })

def inLine (c : UInt8) : Bool := c ≠ 0 && c ≠ LF && c ≠ CR

def skipWhile (pass : UInt8 → Bool) :
    Nat → ConfigFile Reader → Except Fault (Option (Nat × UInt8) × ConfigFile Reader)
  | 0, _ => .error .bound
  | bound + 1, f => do
      let (n, c) ← Reader.scan pass (f.reader.buffer.drop f.reader.place)
      if c = 0 then
        let (status, f) ← fileRead careful f
        if status then skipWhile pass bound f else .ok (none, f)
      else .ok (some (n, c), f)

def tokenSkipWhitespace (f : ConfigFile Reader) : Except Fault (Bool × ConfigFile Reader) := do
  let (stopped, f) ← skipWhile careful ISWHITE (f.reader.data.length + 1) f
  match stopped with
  | none => .ok (false, f)
  | some (n, _) => .ok (true, { f with reader := f.reader.advance n })

def ConfigFile.nextLine (f : ConfigFile Reader) (n : Nat) : ConfigFile Reader :=
  { f with reader := f.reader.advance n, line := f.line + 1 }

def endCR (f : ConfigFile Reader) (n : Nat) : Except Fault (Bool × ConfigFile Reader) := do
  let d ← f.reader.look n
  if d = LF then .ok (true, f.nextLine (n + 1))
  else if d ≠ 0 then .ok (true, f.nextLine n)
  else
    let (status, f) ← fileRead careful f
    if status then
      let e ← f.reader.look 0
      .ok (true, f.nextLine (if e = LF then 1 else 0))
    else .ok (false, f)

def tokenSkipComment (f : ConfigFile Reader) : Except Fault (Bool × ConfigFile Reader) := do
  let (stopped, f) ← skipWhile careful inLine (f.reader.data.length + 1) f
  match stopped with
  | none => .ok (false, f)
  | some (n, c) => if c = LF then .ok (true, f.nextLine (n + 1)) else endCR careful f (n + 1)

def skipComments : Nat → ConfigFile Reader → Except Fault (ConfigFile Reader)
  | 0, _ => .error .bound
  | bound + 1, f => do
      let (status, f) ← tokenSkipWhitespace careful f
      if status then
        let c ← f.reader.look 0
        if c = 35 then
          let (status, f) ← tokenSkipComment careful f
          if status then skipComments bound f else .ok f
        else .ok { f with type := .CRLF, string := [] }
      else .ok f

def newlines (f : ConfigFile Reader) : Except Fault (ConfigFile Reader) :=
  skipComments careful (f.reader.buffer.length + f.reader.data.length + 1) f

def tokenNewline (f : ConfigFile Reader) : Except Fault (ConfigFile Reader) := do
  let c ← f.reader.look 0
  if c = LF then newlines careful (f.nextLine 1)
  else if c = CR then
    let (status, f) ← endCR careful f 1
    if status then newlines careful f else .ok { f with reader := f.reader.advance 1 }
  else newlines careful f

def tokenSimple (f : ConfigFile Reader) (type : TokenType) : ConfigFile Reader :=
  { f with reader := f.reader.advance 1, type := type, string := [] }

def ConfigFile.failed {ρ : Type} (f : ConfigFile ρ) : ConfigFile ρ :=
    { f with type := .ERROR, error := true }

def ConfigFile.token (f : ConfigFile Reader) (type : TokenType) (i n : Nat) : ConfigFile Reader :=
  { f with
    reader := f.reader.advance i
    type := type
    string := ((f.reader.buffer.drop f.reader.place).take n).reduceOption }

def endsString (c : UInt8) : Bool :=
    c = 9 || c = CR || c = LF || c = 32 || c = 59 || c = 62 || c = 125

def badString (c : UInt8) : Bool := c = 34 || c = 60 || c = 91 || c = 92 || c = 93 || c = 123

def ConfigFile.stringToken (f : ConfigFile Reader) (i : Nat) (colon : Bool) : ConfigFile Reader :=
  f.token (if colon then .PARAM else .STRING) i (i - if colon then 1 else 0)

def tokenString : Nat → Nat → Bool → ConfigFile Reader → Except Fault (ConfigFile Reader)
  | 0, _, _, _ => .error .bound
  | bound + 1, i, colon, f => do
      let c ← f.reader.look i
      if endsString c then .ok (f.stringToken i colon)
      else if badString c then .ok f.failed
      else if c = 58 then
        if colon then .ok f.failed else tokenString bound (i + 1) true f
      else if c = 0 then
        if careful ∧ (f.reader.Misplaces ∨ f.reader.Unended) then .error .slip
        else
          let (status, reader) := f.reader.fileReadMore f.reader.place
          if status then tokenString bound i colon { f with reader }
          else if careful ∧ f.reader.data ≠ [] then .error .slip
          else .ok (ConfigFile.stringToken { f with reader } i colon)
      else if colon then .ok f.failed
      else tokenString bound (i + 1) colon f

def tokenQuotedString : Nat → Nat → ConfigFile Reader → Except Fault (ConfigFile Reader)
  | 0, _, _ => .error .bound
  | bound + 1, i, f => do
      let c ← f.reader.look i
      if c = 34 then .ok (f.token .QSTRING (i + 1) (i + 1))
      else if c = CR ∨ c = LF then .ok f.failed
      else if c = 92 then
        let d ← f.reader.look (i + 1)
        if careful ∧ d = 0 then .error .slip
        else if d = LF then tokenQuotedString bound (i + 2) { f with line := f.line + 1 }
        else if d = CR then
          let e ← f.reader.look (i + 2)
          tokenQuotedString bound (if e = LF then i + 3 else i + 2) { f with line := f.line + 1 }
        else tokenQuotedString bound (i + 2) f
      else if c = 0 then
        if careful ∧ f.reader.Misplaces then .error .slip
        else
          let (status, reader) := f.reader.fileReadMore f.reader.place
          if status then
            let c ← reader.look (i - 1)
            if c = CR then
              let d ← reader.look i
              tokenQuotedString bound (if d = LF then i + 1 else i) { f with reader }
            else tokenQuotedString bound i { f with reader }
          else if careful ∧ f.reader.data ≠ [] then .error .slip
          else .ok (ConfigFile.failed { f with reader })
      else tokenQuotedString bound (i + 1) f

def Reader.steps (r : Reader) : Nat := r.buffer.length + 2 * r.data.length + 1

def simpleType (c : UInt8) : Option TokenType :=
  if c = 123 then some .LBRACE
  else if c = 125 then some .RBRACE
  else if c = 60 then some .LANGLE
  else if c = 62 then some .RANGLE
  else if c = 91 then some .LBRACKET
  else if c = 93 then some .RBRACKET
  else if c = 59 then some .SEMICOLON
  else none

def tokenHere (f : ConfigFile Reader) : Except Fault (ConfigFile Reader) := do
  let c ← f.reader.look 0
  match simpleType c with
  | some type => .ok (tokenSimple f type)
  | none =>
    if c = CR ∨ c = LF then tokenNewline careful f
    else if c = 34 then tokenQuotedString careful f.reader.steps 1 f
    else tokenString careful f.reader.steps 0 false f

def tokenNext (f : ConfigFile Reader) : Except Fault (ConfigFile Reader) := do
  if f.reader.current = none then
    let (status, f) ← fileRead careful f
    if status then
      let (status, f) ← tokenSkipWhitespace careful f
      if status then
        let c ← f.reader.look 0
        if c = 35 then tokenNewline careful f else tokenHere careful f
      else .ok f
    else .ok f
  else
    let (status, f) ← tokenSkipWhitespace careful f
    if status then tokenHere careful f else .ok f

end Lexer

end Inn.Confparse
