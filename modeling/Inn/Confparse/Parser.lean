import Inn.Confparse.Reader

/-!
# The parser

The parser takes one token after another. It is the same over the buffer and over a text.
-/

namespace Inn.Confparse

inductive ConfigValue
  | UNKNOWN (raw_value : Octets)
  | LIST (list : List Octets)
  deriving DecidableEq

structure ConfigParameter where
  key : Octets
  line : Nat
  value : ConfigValue
  deriving DecidableEq

structure ConfigGroup where
  type : Octets
  tag : Option Octets
  file : Octets
  line : Nat
  included : Option Octets
  params : List ConfigParameter
  child : List ConfigGroup

def groupNew (file : Octets) (line : Nat) (type : Octets) (tag : Option Octets) : ConfigGroup :=
  ⟨type, tag, file, line, none, [], []⟩

def ConfigGroup.insert (group : ConfigGroup) (param : ConfigParameter) : ConfigGroup :=
  if group.params.any fun other => other.key = param.key then group
  else { group with params := group.params ++ [param] }

def escaped (c : UInt8) : Option Octets :=
  if c = 97 then some [7]
  else if c = 98 then some [8]
  else if c = 102 then some [12]
  else if c = 110 then some [10]
  else if c = 114 then some [13]
  else if c = 116 then some [9]
  else if c = 118 then some [11]
  else if c = 10 then some []
  else if c = 92 ∨ c = 39 ∨ c = 34 ∨ c = 63 then some [c]
  else none

def unquote : Octets → Option Octets
  | [] => none
  | [c] => if c = 34 then some [] else none
  | c :: d :: rest =>
    if c = 34 then some []
    else if c = 92 then (escaped d).bind fun octets => (unquote rest).map (octets ++ ·)
    else (unquote (d :: rest)).map (c :: ·)

def tokenUnquoteString (raw : Octets) : Option Octets := unquote raw.tail

def errorUnexpectedToken {ρ : Type} (f : ConfigFile ρ) : ConfigFile ρ :=
  { f with type := .ERROR, error := true, string := [] }

section Parser

variable {ρ : Type} (next : ConfigFile ρ → Except Fault (ConfigFile ρ))

def listStrings : Nat → List Octets → ConfigFile ρ → Except Fault
    (Option (List Octets) × ConfigFile ρ)
  | 0, _, _ => .error .bound
  | bound + 1, strings, f =>
    match f.type with
    | .RBRACKET => .ok (some strings, f)
    | .CRLF => next f >>= listStrings bound strings
    | .STRING => next f >>= listStrings bound (strings ++ [f.string])
    | .QSTRING =>
      match tokenUnquoteString f.string with
      | none => .ok (none, f)
      | some string => next f >>= listStrings bound (strings ++ [string])
    | _ => .ok (none, errorUnexpectedToken f)

def parseList (bound : Nat) (group : ConfigGroup) (key : Octets) (f : ConfigFile ρ) :
    Except Fault (TokenType × ConfigGroup × ConfigFile ρ) := do
  let f ← next f
  let (strings, f) ← listStrings next bound [] f
  match strings with
  | none => .ok (.ERROR, group, f)
  | some strings =>
    let group := group.insert ⟨key, f.line, .LIST strings⟩
    let f ← next f
    .ok (f.type, group, f)

def endsParameter (type : TokenType) : Bool :=
  type = .CRLF || type = .SEMICOLON || type = .EOF || type = .RBRACE

def parseParameter (bound : Nat) (group : ConfigGroup) (key : Octets) (f : ConfigFile ρ) :
    Except Fault (TokenType × ConfigGroup × ConfigFile ρ) := do
  let f ← next f
  if f.type = .LBRACKET then parseList next bound group key f
  else if f.type = .STRING ∨ f.type = .QSTRING then
    let value := f.string
    let line := f.line
    let f ← next f
    if endsParameter f.type then .ok (f.type, group.insert ⟨key, line, .UNKNOWN value⟩, f)
    else .ok (.ERROR, group, errorUnexpectedToken f)
  else .ok (.ERROR, group, errorUnexpectedToken f)

def separators : Nat → Bool → TokenType → ConfigFile ρ → Except Fault
    (Bool × TokenType × ConfigFile ρ)
  | 0, _, _, _ => .error .bound
  | bound + 1, semicolon, token, f =>
    if token = .CRLF ∨ token = .SEMICOLON then do
      let f ← next f
      separators bound (token = .SEMICOLON) f.type f
    else .ok (semicolon, token, f)

abbrev Include := List Octets → ConfigGroup → Octets → Except Fault (Option ConfigGroup)

def includePath (group : ConfigGroup) (filename : Octets) : Octets :=
  if filename.head? = some 47 then filename
  else if 47 ∈ group.file then (group.file.reverse.dropWhile (· ≠ 47)).tail.reverse ++
    47 :: filename
  else filename

def parseInclude (included : Include) (files : List Octets) (group : ConfigGroup)
    (f : ConfigFile ρ) :
    Except Fault (Option (ConfigGroup × ConfigFile ρ)) := do
  let f ← next f
  if f.type ≠ .STRING then .ok none
  else
    let path := includePath group f.string
    let f ← next f
    if f.type ≠ .RANGLE then .ok none
    else if path ∈ files ∨ 20 < files.length then .ok none
    else
      match ← included files { group with included := some path } path with
      | none => .ok none
      | some group => .ok (some (group, f))

def groupTag (f : ConfigFile ρ) : Except Fault (Option Octets × ConfigFile ρ) :=
  if f.type = .STRING then do
    let tag := f.string
    let f ← next f
    .ok (some tag, f)
  else .ok (none, f)

def parseGroup (included : Include) (contents : List Octets → ConfigGroup → ConfigFile ρ →
      Except Fault (Option (ConfigGroup × ConfigFile ρ)))
    (files : List Octets) (parent : ConfigGroup) (f : ConfigFile ρ) :
    Except Fault (Option (ConfigGroup × ConfigFile ρ)) := do
  let type := f.string
  let f ← next f
  let (tag, f) ← groupTag next f
  let group := groupNew f.filename f.line type tag
  if f.type = .LANGLE then
    match ← parseInclude next included (f.filename :: files) group f with
    | none => .ok none
    | some (group, f) => .ok (some ({ parent with child := parent.child ++ [group] }, f))
  else if f.type = .LBRACE then
    match ← contents (f.filename :: files) group f with
    | none => .ok none
    | some (group, f) =>
      if f.type = .RBRACE then .ok (some ({ parent with child := parent.child ++ [group] },
        f)) else .ok none
  else .ok none

def groupContents (included : Include) :
    Nat → List Octets → Bool → TokenType → ConfigGroup → ConfigFile ρ →
      Except Fault (Option (ConfigGroup × ConfigFile ρ))
  | 0, _, _, _, _, _ => .error .bound
  | bound + 1, files, semicolon, token, group, f =>
    if f.error then .ok none
    else
      match token with
      | .PARAM =>
        if group.child.isEmpty then do
          let (token, group, f) ← parseParameter next bound group f.string f
          let (semicolon, token, f) ← separators next bound semicolon token f
          groupContents included bound files semicolon token group f
        else .ok none
      | .CRLF => do
          let f ← next f
          groupContents included bound files semicolon f.type group f
      | .STRING =>
        if semicolon then .ok none
        else do
          match ← parseGroup next included (fun files group f => do
              let f ← next f
              groupContents included bound files false f.type group f) files group f with
          | none => .ok none
          | some (group, f) =>
            let f ← next f
            groupContents included bound files semicolon f.type group f
      | .RBRACE | .EOF => .ok (some (group, f))
      | _ => .ok none

def parseGroupContents (included : Include) (bound : Nat) (files : List Octets)
    (group : ConfigGroup) (f : ConfigFile ρ) :
    Except Fault (Option (ConfigGroup × ConfigFile ρ)) := do
  let f ← next f
  groupContents next included bound files false f.type group f

end Parser

/-- A file, and how many octets each `read` of it brings. A file that is included twice is read in
the same portions both times. -/
structure Disk where
  content : Octets
  reads : List Nat
  BUFSIZ : Nat

def fileOpen (disk : Disk) (filename : Octets) : ConfigFile Reader :=
  ⟨⟨disk.content, disk.reads, [], disk.BUFSIZ, disk.BUFSIZ, none⟩, filename, 1, false, .ERROR, []⟩

def parseFile (careful : Bool) (disks : Octets → Option Disk) : Nat → Include
  | 0 => fun _ _ _ => .error .bound
  | depth + 1 => fun files group path =>
    match disks path with
    | none => .ok none
    | some disk => do
        match ← parseGroupContents (tokenNext careful) (parseFile careful disks depth)
          (disk.content.length + 2) files group
            (fileOpen disk path) with
        | none => .ok none
        | some (group, f) =>
          if careful ∧ f.type = .RBRACE ∧ 0 ∈ f.reader.data then .error .slip
          else .ok (some group)

def configParseFile (careful : Bool) (disks : Octets → Option Disk) (filename : Octets) :
    Except Fault (Option ConfigGroup) :=
  parseFile careful disks 22 [filename] (groupNew filename 1 (octets "GLOBAL") none) filename

end Inn.Confparse
