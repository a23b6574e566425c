import Inn.Foundation.Lines
import Inn.Foundation.Terminated
import Inn.Storage.Ov

/-!
# Overview data

The overview line of an article has fields with tabs between them: the number of the article, the
standard fields, and the extra fields with their names. It is built from the headers of the article,
and checked, split and read by code that knows nothing of how it was built.

A pointer into a text is the text from there to its end.
-/

namespace Inn.Storage.Overdata

open Inn.Foundation.Lines (cut)
open Inn.Foundation.Words
open Inn.History (strtoul)
open Inn.Lib.WireText (sameName startsWith wireFindheader wireEndheader)

def fields : List Octets :=
  ["Subject", "From", "Date", "Message-ID", "References", "Bytes", "Lines"].map octets

def lastHeader (header : Octets) : Nat → Octets → Octets → Option Octets
  | 0, _, _ => none
  | bound + 1, next, value =>
    match wireFindheader header false next.length next with
    | none => some value
    | some data => (wireEndheader data data.length data).bind (lastHeader header bound data)

def blank (c : UInt8) : UInt8 := if c = 0 || c = TAB || c = LF || c = CR then 32 else c

def copyHeader : Octets → Octets
  | [] => []
  | [c] => [blank c]
  | c :: d :: rest => if c = CR ∧ d = LF then copyHeader rest else blank c :: copyHeader (d :: rest)

def buildHeader (article header : Octets) : Octets :=
  let found := do
    let data ← wireFindheader header false article.length article
    let value ← wireEndheader data data.length data
    if sameName header (octets "xref") then
      lastHeader header (article.length + 1) (data.drop value.length) value
    else some value
  (found.map copyHeader).getD []

def buildField (article : Octets) (field : Octets × Nat) : Octets :=
  TAB :: if field.2 = 5 then decimal article.length else buildHeader article field.1

def buildExtra (article header : Octets) : Octets :=
    TAB :: (header ++ octets ": " ++ buildHeader article header)

def overviewBuild (number : UInt64) (article : Octets) (extra : List Octets) : Octets :=
  decimal number.toNat ++ fields.zipIdx.flatMap (buildField article) ++
    extra.flatMap (buildExtra article) ++ [CR, LF]

def memory (separator : UInt8) (string : Octets) : Octets :=
  string.map (fun c => if c = separator then 0 else c) ++ [0]

def stringsBehind (separator : UInt8) : Octets → List Octets
  | [] => []
  | c :: rest =>
    if c = separator then memory separator rest :: stringsBehind separator rest
      else stringsBehind separator rest

def cvectorSplit (string : Octets) (separator : UInt8) : List Octets :=
  memory separator string :: stringsBehind separator string

def validNumber (string : Octets) : Bool := (string.takeWhile (· ≠ 0)).all isdigit

def isgraph (c : UInt8) : Bool := 33 ≤ c && c ≤ 126

def atEnd (p : Octets) : Bool := p.headD 0 = CR && p.getD 1 0 = LF && p.getD 2 0 = 0

def validContents : Octets → Bool
  | [] => true
  | c :: rest =>
    if c = 0 || atEnd (c :: rest) then true
    else if c = CR || c = LF then false
    else validContents rest

def skipName : Octets → Option Octets
  | [] => some []
  | c :: rest => if c = 0 || c = 58 then some (c :: rest)
      else if isgraph c then skipName rest else none

def validOverviewString (string : Octets) (full : Bool) : Bool :=
  if full then
    if string.headD 0 = 0 || atEnd string then true
    else
      match skipName string with
      | none => false
      | some p => p.headD 0 = 58 && p.getD 1 0 = 32 && validContents (p.drop 2)
  else validContents string.tail

def overviewCheck (data : Octets) (article : UInt64) : Bool :=
  let overview := cvectorSplit (data.takeWhile (· ≠ 0)) TAB
  if overview.length < 8 then false
  else validNumber (overview.getD 0 []) && decide ((strtoul (overview.getD 0 [])).1 = article) &&
    validNumber (overview.getD 6 []) &&
    ((overview.take 6).drop 1).all (validOverviewString · false) &&
    (overview.drop 8).all (validOverviewString · true)

def splitFrom : Nat → Octets → List Octets
  | 0, _ => []
  | bound + 1, line =>
    match cut TAB line with
    | some (_, rest) => rest :: splitFrom bound rest
    | none => [line.drop (line.length - 1)]

def overviewSplit (line : Octets) : List Octets := splitFrom (line.length + 1) line

def member (p next : Octets) : Octets := (p.take (p.length - next.length - 1)).takeWhile (· ≠ 0)

def overviewGetStandardHeader (vector : List Octets) (element : Nat) : Option Octets :=
  if element + 1 ≥ vector.length ∨ element > fields.length - 1 then none
  else some (member (vector.getD element []) (vector.getD (element + 1) []))

def extraMember (header p next : Octets) : Option Octets :=
  if startsWith p header && p.getD header.length 0 = 58 && p.getD (header.length + 1) 0 = 32 then
    some (member (p.drop (header.length + 2)) next)
  else none

def overviewGetExtraHeader (vector : List Octets) (header : Octets) : Option Octets :=
  ((List.range vector.length).drop fields.length).dropLast.findSome? fun i =>
    extraMember header (vector.getD i []) (vector.getD (i + 1) [])

end Inn.Storage.Overdata
