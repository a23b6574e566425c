import Inn.Octets

/-!
# The lines of an article

The functions of `lib/wire.c` look for the body of an article, for its next line and for one of its
headers. Here every octet that they look at can be read, and a pointer into the article is the text
from there to its end. `Inn.Lib.Wire` has the same functions with the bounds of their reads.
-/

namespace Inn.Lib.WireText

def findEmptyLine : Octets → Option Nat
  | [] => none
  | c :: rest =>
    if rest.length < 3 then none
    else if c = 13 ∧ rest.take 3 = [10, 13, 10] then some 4
    else (findEmptyLine rest).map (· + 1)

/-- How far from the start of the article its body is. -/
def wireFindbody (article : Octets) : Option Nat :=
  if 5 < article.length ∧ article.take 2 = [13, 10] then some 2 else findEmptyLine article

def wireNextline : Octets → Option Octets
  | [] => none
  | c :: rest =>
    if rest.length < 3 then none
    else if c = 13 ∧ rest.headD 0 = 10 then some rest.tail
    else wireNextline rest

def sameName (name header : Octets) : Bool := name.map tolower = header.map tolower

def startsWith (line header : Octets) : Bool := sameName (line.take header.length) header

def isheader (line header : Octets) : Bool :=
  line.getD header.length 0 = 58 && ISWHITE (line.getD (header.length + 1) 0) &&
    startsWith line header

def skipFwsBounded : Nat → Octets → Option Octets
  | 0, _ => none
  | _ + 1, [] => none
  | bound + 1, text =>
    let text :=
      if text.headD 0 = 13 ∧ text.getD 1 0 = 10 ∧ ISWHITE (text.getD 2 0) then text.drop 2 else text
    if ISWHITE (text.headD 0) then skipFwsBounded bound text.tail else some text

def wireFindheader (header : Octets) (stripspaces : Bool) : Nat → Octets → Option Octets
  | 0, _ => none
  | bound + 1, p =>
    if p.length ≤ header.length + 3 then none
    else if p.headD 0 = CR ∧ p.getD 1 0 = LF then none
    else if isheader p header then
      let value := p.drop (header.length + 2)
      match if stripspaces then skipFwsBounded value.length value else some value with
      | none => none
      | some text =>
        if text.length ≤ 1 ∨ text.headD 0 ≠ CR ∨ text.getD 1 0 ≠ LF then some text
        else (wireNextline text).bind (wireFindheader header stripspaces bound)
    else (wireNextline p).bind (wireFindheader header stripspaces bound)

/-- The value of the header, with the end of its last line. -/
def wireEndheader (header : Octets) : Nat → Octets → Option Octets
  | 0, _ => none
  | bound + 1, p =>
    match wireNextline p with
    | some p => if ISWHITE (p.headD 0) then wireEndheader header bound p
        else some (header.take (header.length - p.length))
    | none => if header.drop (header.length - 2) = [13, 10] then some header else none

end Inn.Lib.WireText
