import Inn.Wildmat.Utf8

/-!
# Wildmat matching

The matcher walks over a pattern that is part of a larger expression. A
position in the pattern is what is left of the string there, together with the
number of octets up to and including `end`; reading at the end of the string
gives the nul. Recursion is on a bound that the number of octets left serves as.
-/

namespace Inn.Wildmat

namespace Ascii

abbrev asterisk : UInt8 := 0x2a
abbrev question : UInt8 := 0x3f
abbrev backslash : UInt8 := 0x5c
abbrev openBracket : UInt8 := 0x5b
abbrev closeBracket : UInt8 := 0x5d
abbrev caret : UInt8 := 0x5e
abbrev hyphen : UInt8 := 0x2d
abbrev comma : UInt8 := 0x2c
abbrev exclamation : UInt8 := 0x21
abbrev atSign : UInt8 := 0x40

end Ascii

open Ascii

def cstring (text : List UInt8) : CString where
  octets := text.takeWhile (· ≠ 0)
  noNul hmem := by
    have hne := List.mem_takeWhile_imp hmem
    exact absurd rfl (of_decide_eq_true hne)

inductive Verdict
  | yes
  | no
  | abort
  deriving DecidableEq

def deref (p : List UInt8) : UInt8 := p.headD 0

def isUtf8 (c : UInt8) : Bool := c &&& 0xc0 == 0xc0

def width (text : List UInt8) : Nat :=
  if isUtf8 (deref text) then utf8Length text none else 1

def matchMembers (text : Nat) (reversed : Bool) : Nat → Bool → Nat → List UInt8 → Bool
  | 0, _, _, _ => reversed
  | fuel + 1, allowrange, first, p =>
    if p = [] then reversed
    else if allowrange = true ∧ deref p = hyphen ∧ 1 < p.length then
      let p := p.tail
      let (last, length) := utf8Decode p (some p.length)
      if first ≤ text ∧ text ≤ last then !reversed
      else matchMembers text reversed fuel false first (p.drop length)
    else
      let (first, length) := utf8Decode p (some p.length)
      if text = first then !reversed
      else matchMembers text reversed fuel true first (p.drop length)

def matchClass (text : Nat) (start : List UInt8) : Bool :=
  let reversed := deref start == caret
  let p := if reversed then start.tail else start
  matchMembers text reversed p.length false 0 p

def starLoop (ismeta : Bool) (c : UInt8) (attempt : List UInt8 → Verdict) :
    Nat → List UInt8 → Verdict
  | _, [] => .abort
  | skip + 1, _ :: text => starLoop ismeta c attempt skip text
  | 0, t :: text =>
    let skip := width (t :: text) - 1
    if ismeta then
      match attempt (t :: text) with
      | .no => starLoop ismeta c attempt skip text
      | matched => matched
    else if t ≠ c then starLoop ismeta c attempt skip text
    else
      match attempt text with
      | .no => starLoop ismeta c attempt 0 text
      | matched => matched

def isMeta (c : UInt8) : Bool := c = openBracket ∨ c = question ∨ c = backslash

def matchPattern : Nat → List UInt8 → List UInt8 → Nat → Verdict
  | 0, text, _, _ => if text = [] then .yes else .no
  | fuel + 1, text, p, n =>
    if n = 0 then
      if text = [] then .yes else .no
    else if text = [] ∧ deref p ≠ asterisk then .abort
    else if deref p = backslash then
      if deref p.tail = 0 then .abort
      else if deref text ≠ deref p.tail then .no
      else matchPattern fuel text.tail p.tail.tail (n - 2)
    else if deref p = question then
      matchPattern fuel (text.drop (width text)) p.tail (n - 1)
    else if deref p = asterisk then
      let stars := (p.takeWhile (· = asterisk)).length
      let p := p.drop stars
      let n := n - stars
      if n = 0 then .yes
      else if isMeta (deref p) then
        starLoop true (deref p) (fun text => matchPattern fuel text p n) 0 text
      else starLoop false (deref p) (fun text => matchPattern fuel text p.tail (n - 1)) 0 text
    else if deref p = openBracket then
      let p := p.tail
      let n := n - 1
      let q := if deref p = caret then 2 else 1
      if n ≤ q then .abort
      else
        match ((p.take n).drop q).findIdx? (· = closeBracket) with
        | none => .abort
        | some i =>
          let (c, length) := utf8Decode text none
          if matchClass c (p.take (q + i)) then
            matchPattern fuel (text.drop length) (p.drop (q + i + 1)) (n - (q + i + 1))
          else .no
    else if deref text ≠ deref p then .no
    else matchPattern fuel text.tail p.tail (n - 1)

def uwildmatSimple (text pat : CString) : Bool :=
  if pat.octets = [asterisk] then true
  else
    let length := pat.octets.length
    matchPattern length text.octets pat.octets length = .yes

inductive Uwildmat
  | fail
  | match
  | poison
  deriving DecidableEq

def classEnd (split : List UInt8) : Nat :=
  let skip := if deref split = closeBracket then 1 else 0
  skip + ((split.drop skip).takeWhile (· ≠ closeBracket)).length

def findSplit : Nat → Bool → List UInt8 → Nat
  | 0, _, _ => 0
  | _ + 1, _, [] => 0
  | fuel + 1, escaped, c :: rest =>
    let jump := if c = openBracket then classEnd rest + 1 else 0
    let split := (c :: rest).drop jump
    if deref split = comma ∧ escaped = false then jump
    else
      jump + 1 + findSplit fuel (if deref split = backslash then !escaped else false) split.tail

structure Subpattern where
  reverse : Bool
  poison : Bool
  p : Nat
  length : Nat

def subpatternAt (start : List UInt8) (allowpoison : Bool) (p : Nat) : Subpattern :=
  let poison := allowpoison && deref (start.drop p) == atSign
  let reverse := deref (start.drop p) == exclamation || poison
  let p := if reverse then p + 1 else p
  ⟨reverse, poison, p, findSplit start.length false (start.drop p)⟩

def matchSubpatterns (text start : List UInt8) (allowpoison : Bool) :
    Nat → Nat → Bool → Bool → Bool × Bool
  | 0, _, matched, poisoned => (matched, poisoned)
  | fuel + 1, p, matched, poisoned =>
    if p > start.length then (matched, poisoned)
    else
      let sub := subpatternAt start allowpoison p
      let next := sub.p + sub.length + 1
      if matched = !sub.reverse ∧ sub.poison = poisoned then
        matchSubpatterns text start allowpoison fuel next matched poisoned
      else if matchPattern sub.length text (start.drop sub.p) sub.length = .yes then
        matchSubpatterns text start allowpoison fuel next (!sub.reverse) sub.poison
      else matchSubpatterns text start allowpoison fuel next matched poisoned

def matchExpression (text start : List UInt8) (allowpoison : Bool) : Uwildmat :=
  if start = [] then
    if text = [] then .match else .fail
  else
    let (matched, poisoned) :=
      matchSubpatterns text start allowpoison (start.length + 1) 0 false false
    if poisoned then .poison
    else if matched then .match else .fail

def uwildmat (text pat : CString) : Bool :=
  if pat.octets = [asterisk] then true
  else matchExpression text.octets pat.octets false = .match

def uwildmatPoison (text pat : CString) : Uwildmat :=
  if pat.octets = [asterisk] then .match
  else matchExpression text.octets pat.octets true

end Inn.Wildmat
