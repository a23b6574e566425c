import Inn.Foundation.Words
import Inn.History.RoundTrip
import Inn.Innd.Slave
import Inn.Lib.WireText
import Inn.Wildmat.Model

/-!
# Overview records

The overview line of an article ends with its Xref field, which says where the article is
filed. A record goes to the overview method for each group of the field that is wanted, and
the records are cancelled by the Xref header of the stored article, which is taken apart by
different code.
-/

namespace Inn.Storage.Ov

open Inn.Foundation.Words
open Inn.History (strtoul)
open Inn.Lib.WireText (wireFindheader wireEndheader)
open Inn.Wildmat (CString cstring uwildmatPoison)

inductive OVADDRESULT
  | OVADDCOMPLETED
  | OVADDFAILED
  | OVADDGROUPNOMATCH
  deriving DecidableEq

structure Config where
  ovgrouppat : Option CString
  groupbaseexpiry : Bool
  selfexpire : Bool

section Xref

def xrefName : Octets := [88, 114, 101, 102, 58, 32]

def findXref : UInt8 → Octets → Option Octets
  | _, [] => none
  | prev, c :: rest =>
    match findXref c rest with
    | some xrefstart => some xrefstart
    | none => if (c :: rest).take 6 = xrefName ∧ prev = 9 then some (c :: rest) else none

def afterSpace (text : Octets) : Option Octets :=
  match text.dropWhile (· ≠ 32) with
  | [] => none
  | _ :: rest => some rest

def xrefGroups (data : Octets) : Option Octets :=
  match findXref 0 data with
  | none => none
  | some xrefstart =>
    match afterSpace xrefstart with
    | none => none
    | some next => (if next = [] then some [] else afterSpace next).map fun next =>
        next.takeWhile (· ≠ 9)

variable {σ : Type*}

def eachGroup (visit : Octets → Octets → σ → σ × Option OVADDRESULT) :
    Nat → Octets → σ → σ × Option OVADDRESULT
  | 0, _, s => (s, none)
  | bound + 1, xref, s =>
    if xref.headD 0 = 0 then (s, none)
    else
      let group := xref.dropWhile isspace
      match group.dropWhile (· ≠ 58) with
      | [] => (s, some .OVADDFAILED)
      | _ :: next =>
        match visit (group.takeWhile (· ≠ 58)) next s with
        | (s, some result) => (s, some result)
        | (s, none) => eachGroup visit bound (next.dropWhile (· ≠ 32)) s

end Xref

def atoi (text : Octets) : Int := Int.bmod (Inn.Innd.Numbering.atol text) (2 ^ 32)

def printLong (value : Int) : Octets :=
    if value < 0 then 45 :: decimal value.natAbs else decimal value.natAbs

structure Record where
  group : Octets
  artnum : Nat
  overdata : Octets
  deriving DecidableEq

def checkGroup (cfg : Config) (group _next : Octets) (_ : Unit) : Unit × Option OVADDRESULT :=
  match cfg.ovgrouppat with
  | none => ((), none)
  | some ovgrouppat =>
    match uwildmatPoison (cstring group) ovgrouppat with
    | .poison => ((), some .OVADDGROUPNOMATCH)
    | .fail => ((), if cfg.selfexpire = false ∧ cfg.groupbaseexpiry then some
        .OVADDFAILED else none)
    | .match => ((), none)

def Config.selects (cfg : Config) (group : Octets) : Bool :=
  match cfg.ovgrouppat with
  | none => true
  | some ovgrouppat => uwildmatPoison (cstring group) ovgrouppat = .match

def addGroup (cfg : Config) (add : Record → Bool) (data : Octets) (group next : Octets)
    (records : List Record) :
    List Record × Option OVADDRESULT :=
  let value := atoi next
  -- the number is unsigned, and not below zero
  if value = 0 then (records, none)
  else if cfg.selects group = false then (records, none)
  else
    let record := ⟨group, (value % 2 ^ 64).toNat, printLong value ++ 9 :: (data ++ [13, 10])⟩
    (records ++ [record], if add record then none else some .OVADDFAILED)

/-- The buffer of the Xref is large enough for what it holds. -/
structure Buffers where
  xrefdatalen : Nat
  allocated : Nat
  overdatalen : Nat
  fits : xrefdatalen = 0 ∨ xrefdatalen = BIG_BUFFER ∧ allocated = BIG_BUFFER ∨
    BIG_BUFFER < xrefdatalen ∧ allocated = xrefdatalen + 1

def Buffers.start : Buffers := ⟨0, 0, 0, .inl rfl⟩

def Buffers.first (buffers : Buffers) : Buffers :=
  if buffers.xrefdatalen = 0 then ⟨BIG_BUFFER, BIG_BUFFER, buffers.overdatalen,
    .inr (.inl ⟨rfl, rfl⟩)⟩ else buffers

theorem Buffers.first_le (buffers : Buffers) : BIG_BUFFER ≤ buffers.first.xrefdatalen := by
  unfold Buffers.first
  split
  · exact Nat.le_refl _
  next hused =>
    rcases buffers.fits with hzero | ⟨hbig, _⟩ | ⟨hbig, _⟩
    · exact absurd hzero hused
    · exact Nat.le_of_eq hbig.symm
    · exact Nat.le_of_lt hbig

def Buffers.forXref (buffers : Buffers) (xreflen : Nat) : Buffers :=
  if hlong : buffers.first.xrefdatalen < xreflen then
    ⟨xreflen, xreflen + 1, buffers.overdatalen,
      .inr (.inr ⟨Nat.lt_of_le_of_lt buffers.first_le hlong, rfl⟩)⟩
  else buffers.first

def Buffers.forLine (buffers : Buffers) (len : Nat) : Buffers :=
  let overdatalen := if buffers.overdatalen = 0 then BIG_BUFFER else buffers.overdatalen
  { buffers with overdatalen := if overdatalen < len + 16 then len + 16 else overdatalen }

structure Added where
  result : OVADDRESULT
  records : List Record
  buffers : Buffers

def checkGroups (cfg : Config) (xref : Octets) : Option OVADDRESULT :=
  if cfg.ovgrouppat = none then none else (eachGroup (checkGroup cfg) (xref.length + 1) xref ()).2

def OVadd (cfg : Config) (add : Record → Bool) (buffers : Buffers) (data : Octets) : Added :=
  match xrefGroups data with
  | none => ⟨.OVADDFAILED, [], buffers⟩
  | some xref =>
    let buffers := (buffers.forXref xref.length).forLine data.length
    match checkGroups cfg xref with
    | some result => ⟨result, [], buffers⟩
    | none =>
      let (records, result) := eachGroup (addGroup cfg add data) (xref.length + 1) xref []
      ⟨result.getD .OVADDCOMPLETED, records, buffers⟩

def xrefHeader (head : Octets) : Option Octets := do
  let xref ← wireFindheader (octets "xref") true head.length head
  wireEndheader xref xref.length xref

def cancelGroup (word : Octets) : Option (Octets × Nat) :=
  let group := word.takeWhile (· ≠ 58)
  match word.dropWhile (· ≠ 58) with
  | [] => none
  | _ :: number =>
    if group = [] ∨ number.headD 0 = 45 then none
    -- the number is out of range
    else if 2 ^ 64 ≤ readDigits (((number.dropWhile isspace).dropWhile fun c => c = 43 || c =
      45).takeWhile isdigit) then none
    else
      let artnum := (strtoul number).1
      if artnum = 0 then none else some (group, artnum.toNat)

def OVcancel (head : Octets) : Option (List (Octets × Nat)) :=
  (xrefHeader head).map fun xref =>
    let text := xref.takeWhile (· ≠ 0)
    (words ISWHITE (text.length + 1) (text.dropWhile ISWHITE)).filterMap cancelGroup

end Inn.Storage.Ov
