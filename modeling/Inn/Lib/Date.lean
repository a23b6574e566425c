import Inn.Foundation.Words
import Inn.Innd.Channel
import Inn.Wildmat.Model

/-!
# Parsing a date

A position in a date is what is left of it, with a nul behind it. Nothing is wrong with reading
there, but to go on by more octets than are left is to read beyond the nul.
-/

namespace Inn.Lib.Date

open Foundation.Words (isdigit decimal readDigits)
open Wildmat (CString deref)

def WEEKDAY : List Octets := ["Sun", "Mon", "Tue", "Wed", "Thu", "Fri", "Sat"].map octets

def MONTH : List Octets :=
  ["Jan", "Feb", "Mar", "Apr", "May", "Jun", "Jul", "Aug", "Sep", "Oct", "Nov", "Dec"].map octets

def OBS_MONTH : List Octets :=
  ["January", "February", "March", "April", "May", "June", "July", "August", "September",
    "October", "November",
    "December"].map octets

def MONTHDAYS : List Int := [31, 28, 31, 30, 31, 30, 31, 31, 30, 31, 30, 31]

structure Zone where
  name : Octets
  offset : Int

def ZONE_OFFSET : List Zone :=
  [⟨octets "UT", 0⟩, ⟨octets "GMT", 0⟩,
    ⟨octets "EDT", -4 * 60 * 60⟩, ⟨octets "EST", -5 * 60 * 60⟩,
    ⟨octets "CDT", -5 * 60 * 60⟩, ⟨octets "CST", -6 * 60 * 60⟩,
    ⟨octets "MDT", -6 * 60 * 60⟩, ⟨octets "MST", -7 * 60 * 60⟩,
    ⟨octets "PDT", -7 * 60 * 60⟩, ⟨octets "PST", -8 * 60 * 60⟩]

def OBS_ZONE_OFFSET : List Zone :=
  [⟨octets "UTC", 0⟩, ⟨octets "CUT", 0⟩, ⟨octets "WET", 0⟩, ⟨octets "BST", 1 * 60 * 60⟩,
    ⟨octets "NDT", (-2 * 60 + 30) * 60⟩, ⟨octets "NST", (-3 * 60 + 30) * 60⟩,
    ⟨octets "ADT", -3 * 60 * 60⟩, ⟨octets "AST", -4 * 60 * 60⟩,
    ⟨octets "YDT", -8 * 60 * 60⟩, ⟨octets "YST", -9 * 60 * 60⟩,
    ⟨octets "AKDT", -8 * 60 * 60⟩, ⟨octets "AKST", -9 * 60 * 60⟩,
    ⟨octets "HADT", -9 * 60 * 60⟩, ⟨octets "HAST", -10 * 60 * 60⟩, ⟨octets "HST", -10 * 60 * 60⟩,
    ⟨octets "CES", 2 * 60 * 60⟩, ⟨octets "CEST", 2 * 60 * 60⟩,
    ⟨octets "MEZ", 1 * 60 * 60⟩, ⟨octets "MEZT", 2 * 60 * 60⟩,
    ⟨octets "CET", 1 * 60 * 60⟩, ⟨octets "MET", 1 * 60 * 60⟩, ⟨octets "EET", 2 * 60 * 60⟩,
    ⟨octets "MSK", 3 * 60 * 60⟩, ⟨octets "MSD", 4 * 60 * 60⟩,
    ⟨octets "WAST", 8 * 60 * 60⟩, ⟨octets "WADT", 9 * 60 * 60⟩,
    ⟨octets "HKT", 8 * 60 * 60⟩, ⟨octets "CCT", 8 * 60 * 60⟩,
    ⟨octets "JST", 9 * 60 * 60⟩, ⟨octets "KST", 9 * 60 * 60⟩, ⟨octets "KDT", 9 * 60 * 60⟩,
    ⟨octets "CAST", (9 * 60 + 30) * 60⟩, ⟨octets "CADT", (10 * 60 + 30) * 60⟩,
    ⟨octets "EAST", 10 * 60 * 60⟩, ⟨octets "EADT", 11 * 60 * 60⟩,
    ⟨octets "NZST", 12 * 60 * 60⟩, ⟨octets "NZST", 13 * 60 * 60⟩]

def ISLEAP (year : Int) : Bool := year % 4 = 0 && (year % 100 ≠ 0 || year % 400 = 0)

def isalpha (c : UInt8) : Bool := (65 ≤ c && c ≤ 90) || (97 ≤ c && c ≤ 122)

def strncasecmp (name p : Octets) (n : Nat) : Bool :=
    (name.take n).map tolower = (p.take n).map tolower

def advance (p : Octets) (n : Nat) : Except Unit Octets :=
    if n ≤ p.length then .ok (p.drop n) else .error ()

def skipNested : Nat → Octets → Octets
  | _, [] => []
  | nesting, c :: rest =>
    if c = 32 ∨ c = 9 ∨ c = 10 then skipNested nesting rest
    else if c = 13 then
      if deref rest ≠ 10 ∧ nesting = 0 then c :: rest else skipNested nesting rest
    else if c = 40 then skipNested (nesting + 1) rest
    else if c = 41 then
      if nesting = 0 then c :: rest else skipNested (nesting - 1) rest
    else if c = 92 then
      match rest with
      | [] => [c]
      | _ :: rest' => if nesting = 0 then c :: rest else skipNested nesting rest'
    else if nesting = 0 then c :: rest
    else skipNested nesting rest

def skipCfws (p : Octets) : Octets := skipNested 0 p

inductive Rule
  | number (min max : Nat)
  | lookup (table : List Octets) (max : Nat)
  | obsMonth
  | delim (delimiter : UInt8)

def parseNumber (p : Octets) (min max : Nat) : Option (Octets × Nat) :=
  let found := (p.take max).takeWhile isdigit
  if found.length < min then none else some (p.drop found.length, readDigits found)

def parseLookup (p : Octets) (table : List Octets) (max : Nat) :
    Except Unit (Option (Octets × Nat)) :=
  match table.findIdx? fun name => strncasecmp name p max with
  | none => .ok none
  | some i => do
      let p ← advance p max
      return some (p, i)

def parseLegacyMonth (p : Octets) : Except Unit (Option (Octets × Nat)) :=
  let letters := (p.takeWhile isalpha).length
  let size := if deref (p.drop letters) = 46 then letters + 1 else letters
  let found :=
    if size = 0 then none
    else if size = 3 ∨ size = 4 ∧ deref (p.drop 3) = 46 then MONTH.findIdx? fun name =>
      strncasecmp name p 3
    else OBS_MONTH.findIdx? fun name => size = name.length && strncasecmp name p size
  match found with
  | none => .ok none
  | some i => do
      let p ← advance p size
      return some (p, i)

def Rule.parse (p : Octets) : Rule → Except Unit (Option (Octets × Option Nat))
  | .delim delimiter => if deref p ≠ delimiter then .ok none else do
      let p ← advance p 1
      return some (p, none)
  | .lookup table max => do return (← parseLookup p table max).map fun (p, i) => (p, some i)
  | .obsMonth => do return (← parseLegacyMonth p).map fun (p, i) => (p, some i)
  | .number min max => .ok ((parseNumber p min max).map fun (p, n) => (p, some n))

def parseByRule : List Rule → Nat → Octets → (Nat → Nat) → Except Unit
    (Option (Octets × (Nat → Nat)))
  | [], _, p, values => .ok (some (p, values))
  | rule :: rules, i, p, values => do
      match ← rule.parse p with
      | none => return none
      | some (p, value) =>
        let values := match value with
          | none => values
          | some v => Function.update values i v
        parseByRule rules (i + 1) (skipCfws p) values

def parseLegacyTimezone (p : Octets) (obsolete : Bool) : Except Unit (Option (Octets × Int)) :=
  let max := (p.takeWhile isalpha).length
  if max = 0 then .ok none
  else
    match ZONE_OFFSET.find? fun zone => strncasecmp zone.name p max with
    | some zone => do
        let p ← advance p zone.name.length
        return some (p, zone.offset)
    | none =>
      if max = 1 ∧ isalpha (deref p) ∧ deref p ≠ 74 ∧ deref p ≠ 106 then do
        let p ← advance p 1
        return some (p, 0)
      else if obsolete then
        match OBS_ZONE_OFFSET.find? fun zone => zone.name.length ≤
          max && strncasecmp zone.name p max with
        | some zone => do
            let p ← advance p zone.name.length
            return some (p, zone.offset)
        | none => .ok none
      else .ok none

structure tm where
  tmSec : Int
  tmMin : Int
  tmHour : Int
  tmMday : Int
  tmMon : Int
  tmYear : Int
  deriving DecidableEq

def yearDays : Nat → Int
  | 0 => 0
  | n + 1 => yearDays n + (365 + if ISLEAP (1970 + n) then 1 else 0)

def monthDays (mon : Nat) : Int := (MONTHDAYS.take mon).sum

def mktimeUtc (tm : Date.tm) : Int :=
  if tm.tmMon < 0 ∨ tm.tmMon > 11 ∨ tm.tmYear < 70 then -1
  else
    let result := yearDays (tm.tmYear - 70).toNat + monthDays tm.tmMon.toNat
    let result := if tm.tmMon > 1 ∧ ISLEAP (tm.tmYear + 1900) then result + 1 else result
    let result := 24 * (result + tm.tmMday - 1) + tm.tmHour
    let result := 60 * result + tm.tmMin
    60 * result + tm.tmSec

def validTm (tm : Date.tm) : Bool :=
  if tm.tmSec > 60 ∨ tm.tmMin > 59 ∨ tm.tmHour > 23 then false
  else if tm.tmMday < 1 ∨ tm.tmMon < 0 ∨ tm.tmMon > 11 then false
  else if tm.tmMday > MONTHDAYS.getD tm.tmMon.toNat 0 ∧
      (tm.tmMon ≠ 1 ∨ tm.tmMday > 29 ∨ ISLEAP (tm.tmYear + 1900) = false) then false
  else if tm.tmYear < 70 then false
  else true

def fixYear (tm : Date.tm) : Date.tm :=
  if tm.tmYear < 50 then { tm with tmYear := tm.tmYear + 100 }
  else if tm.tmYear ≥ 1000 then { tm with tmYear := tm.tmYear - 1900 }
  else tm

def baseRule : List Rule :=
  [.lookup WEEKDAY 3, .delim 44, .number 1 2, .lookup MONTH 3, .number 2 4, .number 2 2,
    .delim 58, .number 2 2]

def secondsRule : List Rule := [.delim 58, .number 2 2]

def zoneRule : List Rule := [.number 2 2, .number 2 2]

def parseTime (base : Octets → Except Unit (Option (Octets × (Nat → Nat)))) (seconds : List Rule)
    (stash : (Nat → Nat) → tm) (p : Octets) :
    Except Unit (Option (Octets × (Nat → Nat) × tm)) := do
  match ← base p with
  | none => return none
  | some (p, values) =>
    let tm := stash values
    if deref p = 58 then
      match ← parseByRule seconds 0 p values with
      | none => return none
      | some (p, values) => return some (p, values, { tm with tmSec := values 1 })
    else return some (p, values, tm)

def dateAndTime (date : CString) : Except Unit (Option (Octets × (Nat → Nat) × tm)) :=
  let base (p : Octets) :=
    if isalpha (deref p) then parseByRule baseRule 0 p fun _ => 0
    else parseByRule (baseRule.drop 2) 2 p fun _ => 0
  parseTime base secondsRule
    (fun values =>
      { tmSec := 0, tmMin := values 7, tmHour := values 5, tmMday := values 2, tmMon := values 3,
        tmYear := values 4 })
    (skipCfws date.octets)

def timeZone (p : Octets) (values : Nat → Nat) : Except Unit (Option (Octets × Int)) :=
  if deref p = 45 ∨ deref p = 43 then do
    let zone_sign : Int := if deref p = 43 then 1 else -1
    match ← parseByRule zoneRule 0 p.tail values with
    | none => return none
    | some (p, values) => return some (p, (values 0 * 60 + values 1) * 60 * zone_sign)
  else parseLegacyTimezone p false

def parsedateRfc5322 (date : CString) : Except Unit Int := do
  match ← dateAndTime date with
  | none => return -1
  | some (p, values, tm) =>
    match ← timeZone p values with
    | none => return -1
    | some (p, zone_offset) =>
      let tm := fixYear tm
      let p := skipCfws p
      if deref p ≠ 0 then return -1
      else if !validTm tm then return -1
      else
        let result := mktimeUtc tm
        return if result = -1 then result else result - zone_offset

def laxBaseRule : List Rule :=
    [.number 1 2, .obsMonth, .number 2 4, .number 1 2, .delim 58, .number 1 2]

def laxSecondsRule : List Rule := [.delim 58, .number 1 2]

def laxZoneRule : List Rule := [.number 1 5]

def laxDateAndTime (date : CString) : Except Unit (Option (Octets × (Nat → Nat) × tm)) :=
  let p := (skipCfws date.octets).dropWhile fun c => !isdigit c && c ≠ 44
  let p := if deref p = 44 then skipCfws p.tail else p
  parseTime (fun p => parseByRule laxBaseRule 0 p fun _ => 0) laxSecondsRule
    (fun values =>
      { tmSec := 0, tmMin := values 5, tmHour := values 3, tmMday := values 0, tmMon := values 1,
        tmYear := values 2 })
    p

def laxZone (p : Octets) (values : Nat → Nat) :
    Except Unit (Option (Option Octets × (Nat → Nat) × Int)) :=
  if deref p = 45 ∨ deref p = 43 then do
    let zone_sign : Int := if deref p = 43 then 1 else -1
    let start := p.tail
    match ← parseByRule laxZoneRule 0 start values with
    | none => return none
    | some (p, values) =>
      let zone_offset : Int :=
        if start.length - p.length < 3 then values 0 * 60 * 60
          else (values 0 / 100 * 60 + values 0 % 100) * 60
      return some (some (skipCfws p), values, zone_offset * zone_sign)
  else do
    match ← parseLegacyTimezone p true with
    | none => return some (none, values, 0)
    | some (p, zone_offset) => return some (some (skipCfws p), values, zone_offset)

def laxZones : Nat → Octets → (Nat → Nat) → Bool × Int → Except Unit (Option (Bool × Int))
  | 0, _, _, found => .ok (some found)
  | turns + 1, p, values, found =>
    if deref p = 0 then .ok (some found)
    else do
      match ← laxZone p values with
      | none => return none
      | some (none, _, zone_offset) => return some (true, zone_offset)
      | some (some p, values, zone_offset) => laxZones turns p values (true, zone_offset)

def parsedateRfc5322Lax (mktime : tm → Int) (date : CString) : Except Unit Int := do
  match ← laxDateAndTime date with
  | none => return -1
  | some (p, values, tm) =>
    match ← laxZones p.length p values (false, 0) with
    | none => return -1
    | some (have_zone, zone_offset) =>
      let tm := fixYear tm
      if !validTm tm then return -1
      else
        let result := if have_zone then mktimeUtc tm else mktime tm
        return if result = -1 then result else result - zone_offset

end Inn.Lib.Date
