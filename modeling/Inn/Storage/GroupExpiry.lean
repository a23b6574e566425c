import Inn.Foundation.Words
import Inn.Innd.Channel

/-!
# Expiring by group

The overview line of an article names the groups that it is in. For each of them there is a rule
that keeps the article or does not, and what becomes of the article in one group is found out
from the rules of all of them.
-/

namespace Inn.Storage.GroupExpiry

open Foundation.Words Innd

inductive KRP
  | Keep
  | Remove
  | Poison
  deriving DecidableEq

structure NEWSGROUP where
  Name : Octets
  Keep : Int
  Default : Int
  Purge : Int
  Poison : Bool

structure ARTOVERFIELD where
  Header : Octets
  HasHeader : Bool
  NeedsHeader : Bool

structure Control where
  Groups : List NEWSGROUP
  nGroups : Nat
  ARTfields : List ARTOVERFIELD
  Dateindex : Nat
  Xrefindex : Nat
  parsedate : Octets → Option Int
  OVnow : Int
  OVrealnow : Int
  OVignoreselfexpire : Bool
  OVusepost : Bool
  OVkeep : Bool
  OVearliest : Bool

structure Article where
  empty : Bool
  selfexpire : Bool
  data : Octets
  arrived : Int
  expires : Int

inductive Fault
  /-- The list of groups is written beyond its end. -/
  | outside
  deriving DecidableEq

def skipField (p : Octets) : Option Octets :=
  match p.dropWhile (· ≠ 9) with
  | [] => none
  | _ :: p => some p

def skipFields : Nat → Octets → Option Octets
  | 0, p => some p
  | _ + 1, [] => some []
  | field + 1, c :: p => (skipField (c :: p)).bind (skipFields field)

def findField (fp : ARTOVERFIELD) : Nat → Octets → Option Octets
  | 0, _ => none
  | fuel + 1, p =>
    if fp.Header.isPrefixOf p then some (p.drop (fp.Header.length + 2))
    else (skipField p).bind (findField fp fuel)

def Control.OVERGetHeader (c : Control) (p : Octets) (field : Nat) : Option Octets :=
  match c.ARTfields[field]?, skipFields (field + 1) p with
  | some fp, some (first :: p) =>
    let p := if fp.HasHeader then (first :: p).drop (fp.Header.length + 2) else first :: p
    let p := if fp.NeedsHeader then findField fp (p.length + 1) p else some p
    p.map fun p => p.takeWhile fun c => c ≠ 10 && c ≠ 13 && c ≠ 9
  | _, _ => none

def space (c : UInt8) : Bool := c = 32

def EXPsplit (p : Octets) (sep : UInt8 → Bool) (count : Nat) :
    Except Fault (Option (List Octets)) :=
  let fields := words sep p.length (p.dropWhile sep)
  if count < 2 ∧ count < fields.length then .error .outside
  else if 2 ≤ count ∧ count ≤ fields.length then .ok none
  else .ok (some fields)

section Rules

variable (c : Control)

def Control.NGfind (Name : Octets) : Option NEWSGROUP := c.Groups.find? fun ngp => ngp.Name = Name

def Control.EXPnotfound (Entry : Octets) : NEWSGROUP := ⟨Entry, c.OVnow, c.OVnow, c.OVnow, false⟩

def Control.rule (Entry : Octets) : NEWSGROUP := (c.NGfind Entry).getD (c.EXPnotfound Entry)

def Control.corrected (ngp : NEWSGROUP) (when expires : Int) : Int :=
  if c.OVrealnow + 86400 < when then if expires ≠ 0 then ngp.Purge else ngp.Default else when

def Control.EXPkeepit (Entry : Octets) (when expires : Int) : KRP :=
  let ngp := c.rule Entry
  let when := c.corrected ngp when expires
  let retval :=
    if expires = 0 then if ngp.Default ≤ when then KRP.Keep else .Remove
    else if ngp.Purge ≤ when ∧ (c.OVnow ≤ expires ∨ ngp.Keep ≤ when) then .Keep else .Remove
  if retval = .Keep then .Keep else if ngp.Poison then .Poison else .Remove

end Rules

section Postings

structure Found where
  poisoned : Bool
  keeper : Bool
  delete : Bool
  purge : Bool

variable (c : Control) (a : Article)

def Control.check (when : Int) (group : Octets) (found : Found) (art : Octets) : Found where
  poisoned := found.poisoned || c.EXPkeepit art when a.expires = .Poison
  keeper := found.keeper || c.OVkeep && c.EXPkeepit art when a.expires = .Keep
  delete := found.delete || c.EXPkeepit art when a.expires = .Remove && group = art
  purge := found.purge && c.EXPkeepit art when a.expires ≠ .Keep

def Control.found (when : Int) (group : Octets) (arts : List Octets) : Found :=
  arts.foldl (c.check a when group) ⟨false, false, false, true⟩

structure Verdict where
  expired : Bool
  removed : Bool
  deriving DecidableEq

def Control.settle (when : Int) (group : Octets) (arts : List Octets) : Verdict :=
  let found := c.found a when group arts
  if c.OVearliest then
    if found.delete || found.poisoned || a.empty then ⟨true, arts.head? = some group⟩
      else ⟨false, false⟩
  else if !found.keeper && found.delete || a.empty then ⟨true, found.purge⟩
  else ⟨false, false⟩

def Control.dated : Option Int :=
  if c.OVusepost then (c.OVERGetHeader a.data c.Dateindex).bind c.parsedate else some a.arrived

def Control.Xref (group : Octets) : Option Octets :=
  match c.OVERGetHeader a.data c.Xrefindex with
  | none => some (group ++ [58])
  | some Xref =>
    match Xref.dropWhile (· ≠ 32) with
    | [] => none
    | Xref => some (Xref.dropWhile space)

def Control.OVgroupbasedexpire (group : Octets) : Except Fault Verdict :=
  if a.selfexpire && !c.OVignoreselfexpire then .ok ⟨false, false⟩
  else
    match c.dated a, c.Xref a group with
    | some when, some Xref =>
      match EXPsplit Xref space c.nGroups with
      | .error fault => .error fault
      | .ok none => .ok ⟨true, false⟩
      | .ok (some arts) =>
        if arts.all fun art => art.contains 58 then
          .ok (c.settle a when group (arts.map fun art => art.takeWhile (· ≠ 58)))
        else .ok ⟨true, false⟩
    | _, _ => .ok ⟨true, false⟩

end Postings

section Sweeps

variable (c : Control) (a : Article)

structure Sweep where
  dropped : List Octets
  cancelled : Bool
  deriving DecidableEq

def Control.sweep : List Octets → Except Fault Sweep
  | [] => .ok ⟨[], false⟩
  | group :: groups =>
    match c.OVgroupbasedexpire a group with
    | .error fault => .error fault
    | .ok verdict =>
      match sweep groups with
      | .error fault => .error fault
      | .ok rest =>
        .ok ⟨if verdict.expired then group :: rest.dropped else rest.dropped,
          verdict.removed || rest.cancelled⟩

end Sweeps

end Inn.Storage.GroupExpiry
