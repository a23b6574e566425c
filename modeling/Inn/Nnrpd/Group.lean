import Inn.Nnrpd.Newnews
import Inn.Nnrpd.Post
import Inn.Nnrpd.Range

/-!
# Selecting a group

GROUP and LISTGROUP look a group up, find out whether the client may read it, and select it. What is
refused is refused first; for a server behind NFS the last articles are looked at when the marks of
the new group are noted already.
-/

namespace Inn.Nnrpd.Group

open Foundation.Words
open Innd.Numbering (atol)
open Newnews (PERMmatch)
open Range (ARTRANGE IsValidRange toARTNUM toInt)

structure State where
  GRPcur : Option Octets
  ARTnumber : Nat
  ARTlow : Nat
  ARThigh : Nat
  /-- The article that is open. -/
  ARThandle : Option Nat
  GRParticles : Nat
  GRPcount : Nat
  PERMgroupmadeinvalid : Bool
  deriving DecidableEq

structure Stats where
  low : Int
  high : Int
  count : Int

structure Found where
  artnum : Nat
  token : Nat
  arrived : Int

structure Server where
  PY_use_dynamic : Bool
  /-- There may be no method, and it may refuse with a reply. -/
  PY_dynamic : Octets → Option (Option Octets)
  PERMcanread : Bool
  PERMcanauthenticate : Bool
  PERMspecified : Bool
  PERMreadlist : List Octets
  OVgroupstats : Octets → Option Stats
  /-- What is found from one article to another, if a search can be opened. -/
  OVopensearch : Octets → Int → Int → Option (List Found)
  nfsreader : Bool
  nfsreaderdelay : Nat
  now : Int
  nnrpdcheckart : Bool
  ARTinstorebytoken : Nat → Bool

structure Answer where
  code : Nat
  text : Octets
  articles : Option (List Nat)
  deriving DecidableEq

def Answer.isError (answer : Answer) : Bool := 400 ≤ answer.code

section Commands

variable (server : Server) (s : State) (av : List Octets)

def deniedCode : Nat := if server.PERMcanauthenticate then 480 else 502

def denied : Answer := ⟨deniedCode server, octets "Read access denied", none⟩

def syntaxError : Answer := ⟨501, octets "Syntax error in range", none⟩

def authorize (group : Octets) : Except Answer Unit :=
  if server.PY_use_dynamic then
    match server.PY_dynamic group with
    | some (some reply) => .error ⟨deniedCode server, reply, none⟩
    | _ => .ok ()
  else if server.PERMspecified then
    if PERMmatch server.PERMreadlist [group] then .ok () else .error (denied server)
  else .error (denied server)

def argument : Option Octets := if av.length = 1 then s.GRPcur else some (av.getD 1 [])

def accept : Except Answer (Octets × Stats) :=
  match argument s av with
  | none => .error ⟨412, octets "No group specified", none⟩
  | some group =>
    if av.length = 3 ∧ !IsValidRange (av.getD 2 []) then .error syntaxError
    else if !server.PY_use_dynamic ∧ !server.PERMcanread then .error (denied server)
    else
      match server.OVgroupstats group with
      | none => .error ⟨411, octets "No such group " ++ group, none⟩
      | some stats => (authorize server group).map fun _ => (group, stats)

def ARTclose : State := { s with ARThandle := none }

def GRPreport : State := if s.GRPcur.isSome then { s with GRParticles := 0 } else s

def setMarks (stats : Stats) : State :=
    { s with ARTlow := toARTNUM stats.low, ARThigh := toARTNUM stats.high }

def select (group : Octets) (count : Int) : State :=
  { s with
    GRPcount := s.GRPcount + 1
    ARTnumber := if count = 0 then 0 else s.ARTlow
    GRPcur := some group
    PERMgroupmadeinvalid := false }

def groupReply (count : Int) (low high : Nat) (group : Octets)
    (articles : Option (List Nat)) : Answer :=
  let number := (if count < 0 then octets "-" else []) ++ decimal count.natAbs
  ⟨211, number ++ octets " " ++ decimal low ++ octets " " ++ decimal high ++ octets " " ++
    group, articles⟩

def emptyReply (high : Nat) (group : Octets) (articles : Option (List Nat)) : Answer :=
  groupReply 0 ((high + 1) % 2 ^ 64) high group articles

def lastShown (prev : Nat) : List Found → Option Nat
  | [] => none
  | article :: rest =>
    if server.now < Int.bmod (article.arrived + server.nfsreaderdelay) (2 ^ 64) then some prev
    else lastShown article.artnum rest

def firstDelayed (ARTlow ARThigh : Nat) : Nat :=
  if (ARTlow + server.nfsreaderdelay) % 2 ^ 64 > ARThigh then ARTlow
  else ((ARThigh - server.nfsreaderdelay : Int) % 2 ^ 64).toNat

def delayed (group : Octets) (ARTlow ARThigh : Nat) : Option (List Found) :=
  server.OVopensearch group (toInt (firstDelayed server ARTlow ARThigh)) (toInt ARThigh)

def doGroup (group : Octets) (count : Int) : State × Answer :=
  if count = 0 then (select s group count, emptyReply s.ARThigh group none)
  else if server.nfsreader then
    match delayed server group s.ARTlow s.ARThigh with
    | none => (s, ⟨403, octets "group disappeared", none⟩)
    | some articles =>
      match lastShown server (firstDelayed server s.ARTlow s.ARThigh) articles with
      | none => (select s group count, groupReply count s.ARTlow s.ARThigh group none)
      | some prev =>
        let s := { s with ARThigh := prev }
        let rest := ((s.ARThigh - s.ARTlow : Int) % 2 ^ 64).toNat
        let count := if (count % 2 ^ 32).toNat > rest then Int.bmod (rest + 1) (2 ^ 32) else count
        (select s group count, groupReply count s.ARTlow s.ARThigh group none)
  else (select s group count, groupReply count s.ARTlow s.ARThigh group none)

def CMDgetrange (text : Octets) : Except Answer ARTRANGE :=
  if !IsValidRange text then .error syntaxError
  else .ok (Range.CMDgetrange s.ARTlow s.ARThigh text)

def doListgroup (group : Octets) (count : Int) : State × Answer :=
  match if av.length = 3 then CMDgetrange s (av.getD 2 []) else .ok ⟨s.ARTlow, s.ARThigh⟩ with
  | .error answer => (s, answer)
  | .ok range =>
    if count = 0 then (select s group count, emptyReply s.ARThigh group (some []))
    else
      let found := (server.OVopensearch group (toInt range.Low) (toInt range.High)).getD []
      let listed :=
        found.filter fun article => !server.nnrpdcheckart || server.ARTinstorebytoken article.token
      (select s group count,
        groupReply count s.ARTlow s.ARThigh group (some (listed.map (·.artnum))))

def isGroup : Bool := (av.headD []).map toupper = octets "GROUP"

def CMDgroup : State × Answer :=
  match accept server s av with
  | .error answer => (s, answer)
  | .ok (group, stats) =>
    let s := setMarks (GRPreport (ARTclose s)) stats
    if isGroup av then doGroup server s group stats.count
      else doListgroup server s av group stats.count

end Commands

section Errors

variable {server : Server} {s : State} {av : List Octets}

/-- The old group stays selected. -/
structure Kept (s s' : State) : Prop where
  GRPcur : s'.GRPcur = s.GRPcur
  ARTnumber : s'.ARTnumber = s.ARTnumber
  ARTlow : s'.ARTlow = s.ARTlow
  ARThigh : s'.ARThigh = s.ARThigh

def Disappears (server : Server) (group : Octets) (stats : Stats) : Prop :=
  stats.count ≠ 0 ∧ server.nfsreader = true ∧
    delayed server group (toARTNUM stats.low) (toARTNUM stats.high) = none

theorem groupReply_isError (count : Int) (low high : Nat) (group : Octets)
    (articles : Option (List Nat)) :
    (groupReply count low high group articles).isError = false := rfl

theorem doGroup_disappears {group : Octets} {stats : Stats} (h : Disappears server group stats) :
    doGroup server (setMarks s stats) group stats.count =
      (setMarks s stats, ⟨403, octets "group disappeared", none⟩) := by
  rw [doGroup, if_neg h.1, if_pos h.2.1]
  have hdelayed :
      delayed server group (setMarks s stats).ARTlow (setMarks s stats).ARThigh = none := h.2.2
  rw [hdelayed]

theorem doGroup_isError {group : Octets} {stats : Stats} (h : ¬Disappears server group stats) :
    (doGroup server (setMarks s stats) group stats.count).2.isError = false := by
  rw [doGroup]
  by_cases hcount : stats.count = 0
  · rw [if_pos hcount]
    exact groupReply_isError ..
  · rw [if_neg hcount]
    by_cases hnfs : server.nfsreader = true
    · rw [if_pos hnfs]
      cases hdelayed :
        delayed server group (setMarks s stats).ARTlow (setMarks s stats).ARThigh with
      | none => exact absurd ⟨hcount, hnfs, hdelayed⟩ h
      | some articles =>
        dsimp only
        split <;> exact groupReply_isError ..
    · rw [if_neg hnfs]
      exact groupReply_isError ..

theorem doListgroup_isError (hrange : av.length = 3 → IsValidRange (av.getD 2 []) = true)
    (group : Octets) (count : Int) :
    (doListgroup server s av group count).2.isError = false := by
  rw [doListgroup]
  split
  next answer herror =>
    split at herror
    next hlength =>
      rw [CMDgetrange, hrange hlength] at herror
      cases herror
    · cases herror
  · split <;> exact groupReply_isError ..

theorem valid_of_accept {group : Octets} {stats : Stats}
    (haccept : accept server s av = .ok (group, stats))
    (hlength : av.length = 3) : IsValidRange (av.getD 2 []) = true := by
  rw [accept] at haccept
  split at haccept
  · cases haccept
  · split at haccept
    · cases haccept
    next hrange => simpa using fun h => hrange ⟨hlength, h⟩

/-- A command that is refused leaves the selection as it is, unless a group disappears that has
other marks than those that are noted. -/
theorem kept_iff (server : Server) (s : State) (av : List Octets) :
    ((CMDgroup server s av).2.isError = true → Kept s (CMDgroup server s av).1) ↔
      ∀ group stats, accept server s av = .ok (group, stats) → isGroup av = true →
        Disappears server group stats →
        toARTNUM stats.low = s.ARTlow ∧ toARTNUM stats.high = s.ARThigh := by
  rw [CMDgroup]
  cases haccept : accept server s av with
  | error answer => exact iff_of_true (fun _ => ⟨rfl, rfl, rfl, rfl⟩) nofun
  | ok accepted =>
    obtain ⟨group, stats⟩ := accepted
    dsimp only
    by_cases hgroup : isGroup av = true
    · rw [if_pos hgroup]
      by_cases hgone : Disappears server group stats
      · have hcur : (GRPreport (ARTclose s)).GRPcur = s.GRPcur ∧
            (GRPreport (ARTclose s)).ARTnumber = s.ARTnumber := by
          rw [GRPreport]
          split <;> exact ⟨rfl, rfl⟩
        rw [doGroup_disappears hgone]
        constructor
        · rintro hkept _ _ ⟨⟩ - -
          exact ⟨(hkept rfl).ARTlow, (hkept rfl).ARThigh⟩
        · intro hmarks _
          obtain ⟨hlow, hhigh⟩ := hmarks group stats rfl hgroup hgone
          exact ⟨hcur.1, hcur.2, hlow, hhigh⟩
      · refine iff_of_true (fun herror => ?_) ?_
        · rw [doGroup_isError hgone] at herror
          cases herror
        · rintro _ _ ⟨⟩ - h
          exact absurd h hgone
    · rw [if_neg hgroup]
      refine iff_of_true (fun herror => ?_) fun _ _ _ h => absurd h hgroup
      rw [doListgroup_isError (valid_of_accept haccept)] at herror
      cases herror

def vanishing : Server where
  PY_use_dynamic := false
  PY_dynamic := fun _ => none
  PERMcanread := true
  PERMcanauthenticate := false
  PERMspecified := true
  PERMreadlist := []
  OVgroupstats := fun _ => some ⟨1, 10, 10⟩
  OVopensearch := fun _ _ _ => none
  nfsreader := true
  nfsreaderdelay := 60
  now := 0
  nnrpdcheckart := false
  ARTinstorebytoken := fun _ => true

/-- The client stays in its group, and the marks are those of the one that has disappeared. -/
theorem not_kept :
    ¬∀ (server : Server) (s : State) (av : List Octets),
      (CMDgroup server s av).2.isError = true → Kept s (CMDgroup server s av).1 := by
  intro hall
  have hkept := hall vanishing ⟨some (octets "a"), 7, 5, 7, none, 0, 1, false⟩ [octets "GROUP",
    octets "b"] (by decide)
  exact absurd hkept.ARTlow (by decide)

end Errors

end Inn.Nnrpd.Group
