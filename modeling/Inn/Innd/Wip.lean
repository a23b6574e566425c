import Inn.Foundation.Runs
import Inn.Hash
import Inn.Innd.Channel

/-!
# Work in progress

The server notes which articles its peers offer and send, so that another peer is
asked to come back later. An entry of the table belongs to a channel. It is found by
the hash of a message-ID. A channel remembers what it was asked about in a ring of
pointers, and the article that it receives by the hash.
-/

namespace Inn.Innd.Wip

def WIPTABLESIZE : Nat := 1024

def WIP_ARTMAX : Nat := 300

def PRECOMMITCACHESIZE : Nat := 128

/-- An article that a channel has been promised or is receiving. -/
structure WIP where
  address : Nat
  MessageID : HASH
  Timestamp : Int
  Chan : Nat
  deriving DecidableEq

structure CHANNEL where
  /-- Whether the channel is in use, that is not of type `CTfree`. -/
  isOpen : Bool
  /-- The message-ID of the article that is being received. -/
  receiving : Option Octets
  PrecommitWIP : Fin PRECOMMITCACHESIZE → Option WIP
  PrecommitiCachenext : Fin (PRECOMMITCACHESIZE + 1)
  CurrentMessageIDHash : HASH
  ArtBeg : Int
  ArtMax : Nat

def CHANnull : CHANNEL where
  isOpen := false
  receiving := none
  PrecommitWIP := fun _ => none
  PrecommitiCachenext := 0
  CurrentMessageIDHash := HashClear
  ArtBeg := 0
  ArtMax := 0

structure Innconf where
  wipcheck : Nat
  wipexpire : Nat

/-- The table of the work in progress, and the channels. -/
structure State where
  WIPtable : Nat → List WIP
  /-- The address that is allocated next. -/
  next : Nat
  channels : Nat → CHANNEL
  Now : Int

def WIPsetup (Now : Int) : State where
  WIPtable := fun _ => []
  next := 0
  channels := fun _ => CHANnull
  Now := Now

def bucket (hash : HASH) : Nat := littleEndian (hash.hash.take 8) % WIPTABLESIZE

def State.setChannel (s : State) (cp : Nat) (channel : CHANNEL) : State :=
  { s with channels := Function.update s.channels cp channel }

def State.setBucket (s : State) (place : Nat) (entries : List WIP) : State :=
  { s with WIPtable := Function.update s.WIPtable place entries }

@[simp] theorem setChannel_self (s : State) (cp : Nat) (channel : CHANNEL) :
    (s.setChannel cp channel).channels cp = channel := by
  simp only [State.setChannel, Function.update_self]

theorem setChannel_of_ne (s : State) {cp other : Nat} (hne : other ≠ cp) (channel : CHANNEL) :
    (s.setChannel cp channel).channels other = s.channels other := by
  simp only [State.setChannel, Function.update_of_ne hne]

theorem setChannel_setChannel (s : State) (cp : Nat) (channel channel' : CHANNEL) :
    (s.setChannel cp channel).setChannel cp channel' = s.setChannel cp channel' := by
  simp only [State.setChannel, Function.update_idem]

theorem setBucket_self (s : State) (place : Nat) (entries : List WIP) :
    (s.setBucket place entries).WIPtable place = entries := by
  simp only [State.setBucket, Function.update_self]

theorem setBucket_of_ne (s : State) {place other : Nat} (hne : other ≠ place) (entries : List WIP) :
    (s.setBucket place entries).WIPtable other = s.WIPtable other := by
  simp only [State.setBucket, Function.update_of_ne hne]

def forget (slots : Fin PRECOMMITCACHESIZE → Option WIP) (wp : WIP) :
    Fin PRECOMMITCACHESIZE → Option WIP :=
  match (List.finRange PRECOMMITCACHESIZE).find? fun i => slots i = some wp with
  | some i => Function.update slots i none
  | none => slots

def State.forget (s : State) (wp : WIP) : State :=
  s.setChannel wp.Chan
    { s.channels wp.Chan with PrecommitWIP := Wip.forget (s.channels wp.Chan).PrecommitWIP wp }

def WIPfree (s : State) : Option WIP → State
  | none => s
  | some wp =>
    let s := s.forget wp
    s.setBucket (bucket wp.MessageID) ((s.WIPtable (bucket wp.MessageID)).erase wp)

def WIPprecomfree (s : State) (cp : Nat) : State :=
  (List.finRange PRECOMMITCACHESIZE).foldl (fun s i => WIPfree s ((s.channels cp).PrecommitWIP i)) s

def WIPbyhash (s : State) (hash : HASH) : Option WIP :=
  (s.WIPtable (bucket hash)).find? fun wp => wp.MessageID = hash

section Identified

variable (Hash : Octets → HASH)

def WIPbyid (s : State) (messageid : Octets) : Option WIP := WIPbyhash s (Hash messageid)

def State.newWIP (s : State) (messageid : Octets) (cp : Nat) : WIP where
  address := s.next
  MessageID := Hash messageid
  Timestamp := s.Now
  Chan := cp

def WIPnew (s : State) (messageid : Octets) (cp : Nat) : State :=
  let wp := s.newWIP Hash messageid cp
  { s.setBucket (bucket wp.MessageID) (wp :: s.WIPtable (bucket wp.MessageID))
    with next := s.next + 1 }

def CHANNEL.slot (channel : CHANNEL) : Fin PRECOMMITCACHESIZE :=
  if h : channel.PrecommitiCachenext.val < PRECOMMITCACHESIZE then
    ⟨channel.PrecommitiCachenext.val, h⟩
  else
    ⟨0, by decide⟩

def State.point (s : State) (cp : Nat) (i : Fin PRECOMMITCACHESIZE) (wp : WIP) : State :=
  s.setChannel cp
    { s.channels cp with
      PrecommitWIP := Function.update (s.channels cp).PrecommitWIP i (some wp)
      PrecommitiCachenext := i.succ }

def precommit (s : State) (msgid : Octets) (cp : Nat) : State :=
  let wp := s.newWIP Hash msgid cp
  let s := WIPnew Hash s msgid cp
  let i := (s.channels cp).slot
  (WIPfree s ((s.channels cp).PrecommitWIP i)).point cp i wp

def commit (s : State) (msgid : Octets) (cp : Nat) : State :=
  let wp := s.newWIP Hash msgid cp
  let s := WIPnew Hash s msgid cp
  let s := WIPfree s (WIPbyhash s (s.channels cp).CurrentMessageIDHash)
  s.setChannel cp { s.channels cp with CurrentMessageIDHash := wp.MessageID }

def State.allowance (s : State) (wp : WIP) : Nat :=
  if (s.channels wp.Chan).ArtBeg = 0 then 0 else min (s.channels wp.Chan).ArtMax WIP_ARTMAX

variable (innconf : Innconf)

def Expired (s : State) (wp : WIP) : Prop :=
    s.Now - wp.Timestamp > s.allowance wp + innconf.wipexpire

instance (s : State) (wp : WIP) : Decidable (Expired innconf s wp) :=
    inferInstanceAs (Decidable (_ > _))

def inprogress (msgid : Octets) (cp : Nat) (Precommit : Bool) : Nat → State → Bool × State
  | 0, s => (false, s)
  | fuel + 1, s =>
    match WIPbyid Hash s msgid with
    | none => (false, if Precommit then precommit Hash s msgid cp else commit Hash s msgid cp)
    | some wp =>
      if s.Now - wp.Timestamp < s.allowance wp + innconf.wipcheck then
        (true, s)
      else if Expired innconf s wp then
        (false, (inprogress msgid cp Precommit fuel (WIPfree (s.forget wp) (some wp))).2)
      else
        (wp.Chan = cp, s)

def WIPinprogress (s : State) (msgid : Octets) (cp : Nat) (Precommit : Bool) : Bool × State :=
  inprogress Hash innconf msgid cp Precommit ((s.WIPtable (bucket (Hash msgid))).length + 1) s

def NCclearwip (s : State) (cp : Nat) : State :=
  let s := WIPfree s (WIPbyhash s (s.channels cp).CurrentMessageIDHash)
  s.setChannel cp
    { s.channels cp with
      CurrentMessageIDHash := HashClear
      ArtBeg := 0 }

def NCcreate (s : State) (cp : Nat) : State :=
  NCclearwip (s.setChannel cp { CHANnull with isOpen := true }) cp

def NCcheck (s : State) (cp : Nat) (msgid : Octets) : State :=
  (WIPinprogress Hash innconf s msgid cp true).2

def NCihave (s : State) (cp : Nat) (msgid : Octets) : State :=
  match WIPinprogress Hash innconf s msgid cp false with
  | (true, s) => s
  | (false, s) =>
    s.setChannel cp
      { s.channels cp with
        ArtBeg := s.Now
        receiving := some msgid }

def NCtakethis (s : State) (cp : Nat) (mid : Octets) : State :=
  let s := s.setChannel cp
    { s.channels cp with
      ArtBeg := s.Now
      receiving := some mid }
  let found := WIPbyid Hash s mid
  let wp := found.getD (s.newWIP Hash mid cp)
  let s := if found = none then WIPnew Hash s mid cp else s
  s.setChannel cp { s.channels cp with CurrentMessageIDHash := wp.MessageID }

def ARTpost (s : State) (cp : Nat) : State :=
  let i := s.Now - (s.channels cp).ArtBeg
  s.setChannel cp
    { s.channels cp with
      ArtMax := if (s.channels cp).ArtMax < i then i.toNat else (s.channels cp).ArtMax
      ArtBeg := 0 }

def complete (s : State) (cp : Nat) (accepted : Bool) : State :=
  let s := if accepted then ARTpost s cp else s
  let s := NCclearwip s cp
  s.setChannel cp { s.channels cp with receiving := none }

def CHANclose (s : State) (cp : Nat) : State :=
  let s := NCclearwip (WIPprecomfree s cp) cp
  s.setChannel cp
    { s.channels cp with
      isOpen := false
      receiving := none }

inductive Action
  | tick (Now : Int)
  | create (cp : Nat)
  | check (cp : Nat) (msgid : Octets)
  | ihave (cp : Nat) (msgid : Octets)
  | takethis (cp : Nat) (mid : Octets)
  | complete (cp : Nat) (accepted : Bool)
  | close (cp : Nat)

def State.idle (s : State) (cp : Nat) : Bool :=
    (s.channels cp).isOpen && (s.channels cp).receiving.isNone

def State.busy (s : State) (cp : Nat) : Bool :=
    (s.channels cp).isOpen && (s.channels cp).receiving.isSome

def step (s : State) : Action → State
  | .tick Now => { s with Now := Now }
  | .create cp => if (s.channels cp).isOpen then s else NCcreate s cp
  | .check cp msgid => if s.idle cp then NCcheck Hash innconf s cp msgid else s
  | .ihave cp msgid => if s.idle cp then NCihave Hash innconf s cp msgid else s
  | .takethis cp mid => if s.idle cp then NCtakethis Hash s cp mid else s
  | .complete cp accepted => if s.busy cp then complete s cp accepted else s
  | .close cp => if (s.channels cp).isOpen then CHANclose s cp else s

end Identified

end Inn.Innd.Wip
