import Inn.Foundation.Runs
import Inn.Innd.Channel

/-!
# Channels that wait

The server waits for the descriptors of its channels: to be read, to be written, or for a time to
pass. The sets of descriptors are kept with the highest of them, and with the number of channels
that sleep. A descriptor is used again once its channel is closed.

A set is not defined for a descriptor of -1, nor the table for one that it has no room for.
-/

namespace Inn.Innd.Chan

open Foundation.Runs

structure CHANNEL where
  type : ChannelType
  /-- None for -1. -/
  fd : Option Nat
  Address : Nat
  InUsed : Nat
  OutUsed : Nat
  OutLeft : Nat
  Waketime : Nat
  Waker : Option Nat
  Argument : Option Nat
  Event : Option Nat
  MaxCnx : Nat
  ActiveCnx : Nat
  deriving DecidableEq

/-- The table of channels, and who reads, writes and sleeps. -/
structure Channels where
  readSet : Finset Nat
  sleepSet : Finset Nat
  writeSet : Finset Nat
  sleepCount : Int
  maxFd : Int
  maxSleepFd : Int
  tableSize : Nat
  table : Nat → CHANNEL
  prioritized : List (Option Nat)

inductive Fault
  | negativeDescriptor
  | outsideTable
  deriving DecidableEq

def CHANnull : CHANNEL := ⟨.CTfree, none, 0, 0, 0, 0, 0, none, none, none, 0, 0⟩

def CHANsetup (tableSize : Nat) : Channels :=
  ⟨∅, ∅, ∅, 0, -1, -1, tableSize, fun _ => CHANnull, [none, none, none]⟩

namespace Channels

variable (s : Channels)

def setChannel (cp : Nat) (channel : CHANNEL) : Channels :=
    { s with table := Function.update s.table cp channel }

def descriptor (cp : Nat) : Except Fault Nat :=
  if cp < s.tableSize then
    match (s.table cp).fd with
    | none => .error .negativeDescriptor
    | some fd => .ok fd
  else .error .outsideTable

def highest (set : Finset Nat) : Nat → Nat
  | 0 => 0
  | n + 1 => if n + 1 ∉ set ∧ n + 1 > 1 then highest set n else n + 1

def CHANresetlast (fd : Nat) : Channels :=
  if (fd : Int) = s.maxFd then { s with maxFd := highest (s.readSet ∪ s.writeSet) fd } else s

def CHANresetlastsleeping (fd : Nat) : Channels :=
  if (fd : Int) = s.maxSleepFd then { s with maxSleepFd := highest s.sleepSet fd } else s

def RCHANadd (cp : Nat) : Except Fault Channels := do
  let fd ← s.descriptor cp
  let channel := s.table cp
  let s := { s with readSet := insert fd s.readSet, maxFd := max s.maxFd fd }
  .ok (s.setChannel cp (if channel.type ≠ .CTnntp then { channel with InUsed := 0 } else channel))

def RCHANremove (cp : Nat) : Except Fault Channels := do
  let fd ← s.descriptor cp
  .ok (if fd ∈ s.readSet then { s with readSet := s.readSet.erase fd }.CHANresetlast fd else s)

def SCHANadd (cp : Nat) (wake : Nat) (event waker arg : Option Nat) : Except Fault Channels := do
  let fd ← s.descriptor cp
  let s := if fd ∈ s.sleepSet then s
    else { s with sleepCount := s.sleepCount + 1, sleepSet := insert fd s.sleepSet }
  let s := { s with maxSleepFd := max s.maxSleepFd fd }
  .ok (s.setChannel cp { s.table cp with Waketime := wake, Waker := waker, Argument := arg, Event := event })

def SCHANremove (cp : Nat) : Except Fault Channels := do
  let fd ← s.descriptor cp
  .ok (if fd ∈ s.sleepSet then
    (({ s with
      sleepSet := s.sleepSet.erase fd, sleepCount := s.sleepCount - 1 } : Channels).setChannel cp
      { s.table cp with Waketime := 0 }).CHANresetlastsleeping fd
  else s)

def SCHANwakeup (event : Option Nat) : Channels :=
  { s with
    table := fun cp =>
      if cp < s.tableSize ∧ (s.table cp).type ≠ .CTfree ∧ (s.table cp).Event = event ∧
          (s.table cp).fd.any (· ∈ s.sleepSet) then
        { s.table cp with Waketime := 0 }
      else s.table cp }

def WCHANadd (cp : Nat) : Except Fault Channels :=
  if (s.table cp).OutLeft = 0 then .ok s
  else do
    let fd ← s.descriptor cp
    .ok { s with writeSet := insert fd s.writeSet, maxFd := max s.maxFd fd }

def WCHANremove (cp : Nat) : Except Fault Channels := do
  let fd ← s.descriptor cp
  if fd ∈ s.writeSet then
    let s := { s with writeSet := s.writeSet.erase fd }.CHANresetlast fd
    .ok (if (s.table cp).OutLeft = 0 then s.setChannel cp { s.table cp with OutUsed := 0 } else s)
  else .ok s

def WCHANset (cp used left : Nat) : Channels :=
    s.setChannel cp { s.table cp with OutUsed := used, OutLeft := left }

def prioritize (cp : Nat) : List (Option Nat) → List (Option Nat)
  | [] => [some cp]
  | none :: rest => some cp :: rest
  | some other :: rest => some other :: prioritize cp rest

def setPeer (cp address maxcnx activecnx : Nat) : Channels :=
  s.setChannel cp { s.table cp with Address := address, MaxCnx := maxcnx, ActiveCnx := activecnx }

def CHANcreate (fd : Nat) (type : ChannelType) : Except Fault Channels :=
  if fd < s.tableSize then
    let s := s.setChannel fd { CHANnull with fd := some fd, type := type }
    .ok (if type = .CTcontrol ∨ type = .CTremconn then
      { s with prioritized := prioritize fd s.prioritized } else s)
  else .error .outsideTable

def successor (RClabelname : CHANNEL → Option Nat) (cp : Nat) : Option Nat :=
  if (s.table cp).MaxCnx = 0 then none
  else
    match RClabelname (s.table cp) with
    | none => none
    | some label =>
      (List.range (s.maxFd + 1).toNat).find? fun tfd =>
        some tfd ≠ (s.table cp).fd && (s.table tfd).fd.isSome && (s.table tfd).type = .CTnntp &&
          RClabelname (s.table tfd) = some label && (s.table tfd).ActiveCnx ≠ 0

def CHANclose_nntp (RClabelname : CHANNEL → Option Nat) (cp : Nat) : Except Fault Channels :=
  match s.successor RClabelname cp with
  | none => .ok s
  | some tfd => (s.setChannel tfd { s.table tfd with ActiveCnx := (s.table cp).ActiveCnx }).RCHANadd
      tfd

def unuse (cp : Nat) : Channels :=
  s.setChannel cp { s.table cp with type := .CTfree, fd := none, Argument := none, ActiveCnx := 0 }

def closeType (RClabelname : CHANNEL → Option Nat) (cp : Nat) : Except Fault Channels :=
  if (s.table cp).type = .CTnntp then s.CHANclose_nntp RClabelname cp else .ok s

def CHANclose (RClabelname : CHANNEL → Option Nat) (cp : Nat) : Except Fault Channels :=
  if (s.table cp).type = .CTfree then .ok (s.unuse cp)
  else do
    let s ← s.closeType RClabelname cp
    let s ← s.WCHANremove cp
    let s ← s.RCHANremove cp
    let s ← s.SCHANremove cp
    let prioritized := s.prioritized.map fun other => if other = some cp then none else other
    .ok ({ s with prioritized := prioritized }.unuse cp)

end Channels

inductive Call
  | CHANcreate (fd : Nat) (type : { type : ChannelType // type ≠ .CTfree })
  | setPeer (cp address maxcnx activecnx : Nat)
  | RCHANadd (cp : Nat)
  | RCHANremove (cp : Nat)
  | WCHANadd (cp : Nat)
  | WCHANremove (cp : Nat)
  | WCHANset (cp used left : Nat)
  | SCHANadd (cp wake : Nat) (event waker arg : Option Nat)
  | SCHANremove (cp : Nat)
  | SCHANwakeup (event : Option Nat)
  | CHANclose (cp : Nat)

def Channels.step (RClabelname : CHANNEL → Option Nat) (s : Channels) : Call → Except Fault Channels
  | .CHANcreate fd type => s.CHANcreate fd type
  | .setPeer cp address maxcnx activecnx => .ok (s.setPeer cp address maxcnx activecnx)
  | .RCHANadd cp => s.RCHANadd cp
  | .RCHANremove cp => s.RCHANremove cp
  | .WCHANadd cp => s.WCHANadd cp
  | .WCHANremove cp => s.WCHANremove cp
  | .WCHANset cp used left => .ok (s.WCHANset cp used left)
  | .SCHANadd cp wake event waker arg => s.SCHANadd cp wake event waker arg
  | .SCHANremove cp => s.SCHANremove cp
  | .SCHANwakeup event => .ok (s.SCHANwakeup event)
  | .CHANclose cp => s.CHANclose RClabelname cp

namespace Channels

variable {s s' : Channels} {cp fd : Nat}

structure Inv (s : Channels) : Prop where
  open_fd : ∀ cp, (s.table cp).type ≠ .CTfree → cp < s.tableSize ∧ (s.table cp).fd = some cp
  free_fd : ∀ cp, (s.table cp).type = .CTfree → (s.table cp).fd = none
  waits : ∀ fd, fd ∈ s.readSet ∨ fd ∈ s.writeSet ∨ fd ∈ s.sleepSet → (s.table fd).type ≠ .CTfree
  maxFd : ∀ fd, fd ∈ s.readSet ∨ fd ∈ s.writeSet → (fd : Int) ≤ s.maxFd
  maxSleepFd : ∀ fd ∈ s.sleepSet, (fd : Int) ≤ s.maxSleepFd
  sleepCount : s.sleepCount = s.sleepSet.card

theorem CHANsetup_inv (tableSize : Nat) : (CHANsetup tableSize).Inv where
  open_fd _ htype := absurd rfl htype
  free_fd _ _ := rfl
  waits := by simp [CHANsetup]
  maxFd := by simp [CHANsetup]
  maxSleepFd := by simp [CHANsetup]
  sleepCount := rfl

theorem le_highest {set : Finset Nat} {n : Nat} (hset : fd ∈ set) (hle : fd ≤ n) :
    fd ≤ highest set n := by
  induction n with
  | zero => exact hle
  | succ n ih =>
    rw [highest]
    split
    next hnot =>
      have hne : fd ≠ n + 1 := fun heq => hnot.1 (heq ▸ hset)
      exact ih (by omega)
    · exact hle

theorem table_self (s : Channels) (cp : Nat) (channel : CHANNEL) :
    (s.setChannel cp channel).table cp = channel :=
  Function.update_self ..

theorem table_of_ne (s : Channels) {cp other : Nat} (hne : other ≠ cp) (channel : CHANNEL) :
    (s.setChannel cp channel).table other = s.table other := Function.update_of_ne hne ..

theorem Inv.setChannel (hinv : s.Inv) {channel : CHANNEL} (htype : channel.type = (s.table cp).type)
    (hfd : channel.fd = (s.table cp).fd) : (s.setChannel cp channel).Inv := by
  have hsame (other : Nat) : ((s.setChannel cp channel).table other).type = (s.table other).type ∧
      ((s.setChannel cp channel).table other).fd = (s.table other).fd := by
    by_cases heq : other = cp
    · subst heq
      rw [table_self]
      exact ⟨htype, hfd⟩
    · rw [table_of_ne s heq]
      exact ⟨rfl, rfl⟩
  refine ⟨fun other => ?_, fun other => ?_, fun other => ?_, hinv.maxFd, hinv.maxSleepFd,
    hinv.sleepCount⟩
  · rw [(hsame other).1, (hsame other).2]
    exact hinv.open_fd other
  · rw [(hsame other).1, (hsame other).2]
    exact hinv.free_fd other
  · rw [(hsame other).1]
    exact hinv.waits other

theorem Inv.descriptor (hinv : s.Inv) (hfd : s.descriptor cp = .ok fd) :
    fd = cp ∧ (s.table cp).type ≠ .CTfree := by
  rw [Channels.descriptor] at hfd
  split at hfd
  · have hopen : (s.table cp).type ≠ .CTfree := by
      intro hfree
      rw [hinv.free_fd cp hfree] at hfd
      cases hfd
    rw [(hinv.open_fd cp hopen).2] at hfd
    exact ⟨(Except.ok.inj hfd).symm, hopen⟩
  · cases hfd

theorem Inv.descriptor_open (hinv : s.Inv) (hopen : (s.table cp).type ≠ .CTfree) :
    s.descriptor cp = .ok cp := by
  obtain ⟨hinside, hfd⟩ := hinv.open_fd cp hopen
  rw [Channels.descriptor, if_pos hinside, hfd]

section Calls

theorem Inv.insert_read (hinv : s.Inv) (hopen : (s.table fd).type ≠ .CTfree) :
    ({ s with readSet := insert fd s.readSet, maxFd := max s.maxFd fd } : Channels).Inv := by
  refine ⟨hinv.open_fd, hinv.free_fd, fun other hwaits => ?_, fun other hset => ?_, hinv.maxSleepFd,
    hinv.sleepCount⟩
  · rcases hwaits with hread | hother
    · rcases Finset.mem_insert.mp hread with rfl | hread
      · exact hopen
      · exact hinv.waits other (.inl hread)
    · exact hinv.waits other (.inr hother)
  · rcases hset with hread | hwrite
    · rcases Finset.mem_insert.mp hread with rfl | hread
      · exact le_max_right ..
      · exact le_max_of_le_left (hinv.maxFd other (.inl hread))
    · exact le_max_of_le_left (hinv.maxFd other (.inr hwrite))

theorem Inv.insert_write (hinv : s.Inv) (hopen : (s.table fd).type ≠ .CTfree) :
    ({ s with writeSet := insert fd s.writeSet, maxFd := max s.maxFd fd } : Channels).Inv := by
  refine ⟨hinv.open_fd, hinv.free_fd, fun other hwaits => ?_, fun other hset => ?_, hinv.maxSleepFd,
    hinv.sleepCount⟩
  · rcases hwaits with hread | hwrite | hsleep
    · exact hinv.waits other (.inl hread)
    · rcases Finset.mem_insert.mp hwrite with rfl | hwrite
      · exact hopen
      · exact hinv.waits other (.inr (.inl hwrite))
    · exact hinv.waits other (.inr (.inr hsleep))
  · rcases hset with hread | hwrite
    · exact le_max_of_le_left (hinv.maxFd other (.inl hread))
    · rcases Finset.mem_insert.mp hwrite with rfl | hwrite
      · exact le_max_right ..
      · exact le_max_of_le_left (hinv.maxFd other (.inr hwrite))

theorem RCHANadd_inv (hinv : s.Inv) (hadd : s.RCHANadd cp = .ok s') : s'.Inv := by
  obtain ⟨fd, hfd, heq⟩ := bind_ok hadd
  obtain ⟨rfl, hopen⟩ := hinv.descriptor hfd
  cases heq
  refine (hinv.insert_read hopen).setChannel ?_ ?_ <;> split <;> rfl

theorem Inv.resetlast (hinv : s.Inv) {read write : Finset Nat} (hread : read ⊆ s.readSet)
    (hwrite : write ⊆ s.writeSet) (fd : Nat) :
    ({ s with readSet := read, writeSet := write }.CHANresetlast fd).Inv := by
  have hwaits (other : Nat) (hother : other ∈ read ∨ other ∈ write ∨ other ∈ s.sleepSet) :
      (s.table other).type ≠ .CTfree :=
    hinv.waits other (hother.imp (hread ·) (Or.imp_left (hwrite ·)))
  have hmax (other : Nat) (hother : other ∈ read ∨ other ∈ write) : (other : Int) ≤ s.maxFd :=
    hinv.maxFd other (hother.imp (hread ·) (hwrite ·))
  rw [CHANresetlast]
  dsimp only
  split
  next hlast =>
    refine ⟨hinv.open_fd, hinv.free_fd, hwaits, fun other hother => ?_, hinv.maxSleepFd,
      hinv.sleepCount⟩
    have hle := hmax other hother
    exact Int.ofNat_le.mpr (le_highest (Finset.mem_union.mpr hother) (by omega))
  · exact ⟨hinv.open_fd, hinv.free_fd, hwaits, hmax, hinv.maxSleepFd, hinv.sleepCount⟩

theorem RCHANremove_inv (hinv : s.Inv) (hremove : s.RCHANremove cp = .ok s') :
    s'.Inv ∧ cp ∉ s'.readSet ∧ s'.writeSet = s.writeSet ∧ s'.table = s.table := by
  obtain ⟨fd, hfd, heq⟩ := bind_ok hremove
  obtain ⟨rfl, -⟩ := hinv.descriptor hfd
  cases heq
  split
  · refine ⟨hinv.resetlast (Finset.erase_subset ..) subset_rfl fd, ?_⟩
    rw [CHANresetlast]
    split <;> exact ⟨Finset.notMem_erase fd _, rfl, rfl⟩
  next hnot => exact ⟨hinv, hnot, rfl, rfl⟩

theorem WCHANremove_inv (hinv : s.Inv) (hremove : s.WCHANremove cp = .ok s') :
    s'.Inv ∧ cp ∉ s'.writeSet ∧ (s'.table cp).type = (s.table cp).type := by
  obtain ⟨fd, hfd, heq⟩ := bind_ok hremove
  obtain ⟨rfl, -⟩ := hinv.descriptor hfd
  have hreset := hinv.resetlast subset_rfl (Finset.erase_subset fd s.writeSet) fd
  have hout : fd ∉ ({ s with writeSet := s.writeSet.erase fd }.CHANresetlast fd).writeSet ∧
      ({ s with writeSet := s.writeSet.erase fd }.CHANresetlast fd).table = s.table := by
    rw [CHANresetlast]
    split <;> exact ⟨Finset.notMem_erase fd _, rfl⟩
  split at heq
  · cases heq
    split
    · refine ⟨hreset.setChannel rfl rfl, hout.1, ?_⟩
      rw [table_self, hout.2]
    · exact ⟨hreset, hout.1, by rw [hout.2]⟩
  next hnot =>
    cases heq
    exact ⟨hinv, hnot, rfl⟩

theorem WCHANadd_inv (hinv : s.Inv) (hadd : s.WCHANadd cp = .ok s') : s'.Inv := by
  rw [WCHANadd] at hadd
  split at hadd
  · cases hadd
    exact hinv
  · obtain ⟨fd, hfd, heq⟩ := bind_ok hadd
    obtain ⟨rfl, hopen⟩ := hinv.descriptor hfd
    cases heq
    exact hinv.insert_write hopen

theorem SCHANadd_inv (hinv : s.Inv) {wake : Nat} {event waker arg : Option Nat}
    (hadd : s.SCHANadd cp wake event waker arg = .ok s') : s'.Inv := by
  obtain ⟨fd, hfd, heq⟩ := bind_ok hadd
  obtain ⟨rfl, hopen⟩ := hinv.descriptor hfd
  cases heq
  split
  · refine Inv.setChannel (s := { s with maxSleepFd := max s.maxSleepFd fd })
      ⟨hinv.open_fd, hinv.free_fd,
      hinv.waits, hinv.maxFd, fun other hother => le_max_of_le_left (hinv.maxSleepFd other hother),
      hinv.sleepCount⟩ rfl rfl
  next hnot =>
    refine Inv.setChannel (s := { s with
      sleepCount := s.sleepCount + 1, sleepSet := insert fd s.sleepSet,
      maxSleepFd := max s.maxSleepFd fd }) ⟨hinv.open_fd, hinv.free_fd,
        fun other hwaits => ?_, hinv.maxFd,
      fun other hother => ?_, ?_⟩ rfl rfl
    · rcases hwaits with hread | hwrite | hsleep
      · exact hinv.waits other (.inl hread)
      · exact hinv.waits other (.inr (.inl hwrite))
      · rcases Finset.mem_insert.mp hsleep with rfl | hsleep
        · exact hopen
        · exact hinv.waits other (.inr (.inr hsleep))
    · rcases Finset.mem_insert.mp hother with rfl | hother
      · exact le_max_right ..
      · exact le_max_of_le_left (hinv.maxSleepFd other hother)
    · rw [Finset.card_insert_of_notMem hnot, hinv.sleepCount]
      push_cast
      rfl

theorem SCHANremove_inv (hinv : s.Inv) (hremove : s.SCHANremove cp = .ok s') :
    s'.Inv ∧ cp ∉ s'.sleepSet ∧ s'.readSet = s.readSet ∧ s'.writeSet = s.writeSet := by
  obtain ⟨fd, hfd, heq⟩ := bind_ok hremove
  obtain ⟨rfl, -⟩ := hinv.descriptor hfd
  cases heq
  split
  next hsleep =>
    have hinv' : ({ s with
      sleepSet := s.sleepSet.erase fd, sleepCount := s.sleepCount - 1 } : Channels).Inv := by
      refine ⟨hinv.open_fd, hinv.free_fd, fun other hwaits => ?_, hinv.maxFd,
        fun other hother => hinv.maxSleepFd other (Finset.mem_of_mem_erase hother), ?_⟩
      · exact hinv.waits other (hwaits.imp_right (Or.imp_right Finset.mem_of_mem_erase))
      · have hcard := Finset.card_erase_add_one hsleep
        rw [hinv.sleepCount, ← hcard]
        push_cast
        omega
    have hset := @Inv.setChannel _ fd hinv' { s.table fd with Waketime := 0 } rfl rfl
    rw [CHANresetlastsleeping]
    split
    next hlast =>
      refine ⟨⟨hset.open_fd, hset.free_fd, hset.waits, hset.maxFd, fun other hother => ?_,
        hset.sleepCount⟩,
        Finset.notMem_erase fd _, rfl, rfl⟩
      have hle := hset.maxSleepFd other hother
      exact Int.ofNat_le.mpr (le_highest hother (by omega))
    · exact ⟨hset, Finset.notMem_erase fd _, rfl, rfl⟩
  next hnot => exact ⟨hinv, hnot, rfl, rfl⟩

theorem SCHANwakeup_inv (hinv : s.Inv) (event : Option Nat) : (s.SCHANwakeup event).Inv := by
  have hsame (cp : Nat) : ((s.SCHANwakeup event).table cp).type = (s.table cp).type ∧
      ((s.SCHANwakeup event).table cp).fd = (s.table cp).fd := by
    rw [SCHANwakeup]
    dsimp only
    split <;> exact ⟨rfl, rfl⟩
  refine ⟨fun cp => ?_, fun cp => ?_, fun cp => ?_, hinv.maxFd, hinv.maxSleepFd, hinv.sleepCount⟩
  · rw [(hsame cp).1, (hsame cp).2]
    exact hinv.open_fd cp
  · rw [(hsame cp).1, (hsame cp).2]
    exact hinv.free_fd cp
  · rw [(hsame cp).1]
    exact hinv.waits cp

theorem CHANcreate_inv (hinv : s.Inv) {type : ChannelType} (htype : type ≠ .CTfree)
    (hcreate : s.CHANcreate fd type = .ok s') : s'.Inv := by
  rw [CHANcreate] at hcreate
  split at hcreate
  next hinside =>
    have hnew : (s.setChannel fd { CHANnull with fd := some fd, type := type }).Inv := by
      refine ⟨fun cp hopen => ?_, fun cp hfree => ?_, fun cp hwaits => ?_, hinv.maxFd,
        hinv.maxSleepFd,
        hinv.sleepCount⟩
      all_goals by_cases heq : cp = fd
      · subst heq
        rw [table_self]
        exact ⟨hinside, rfl⟩
      · rw [table_of_ne s heq] at hopen ⊢
        exact hinv.open_fd cp hopen
      · subst heq
        rw [table_self] at hfree
        exact absurd hfree htype
      · rw [table_of_ne s heq] at hfree ⊢
        exact hinv.free_fd cp hfree
      · subst heq
        rw [table_self]
        exact htype
      · rw [table_of_ne s heq]
        exact hinv.waits cp hwaits
    cases hcreate
    split
    · exact { hnew with }
    · exact hnew
  · cases hcreate

theorem unuse_inv (hinv : s.Inv) (hread : cp ∉ s.readSet) (hwrite : cp ∉ s.writeSet)
    (hsleep : cp ∉ s.sleepSet) :
    (s.unuse cp).Inv := by
  refine ⟨fun other hopen => ?_, fun other hfree => ?_, fun other hwaits => ?_, hinv.maxFd,
    hinv.maxSleepFd,
    hinv.sleepCount⟩
  all_goals rw [unuse] at *
  all_goals by_cases heq : other = cp
  · subst heq
    rw [table_self] at hopen
    exact absurd rfl hopen
  · rw [table_of_ne s heq] at hopen ⊢
    exact hinv.open_fd other hopen
  · subst heq
    rw [table_self]
  · rw [table_of_ne s heq] at hfree ⊢
    exact hinv.free_fd other hfree
  · subst heq
    rcases hwaits with hmem | hmem | hmem
    · exact absurd hmem hread
    · exact absurd hmem hwrite
    · exact absurd hmem hsleep
  · rw [table_of_ne s heq]
    exact hinv.waits other hwaits

variable {RClabelname : CHANNEL → Option Nat}

theorem successor_open (hinv : s.Inv) {tfd : Nat} (hfound : s.successor RClabelname cp = some tfd) :
    (s.table tfd).type ≠ .CTfree := by
  intro hfree
  rw [successor] at hfound
  split at hfound
  · cases hfound
  · split at hfound
    · cases hfound
    · have htrue := List.find?_some hfound
      simp only [Bool.and_eq_true] at htrue
      rw [hinv.free_fd tfd hfree] at htrue
      exact absurd htrue.1.1.1.2 (by simp)

theorem CHANclose_nntp_eq (hinv : s.Inv) (cp : Nat) :
    ∃ s', s.CHANclose_nntp RClabelname cp = .ok s' ∧ s'.Inv ∧
      (s'.table cp).type = (s.table cp).type := by
  rw [CHANclose_nntp]
  cases hfound : s.successor RClabelname cp with
  | none => exact ⟨s, rfl, hinv, rfl⟩
  | some tfd =>
    have hopen := successor_open hinv hfound
    have hset :=
      @Inv.setChannel _ tfd hinv { s.table tfd with ActiveCnx := (s.table cp).ActiveCnx } rfl rfl
    have hdescriptor := @Inv.descriptor_open _ tfd hset (by rwa [table_self])
    have hadd :
        ∃ s', (s.setChannel tfd { s.table tfd with ActiveCnx := (s.table cp).ActiveCnx }).RCHANadd
        tfd =
        .ok s' ∧ (s'.table cp).type = (s.table cp).type := by
      refine ⟨_, by rw [RCHANadd, hdescriptor]; rfl, ?_⟩
      by_cases heq : cp = tfd
      · subst heq
        rw [table_self, table_self]
        split <;> rfl
      · rw [table_of_ne _ heq]
        change ((s.setChannel tfd _).table cp).type = _
        rw [table_of_ne s heq]
    obtain ⟨s', hs', htype⟩ := hadd
    exact ⟨s', hs', RCHANadd_inv hset hs', htype⟩

theorem CHANclose_eq (hinv : s.Inv) (RClabelname : CHANNEL → Option Nat) (cp : Nat) :
    ∃ s', s.CHANclose RClabelname cp = .ok s' ∧ s'.Inv := by
  have hwaits (hfree : (s.table cp).type = .CTfree) : (s.unuse cp).Inv :=
    unuse_inv hinv (fun hread => hinv.waits cp (.inl hread) hfree) (fun hwrite =>
      hinv.waits cp (.inr (.inl hwrite)) hfree)
      fun hsleep => hinv.waits cp (.inr (.inr hsleep)) hfree
  rw [CHANclose]
  split
  next hfree => exact ⟨_, rfl, hwaits hfree⟩
  next hopen =>
    obtain ⟨s₁, hs₁, hinv₁, htype₁⟩ : ∃ s₁, s.closeType RClabelname cp = .ok s₁ ∧ s₁.Inv ∧
        (s₁.table cp).type = (s.table cp).type := by
      rw [closeType]
      split
      · exact CHANclose_nntp_eq hinv cp
      · exact ⟨s, rfl, hinv, rfl⟩
    have hfd₁ := @Inv.descriptor_open _ cp hinv₁ (by rwa [htype₁])
    obtain ⟨s₂, hs₂⟩ : ∃ s₂, s₁.WCHANremove cp = .ok s₂ := by
      rw [WCHANremove, hfd₁]
      change ∃ s₂, (if cp ∈ s₁.writeSet then _ else _) = _
      split <;> exact ⟨_, rfl⟩
    obtain ⟨hinv₂, hwrite, htype₂⟩ := WCHANremove_inv hinv₁ hs₂
    have hfd₂ := @Inv.descriptor_open _ cp hinv₂ (by rwa [htype₂, htype₁])
    obtain ⟨s₃, hs₃⟩ : ∃ s₃, s₂.RCHANremove cp = .ok s₃ := ⟨_, by rw [RCHANremove, hfd₂]; rfl⟩
    obtain ⟨hinv₃, hread, hwrite₃, htable⟩ := RCHANremove_inv hinv₂ hs₃
    have hfd₃ := @Inv.descriptor_open _ cp hinv₃ (by rwa [htable, htype₂, htype₁])
    obtain ⟨s₄, hs₄⟩ : ∃ s₄, s₃.SCHANremove cp = .ok s₄ := ⟨_, by rw [SCHANremove, hfd₃]; rfl⟩
    obtain ⟨hinv₄, hsleep, hread₄, hwrite₄⟩ := SCHANremove_inv hinv₃ hs₄
    have hcalls : ∃ prioritized, (do
        let s ← s.closeType RClabelname cp
        let s ← s.WCHANremove cp
        let s ← s.RCHANremove cp
        let s ← s.SCHANremove cp
        let prioritized := s.prioritized.map fun other => if other = some cp then none else other
        .ok ({ s with prioritized := prioritized }.unuse cp) : Except Fault Channels) =
          .ok ({ s₄ with prioritized := prioritized }.unuse cp) := by
      simp only [hs₁, bind, Except.bind, hs₂, hs₃, hs₄]
      exact ⟨_, rfl⟩
    obtain ⟨prioritized, hcalls⟩ := hcalls
    refine ⟨_, hcalls, unuse_inv { hinv₄ with } ?_ ?_ hsleep⟩
    · rwa [hread₄]
    · rwa [hwrite₄, hwrite₃]

theorem step_inv (hinv : s.Inv) (call : Call) (hstep : s.step RClabelname call = .ok s') : s'.Inv := by
  cases call with
  | CHANcreate fd type => exact CHANcreate_inv hinv type.2 hstep
  | setPeer cp address maxcnx activecnx =>
    cases hstep
    exact hinv.setChannel rfl rfl
  | RCHANadd cp => exact RCHANadd_inv hinv hstep
  | RCHANremove cp => exact (RCHANremove_inv hinv hstep).1
  | WCHANadd cp => exact WCHANadd_inv hinv hstep
  | WCHANremove cp => exact (WCHANremove_inv hinv hstep).1
  | WCHANset cp used left =>
    cases hstep
    exact hinv.setChannel rfl rfl
  | SCHANadd cp wake event waker arg => exact SCHANadd_inv hinv hstep
  | SCHANremove cp => exact (SCHANremove_inv hinv hstep).1
  | SCHANwakeup event =>
    cases hstep
    exact SCHANwakeup_inv hinv event
  | CHANclose cp =>
    obtain ⟨s₁, heq, hinv₁⟩ := CHANclose_eq hinv RClabelname cp
    cases heq.symm.trans hstep
    exact hinv₁

def Defined (s : Channels) : Call → Prop
  | .CHANcreate fd _ => fd < s.tableSize
  | .RCHANadd cp | .RCHANremove cp | .WCHANadd cp | .WCHANremove cp | .SCHANadd cp .. |
      .SCHANremove cp =>
    (s.table cp).type ≠ .CTfree
  | .setPeer .. | .WCHANset .. | .SCHANwakeup _ | .CHANclose _ => True

theorem step_defined (hinv : s.Inv) {call : Call} (hdefined : s.Defined call) :
    ∃ s', s.step RClabelname call = .ok s' := by
  cases call with
  | CHANcreate fd type =>
      exact ⟨_, by rw [step, CHANcreate, if_pos (show fd < s.tableSize from hdefined)]⟩
  | RCHANadd cp => exact ⟨_, by rw [step, RCHANadd, hinv.descriptor_open hdefined]; rfl⟩
  | RCHANremove cp => exact ⟨_, by rw [step, RCHANremove, hinv.descriptor_open hdefined]; rfl⟩
  | WCHANadd cp =>
    rw [step, WCHANadd, hinv.descriptor_open hdefined]
    split <;> exact ⟨_, rfl⟩
  | WCHANremove cp =>
    rw [step, WCHANremove, hinv.descriptor_open hdefined]
    change ∃ s', (if cp ∈ s.writeSet then _ else _) = _
    split <;> exact ⟨_, rfl⟩
  | SCHANadd cp wake event waker arg =>
      exact ⟨_, by rw [step, SCHANadd, hinv.descriptor_open hdefined]; rfl⟩
  | SCHANremove cp => exact ⟨_, by rw [step, SCHANremove, hinv.descriptor_open hdefined]; rfl⟩
  | setPeer _ _ _ _ => exact ⟨_, rfl⟩
  | WCHANset _ _ _ => exact ⟨_, rfl⟩
  | SCHANwakeup _ => exact ⟨_, rfl⟩
  | CHANclose cp =>
    obtain ⟨s', heq, -⟩ := CHANclose_eq hinv RClabelname cp
    exact ⟨s', heq⟩

end Calls

structure Fresh (s : Channels) (fd : Nat) : Prop where
  read : fd ∉ s.readSet
  write : fd ∉ s.writeSet
  sleep : fd ∉ s.sleepSet
  channel : ∃ type, s.table fd = { CHANnull with fd := some fd, type := type }

/-- Only open channels wait, and the counts and maxima are right. -/
structure Proper (s : Channels) : Prop where
  transfers : ∀ fd, fd ∈ s.readSet ∨ fd ∈ s.writeSet →
    (s.table fd).type ≠ .CTfree ∧ (s.table fd).fd = some fd ∧ (fd : Int) ≤ s.maxFd
  sleeps : ∀ fd ∈ s.sleepSet,
    (s.table fd).type ≠ .CTfree ∧ (s.table fd).fd = some fd ∧ (fd : Int) ≤ s.maxSleepFd
  sleepCount : s.sleepCount = s.sleepSet.card
  closed : ∀ cp, (s.table cp).type = .CTfree → cp ∉ s.readSet ∧ cp ∉ s.writeSet ∧ cp ∉ s.sleepSet
  reused : ∀ fd type s', (s.table fd).type = .CTfree → s.CHANcreate fd type = .ok s' → s'.Fresh fd

theorem Inv.fresh (hinv : s.Inv) {type : ChannelType} (hfree : (s.table fd).type = .CTfree)
    (hcreate : s.CHANcreate fd type = .ok s') : s'.Fresh fd := by
  have hread : fd ∉ s.readSet := fun hmem => hinv.waits fd (.inl hmem) hfree
  have hwrite : fd ∉ s.writeSet := fun hmem => hinv.waits fd (.inr (.inl hmem)) hfree
  have hsleep : fd ∉ s.sleepSet := fun hmem => hinv.waits fd (.inr (.inr hmem)) hfree
  rw [CHANcreate] at hcreate
  split at hcreate
  · cases hcreate
    split <;> exact ⟨hread, hwrite, hsleep, type, table_self s fd _⟩
  · cases hcreate

theorem Inv.proper (hinv : s.Inv) : s.Proper where
  transfers fd hset :=
    have hopen := hinv.waits fd (hset.imp_right .inl)
    ⟨hopen, (hinv.open_fd fd hopen).2, hinv.maxFd fd hset⟩
  sleeps fd hset :=
    have hopen := hinv.waits fd (.inr (.inr hset))
    ⟨hopen, (hinv.open_fd fd hopen).2, hinv.maxSleepFd fd hset⟩
  sleepCount := hinv.sleepCount
  closed cp hfree := ⟨fun hmem => hinv.waits cp (.inl hmem) hfree,
    fun hmem => hinv.waits cp (.inr (.inl hmem)) hfree,
    fun hmem => hinv.waits cp (.inr (.inr hmem)) hfree⟩
  reused _ _ _ hfree hcreate := hinv.fresh hfree hcreate

/-- After any sequence of calls only open channels are waited for, and every call with an open
channel is defined. -/
theorem waiting_proper (RClabelname : CHANNEL → Option Nat) (tableSize : Nat) {calls : List Call}
    (hrun : run (step RClabelname) calls (CHANsetup tableSize) = .ok s) :
    s.Proper ∧ ∀ call, s.Defined call → ∃ s', s.step RClabelname call = .ok s' := by
  have hinv : s.Inv :=
    of_run (fun s call s' hinv hstep => step_inv hinv call hstep) (CHANsetup_inv tableSize) hrun
  exact ⟨hinv.proper, fun call hdefined => step_defined hinv hdefined⟩

/-- A descriptor that has been asleep is closed and used again. -/
theorem waiting_proper_reused :
    ∃ s, run (step fun _ => none) [.CHANcreate 5 ⟨.CTnntp, nofun⟩, .RCHANadd 5,
      .SCHANadd 5 7 none none none,
        .CHANclose 5, .CHANcreate 5 ⟨.CTfile, nofun⟩, .WCHANset 5 0 3,
          .WCHANadd 5] (CHANsetup 8) = .ok s ∧
      s.Proper ∧ s.writeSet = {5} ∧ s.readSet = ∅ ∧ s.sleepSet = ∅ ∧ s.sleepCount = 0 := by
  obtain ⟨s, hrun, hsets⟩ : ∃ s,
      run (step fun _ => none) [.CHANcreate 5 ⟨.CTnntp, nofun⟩, .RCHANadd 5,
      .SCHANadd 5 7 none none none, .CHANclose 5, .CHANcreate 5 ⟨.CTfile, nofun⟩,
        .WCHANset 5 0 3, .WCHANadd 5]
      (CHANsetup 8) = .ok s ∧ s.writeSet = {5} ∧ s.readSet = ∅ ∧ s.sleepSet = ∅ ∧
        s.sleepCount = 0 :=
    ⟨_, rfl, by decide⟩
  exact ⟨s, hrun, (waiting_proper (fun _ => none) 8 hrun).1, hsets⟩

end Channels

end Inn.Innd.Chan
