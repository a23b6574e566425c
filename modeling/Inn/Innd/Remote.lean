import Inn.Foundation.Rings
import Inn.Foundation.Runs

/-!
# Limits on incoming connections

The server remembers successful connects for some seconds in a ring of fixed
size. An attempt first takes expired entries out at the front, and is rejected
when too many are left, in total or from its own host.
-/

namespace Inn.Innd.RC

open Foundation.Rings
open Foundation.Runs (Throughout throughout_invariant)

inductive Sockaddr
  | inet (sin_addr : BitVec 32) (sin_port : BitVec 16)
  | inet6 (sin6_addr : BitVec 128) (sin6_port : BitVec 16)
  | other
  deriving DecidableEq

def mapped (sin6_addr : BitVec 128) (sin_addr : BitVec 32) : Bool :=
  sin6_addr.extractLsb' 32 96 = 65535 && sin6_addr.extractLsb' 0 32 = sin_addr

def networkSockaddrEqual : Sockaddr → Sockaddr → Bool
  | .inet a _, .inet b _ => a = b
  | .inet6 a _, .inet6 b _ => a = b
  | .inet a _, .inet6 b _ => mapped b a
  | .inet6 a _, .inet b _ => mapped a b
  | _, _ => false

structure REMOTEHOST where
  Address : Sockaddr
  MaxCnx : Int

structure REMOTETABLE where
  Address : Sockaddr
  Expires : Int
  deriving DecidableEq

def REMOTETABLESIZE : Nat := 128

structure Config where
  RemoteTimer : Int
  RemoteTotal : Int
  RemoteLimit : Int
  RCpeerlist : List REMOTEHOST

def Config.RCnolimit (config : Config) (remote : Sockaddr) : Bool :=
  match config.RCpeerlist.find? fun rp => networkSockaddrEqual remote rp.Address with
  | some rp => rp.MaxCnx = 0
  | none => false

/-- The ring of recent connections. -/
structure Table where
  remotetable : Nat → REMOTETABLE
  remotefirst : Nat
  remotecount : Nat
  first_lt : remotefirst < REMOTETABLESIZE

namespace Table

def next (i : Nat) : Nat := (i + 1) % REMOTETABLESIZE

def drop (table : Table) : Table :=
  { table with
    remotefirst := next table.remotefirst
    remotecount := table.remotecount - 1
    first_lt := Nat.mod_lt _ (by decide) }

def setAddress (table : Table) (i : Nat) (remote : Sockaddr) : Table :=
  { table with remotetable :=
    Function.update table.remotetable i { table.remotetable i with Address := remote } }

def scan (remote : Sockaddr) (now : Int) : Nat → Table → Nat → Nat → Table × Nat × Nat
  | 0, table, i, found => (table, i, found)
  | count + 1, table, i, found =>
    if (table.remotetable i).Expires < now then scan remote now count table.drop (next i) found
    else
      scan remote now count table (next i)
        (if networkSockaddrEqual (table.remotetable i).Address remote then found + 1 else found)

def add (table : Table) (remote : Sockaddr) (expires : Int) : Table :=
  { table with
    remotetable :=
      Function.update table.remotetable ((table.remotefirst + table.remotecount) % REMOTETABLESIZE)
      ⟨remote, expires⟩
    remotecount := table.remotecount + 1 }

end Table

def RCreader (config : Config) (table : Table) (remote : Sockaddr) (now : Int) :
    Table × Option String :=
  if config.RemoteTimer = 0 then (table, none)
  else
    match table.scan remote now table.remotecount table.remotefirst 0 with
    | (table, i, found) =>
      if table.remotecount = config.RemoteTotal then
        (table.setAddress i remote, some "400 Server overloaded, try later")
      else if config.RemoteLimit ≤ found ∧ ¬config.RCnolimit remote then
        (table.setAddress i remote,
          some "400 Connection rejected, you're making too many connects per minute")
      else (table.add remote (now + config.RemoteTimer), none)

def Table.live (table : Table) : List REMOTETABLE :=
    ring REMOTETABLESIZE table.remotetable table.remotefirst table.remotecount

def unexpired (now : Int) (entries : List REMOTETABLE) : List REMOTETABLE :=
    entries.filter fun entry => now ≤ entry.Expires

def fromHost (remote : Sockaddr) (entries : List REMOTETABLE) : List REMOTETABLE :=
  entries.filter fun entry => networkSockaddrEqual entry.Address remote

section Scanning

variable {entries : List REMOTETABLE} {now : Int}

def expired (now : Int) (entries : List REMOTETABLE) : List REMOTETABLE :=
    entries.filter fun entry => entry.Expires < now

theorem expired_length_le (now : Int) (entries : List REMOTETABLE) :
    (expired now entries).length ≤ entries.length :=
  List.length_filter_le _ _

theorem unexpired_cons_of_lt {entry : REMOTETABLE} (h : entry.Expires < now) :
    unexpired now (entry :: entries) = unexpired now entries :=
  List.filter_cons_of_neg (by simpa using h)

theorem unexpired_cons_of_not_lt {entry : REMOTETABLE} (h : ¬entry.Expires < now) :
    unexpired now (entry :: entries) = entry :: unexpired now entries :=
  List.filter_cons_of_pos (by simpa using h)

theorem expired_cons_of_lt {entry : REMOTETABLE} (h : entry.Expires < now) :
    expired now (entry :: entries) = entry :: expired now entries :=
  List.filter_cons_of_pos (by simpa using h)

theorem expired_cons_of_not_lt {entry : REMOTETABLE} (h : ¬entry.Expires < now) :
    expired now (entry :: entries) = expired now entries :=
  List.filter_cons_of_neg (by simpa using h)

theorem fromHost_cons (remote : Sockaddr) (entry : REMOTETABLE) (entries : List REMOTETABLE) :
    (fromHost remote (entry :: entries)).length =
      (if networkSockaddrEqual entry.Address remote then 1 else 0) +
        (fromHost remote entries).length := by
  rw [fromHost, List.filter_cons]
  split
  · rw [List.length_cons, Nat.add_comm]
    rfl
  · exact (Nat.zero_add _).symm

theorem scan_spec (remote : Sockaddr) (now : Int) (count : Nat) (table : Table) {i : Nat}
    (hi : i < REMOTETABLESIZE) (found : Nat) :
    ∃ table', table.scan remote now count i found =
        (table', (i + count) % REMOTETABLESIZE,
          found + (fromHost remote
            (unexpired now (ring REMOTETABLESIZE table.remotetable i count))).length) ∧
      table'.remotetable = table.remotetable ∧
      table'.remotefirst = (table.remotefirst +
        (expired now (ring REMOTETABLESIZE table.remotetable i count)).length) % REMOTETABLESIZE ∧
      table'.remotecount = table.remotecount -
        (expired now (ring REMOTETABLESIZE table.remotetable i count)).length := by
  induction count generalizing table i found with
  | zero =>
    refine ⟨table, ?_, rfl, ?_, rfl⟩
    · rw [Table.scan, Nat.add_zero, Nat.mod_eq_of_lt hi]
      rfl
    · exact (Nat.mod_eq_of_lt table.first_lt).symm
  | succ count ih =>
    have hnext : Table.next i < REMOTETABLESIZE := Nat.mod_lt _ (by decide)
    have hindex :
        (Table.next i + count) % REMOTETABLESIZE = (i + (count + 1)) % REMOTETABLESIZE := by
      rw [Table.next, Nat.mod_add_mod, Nat.add_assoc, Nat.add_comm 1]
    have hring (slots : Nat → REMOTETABLE) : ring REMOTETABLESIZE slots i (count + 1) =
        slots i :: ring REMOTETABLESIZE slots (Table.next i) count := by
      rw [ring, Nat.mod_eq_of_lt hi, Table.next, ring_mod]
    rw [Table.scan, hring]
    by_cases hexpired : (table.remotetable i).Expires < now
    · obtain ⟨table', hscan, hslots, hfirst, hcount⟩ := ih table.drop hnext found
      rw [if_pos hexpired, hscan, hindex, unexpired_cons_of_lt hexpired,
        expired_cons_of_lt hexpired, List.length_cons]
      refine ⟨table', rfl, hslots, hfirst.trans ?_, hcount.trans ?_⟩
      · change (Table.next table.remotefirst + _) % REMOTETABLESIZE = _
        rw [Table.next, Nat.mod_add_mod, Nat.add_assoc, Nat.add_comm 1]
        rfl
      · change table.remotecount - 1 - _ = _
        rw [Nat.sub_sub, Nat.add_comm 1]
        rfl
    · obtain ⟨table', hscan, hslots, hfirst, hcount⟩ := ih table hnext
        (if networkSockaddrEqual (table.remotetable i).Address remote then found + 1 else found)
      rw [if_neg hexpired, hscan, hindex, unexpired_cons_of_not_lt hexpired,
        expired_cons_of_not_lt hexpired, fromHost_cons]
      refine ⟨table', ?_, hslots, hfirst, hcount⟩
      split <;> simp only [Nat.zero_add, Nat.add_assoc]

theorem drop_expired (hordered : entries.Pairwise fun entry later => later.Expires < now →
    entry.Expires < now) :
    entries.drop (expired now entries).length = unexpired now entries := by
  induction entries with
  | nil => rfl
  | cons entry entries ih =>
    obtain ⟨hentry, hentries⟩ := List.pairwise_cons.mp hordered
    by_cases hexpired : entry.Expires < now
    · rw [expired_cons_of_lt hexpired, unexpired_cons_of_lt hexpired, List.length_cons,
        List.drop_succ_cons]
      exact ih hentries
    · have hlater : ∀ later ∈ entries, now ≤ later.Expires := fun later hmem =>
        Int.not_lt.mp fun h => hexpired (hentry later hmem h)
      have hall : ∀ later ∈ entry :: entries, now ≤ later.Expires :=
        List.forall_mem_cons.mpr ⟨Int.not_lt.mp hexpired, hlater⟩
      have hnone : expired now (entry :: entries) = [] :=
        List.filter_eq_nil_iff.mpr fun later hmem => by simpa using hall later hmem
      rw [hnone, unexpired, List.filter_eq_self.mpr fun later hmem =>
        decide_eq_true (hall later hmem)]
      rfl

end Scanning

section Handling

structure Attempt where
  remote : Sockaddr
  now : Int

structure Server where
  table : Table
  accepted : List REMOTETABLE

def Server.start : Server := ⟨⟨fun _ => ⟨.other, 0⟩, 0, 0, by decide⟩, []⟩

def Server.step (config : Config) (s : Server) (a : Attempt) : Server :=
  match RCreader config s.table a.remote a.now with
  | (table, some _) => ⟨table, s.accepted⟩
  | (table, none) => ⟨table, s.accepted ++ [⟨a.remote, a.now + config.RemoteTimer⟩]⟩

def Server.Rejects (config : Config) (s : Server) (a : Attempt) : Prop :=
    (RCreader config s.table a.remote a.now).2 ≠ none

/-- A connection is turned away just when there are too many. -/
structure Handled (config : Config) (s : Server) (a : Attempt) : Prop where
  live : (s.step config a).table.live = unexpired a.now (s.step config a).accepted
  rejected : s.Rejects config a ↔
    (unexpired a.now s.accepted).length = config.RemoteTotal ∨
      config.RemoteLimit ≤ (fromHost a.remote (unexpired a.now s.accepted)).length ∧
        ¬config.RCnolimit a.remote
  unchanged : s.Rejects config a → (s.step config a).table.live = unexpired a.now s.table.live
  room : (s.step config a).table.live.length ≤ REMOTETABLESIZE

/-- Expired entries come first in the ring, which has room. -/
structure Allows (config : Config) (s : Server) (a : Attempt) : Prop where
  positive : 0 < config.RemoteTimer
  out : ∀ entry ∈ s.accepted.take (s.accepted.length - s.table.remotecount), entry.Expires < a.now
  ordered : s.table.live.Pairwise fun entry later => later.Expires < a.now → entry.Expires < a.now
  room : (unexpired a.now s.table.live).length < REMOTETABLESIZE

/-- The ring has the connections that were accepted last. -/
structure Last (s : Server) : Prop where
  count : s.table.remotecount ≤ s.accepted.length
  last : s.table.live = s.accepted.drop (s.accepted.length - s.table.remotecount)

variable {config : Config} {s : Server} {a : Attempt}

theorem unexpired_accepted (hlast : Last s) (hallows : Allows config s a) :
    unexpired a.now s.accepted = unexpired a.now s.table.live := by
  have hnone : unexpired a.now (s.accepted.take (s.accepted.length - s.table.remotecount)) = [] :=
    List.filter_eq_nil_iff.mpr fun entry hmem => by simpa using hallows.out entry hmem
  have hsplit : unexpired a.now (s.accepted.take (s.accepted.length - s.table.remotecount) ++
      s.accepted.drop (s.accepted.length - s.table.remotecount)) =
        unexpired a.now s.table.live := by
    rw [unexpired, List.filter_append, ← unexpired, ← unexpired, hnone, List.nil_append, hlast.last]
  rwa [List.take_append_drop] at hsplit

theorem scan_live (hallows : Allows config s a) :
    ∃ table, s.table.scan a.remote a.now s.table.remotecount s.table.remotefirst 0 =
        (table, (table.remotefirst + table.remotecount) % REMOTETABLESIZE,
          (fromHost a.remote (unexpired a.now s.table.live)).length) ∧
      table.live = unexpired a.now s.table.live ∧
        table.remotecount = (unexpired a.now s.table.live).length ∧
      (unexpired a.now s.table.live).length ≤ s.table.remotecount := by
  obtain ⟨table, hscan, hslots, hfirst, hcount⟩ :=
    scan_spec a.remote a.now s.table.remotecount s.table s.table.first_lt 0
  rw [← Table.live] at hscan hfirst hcount
  have hlength : s.table.live.length = s.table.remotecount := ring_length _ _ _
  have hgone := expired_length_le a.now s.table.live
  rw [hlength] at hgone
  have hlive : table.live = unexpired a.now s.table.live := by
    rw [Table.live, hslots, hfirst, hcount, ring_mod, ← ring_drop _ _ hgone, ← Table.live,
      drop_expired hallows.ordered]
  have hcount' : table.remotecount = (unexpired a.now s.table.live).length := by
    rw [← hlive]
    exact (ring_length _ _ _).symm
  refine ⟨table, ?_, hlive, hcount', ?_⟩
  · rw [hscan, hfirst, hcount, Nat.mod_add_mod, Nat.zero_add]
    have : s.table.remotefirst + (expired a.now s.table.live).length +
        (s.table.remotecount - (expired a.now s.table.live).length) =
          s.table.remotefirst + s.table.remotecount := by omega
    rw [this]
  · rw [← hlength]
    exact List.length_filter_le _ _

theorem setAddress_live (table : Table) (remote : Sockaddr)
    (hroom : table.remotecount < REMOTETABLESIZE) :
    (table.setAddress ((table.remotefirst + table.remotecount) % REMOTETABLESIZE) remote).live =
      table.live :=
  ring_update _ _ _ (Nat.le_refl _) hroom

theorem add_live (table : Table) (remote : Sockaddr) (expires : Int)
    (hroom : table.remotecount < REMOTETABLESIZE) :
    (table.add remote expires).live = table.live ++ [⟨remote, expires⟩] :=
  ring_push _ _ _ hroom

theorem Last.of_live {entries : List REMOTETABLE} {table : Table} (hlast : Last s) {k : Nat}
    (hk : k ≤ s.table.remotecount)
    (hentries : entries = s.table.live.drop k) (hlive : table.live = entries)
    (hcount : table.remotecount = s.table.remotecount - k) :
    Last ⟨table, s.accepted⟩ := by
  have hle := hlast.count
  refine ⟨?_, ?_⟩
  · change table.remotecount ≤ s.accepted.length
    omega
  · change table.live = s.accepted.drop (s.accepted.length - table.remotecount)
    rw [hlive, hentries, hlast.last, List.drop_drop, hcount]
    congr 1
    omega

theorem Last.add {table : Table} {entry : REMOTETABLE} {table' : Table}
    {accepted : List REMOTETABLE} (hlast : Last ⟨table, accepted⟩)
    (hlive : table'.live = table.live ++ [entry])
    (hcount : table'.remotecount = table.remotecount + 1) :
    Last ⟨table', accepted ++ [entry]⟩ := by
  have hle : table.remotecount ≤ accepted.length := hlast.count
  have hlast' : table.live = accepted.drop (accepted.length - table.remotecount) := hlast.last
  refine ⟨?_, ?_⟩
  · change table'.remotecount ≤ (accepted ++ [entry]).length
    rw [hcount, List.length_append, List.length_singleton]
    omega
  · change table'.live = (accepted ++ [entry]).drop
      ((accepted ++ [entry]).length - table'.remotecount)
    rw [hlive, hlast', hcount, List.length_append, List.length_singleton, Nat.add_sub_add_right,
      List.drop_append_of_le_length (Nat.sub_le _ _)]

theorem Handled.of_accepted {table : Table} (hlast : Last s) (hallows : Allows config s a)
    (hreads : RCreader config s.table a.remote a.now = (table, none))
    (haccepts : ¬((unexpired a.now s.table.live).length = config.RemoteTotal ∨
      config.RemoteLimit ≤ (fromHost a.remote (unexpired a.now s.table.live)).length ∧
        ¬config.RCnolimit a.remote))
    (hlive : table.live = unexpired a.now s.table.live ++ [⟨a.remote, a.now + config.RemoteTimer⟩])
    (hlength : table.live.length ≤ REMOTETABLESIZE) : Handled config s a := by
  have hstep :
      s.step config a = ⟨table, s.accepted ++ [⟨a.remote, a.now + config.RemoteTimer⟩]⟩ := by
    rw [Server.step, hreads]
  have hnot : ¬s.Rejects config a := by
    rw [Server.Rejects, hreads]
    exact not_not.mpr rfl
  have hnew : unexpired a.now [⟨a.remote, a.now + config.RemoteTimer⟩] =
      [⟨a.remote, a.now + config.RemoteTimer⟩] :=
    unexpired_cons_of_not_lt (by have := hallows.positive; dsimp only; omega)
  refine ⟨?_, ?_, fun h => absurd h hnot, ?_⟩
  · rw [hstep, unexpired, List.filter_append, ← unexpired, ← unexpired, hnew,
      unexpired_accepted hlast hallows]
    exact hlive
  · rw [unexpired_accepted hlast hallows]
    exact iff_of_false hnot haccepts
  · rw [hstep]
    exact hlength

theorem Handled.of_rejected {table : Table} {message : String} (hlast : Last s)
    (hallows : Allows config s a)
    (hreads : RCreader config s.table a.remote a.now = (table, some message))
    (hrejects : (unexpired a.now s.table.live).length = config.RemoteTotal ∨
      config.RemoteLimit ≤ (fromHost a.remote (unexpired a.now s.table.live)).length ∧
        ¬config.RCnolimit a.remote)
    (hlive : table.live = unexpired a.now s.table.live) : Handled config s a := by
  have hstep : s.step config a = ⟨table, s.accepted⟩ := by rw [Server.step, hreads]
  have hrej : s.Rejects config a := by
    rw [Server.Rejects, hreads]
    nofun
  refine ⟨?_, ?_, fun _ => ?_, ?_⟩
  · rw [hstep, unexpired_accepted hlast hallows]
    exact hlive
  · rw [unexpired_accepted hlast hallows]
    exact iff_of_true hrej hrejects
  · rw [hstep]
    exact hlive
  · rw [hstep, hlive]
    exact Nat.le_of_lt hallows.room

theorem step_handled (hlast : Last s) (hallows : Allows config s a) :
    Last (s.step config a) ∧ Handled config s a := by
  obtain ⟨table, hscan, hlive, hcount, hle⟩ := scan_live hallows
  have hroom : table.remotecount < REMOTETABLESIZE := hcount ▸ hallows.room
  have hlength : s.table.live.length = s.table.remotecount := ring_length _ _ _
  have hgone := drop_expired hallows.ordered
  have hsum : (expired a.now s.table.live).length + (unexpired a.now s.table.live).length =
      s.table.remotecount := by
    have := congrArg List.length hgone
    rw [List.length_drop, hlength] at this
    have := expired_length_le a.now s.table.live
    omega
  have hscanned : Last ⟨table, s.accepted⟩ :=
    hlast.of_live (by omega) hgone.symm hlive (by omega)
  have hreads : RCreader config s.table a.remote a.now =
      if table.remotecount = config.RemoteTotal then
        (table.setAddress ((table.remotefirst + table.remotecount) % REMOTETABLESIZE) a.remote,
          some "400 Server overloaded, try later")
      else if config.RemoteLimit ≤ (fromHost a.remote
        (unexpired a.now s.table.live)).length ∧ ¬config.RCnolimit a.remote then
        (table.setAddress ((table.remotefirst + table.remotecount) % REMOTETABLESIZE) a.remote,
          some "400 Connection rejected, you're making too many connects per minute")
      else (table.add a.remote (a.now + config.RemoteTimer), none) := by
    rw [RCreader, if_neg (by have := hallows.positive; omega), hscan]
  have hset := setAddress_live table a.remote hroom
  have hsame :
      Last ⟨table.setAddress ((table.remotefirst + table.remotecount) % REMOTETABLESIZE) a.remote,
        s.accepted⟩ :=
    ⟨hscanned.count, hset.trans hscanned.last⟩
  by_cases htotal : table.remotecount = config.RemoteTotal
  · rw [if_pos htotal] at hreads
    refine ⟨?_, .of_rejected hlast hallows hreads (.inl (hcount ▸ htotal)) (hset.trans hlive)⟩
    rw [Server.step, hreads]
    exact hsame
  · rw [if_neg htotal] at hreads
    by_cases hlimit : config.RemoteLimit ≤
      (fromHost a.remote (unexpired a.now s.table.live)).length ∧ ¬config.RCnolimit a.remote
    · rw [if_pos hlimit] at hreads
      refine ⟨?_, .of_rejected hlast hallows hreads (.inr hlimit) (hset.trans hlive)⟩
      rw [Server.step, hreads]
      exact hsame
    · rw [if_neg hlimit] at hreads
      have hadd := add_live table a.remote (a.now + config.RemoteTimer) hroom
      refine ⟨?_, .of_accepted hlast hallows hreads (hcount ▸ not_or.mpr ⟨htotal, hlimit⟩)
        (hadd.trans (hlive ▸ rfl)) ?_⟩
      · rw [Server.step, hreads]
        exact hscanned.add hadd rfl
      · rw [hadd, List.length_append, Table.live, ring_length]
        exact hroom

theorem last_start : Last .start := ⟨Nat.zero_le _, rfl⟩

/-- All attempts are handled as the limits promise while the clock brings no
connection back, entries expire in their order, and the table does not fill. -/
theorem attempts_handled (config : Config) (attempts : List Attempt)
    (hallows : Throughout (Server.step config) (Allows config) attempts .start) :
    Throughout (Server.step config) (Handled config) attempts .start :=
  (throughout_invariant (fun _ _ hlast hallows => step_handled hlast hallows) attempts
    last_start hallows).2

instance : Decidable (Allows config s a) :=
  decidable_of_iff (0 < config.RemoteTimer ∧
      (∀ entry ∈ s.accepted.take (s.accepted.length - s.table.remotecount), entry.Expires < a.now) ∧
      (s.table.live.Pairwise fun entry later => later.Expires < a.now → entry.Expires < a.now) ∧
      (unexpired a.now s.table.live).length < REMOTETABLESIZE)
    ⟨fun ⟨hpositive, hout, hordered, hroom⟩ => ⟨hpositive, hout, hordered, hroom⟩,
      fun ⟨hpositive, hout, hordered, hroom⟩ => ⟨hpositive, hout, hordered, hroom⟩⟩

/-- Three attempts from one host, the last one of which is too many. -/
theorem attempts_handled_three :
    Throughout (Server.step ⟨60, 60, 2, []⟩) (Handled ⟨60, 60, 2, []⟩)
      [⟨.inet 1 5, 100⟩, ⟨.inet 1 6, 110⟩, ⟨.inet 1 7, 120⟩] .start :=
  attempts_handled ⟨60, 60, 2, []⟩ [⟨.inet 1 5, 100⟩, ⟨.inet 1 6, 110⟩,
    ⟨.inet 1 7, 120⟩] (by decide +kernel)

/-- When the clock has been set back between two connects, the second one expires
first, and the first one is taken out for it. -/
theorem not_attempts_handled : ¬∀ config :
    Config, config.RemoteTimer ≠ 0 → ∀ attempts : List Attempt,
    Throughout (Server.step config) (Handled config) attempts .start := by
  intro h
  obtain ⟨_, _, hlast, _⟩ :=
    h ⟨60, 60, 60, []⟩ (by decide) [⟨.inet 1 5, 100⟩, ⟨.inet 2 6, 50⟩, ⟨.inet 3 7, 130⟩]
  exact absurd hlast.live (by decide +kernel)

end Handling

end Inn.Innd.RC
