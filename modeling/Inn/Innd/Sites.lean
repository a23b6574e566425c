import Inn.Foundation.Linked
import Inn.Foundation.Runs

/-!
# File feeds

Each site has a feed file, and the lines for it go to the output of the channel that has the file
open. No more than `MaxOutgoing` files are to be open: the sites with an open file are kept in a
list, the latest opened first, and a site that has to do without its file gets its lines in a buffer
of its own.

A buffer is the octets that wait in it. The sites are all of the type `FTfile`, and the links of the
list, which the source has in each site, are kept together.
-/

namespace Inn.Innd.Feeds

open Foundation.Linked

structure CHANNEL where
  Out : List UInt8
  closed : Bool
  /-- How many files had been opened before this one. -/
  serial : Nat
  deriving DecidableEq

/-- A file feed, which is written through a channel or buffered. -/
structure SITE where
  Name : Option String
  Buffered : Bool
  Buffer : List UInt8
  Flushpoint : Nat
  Channel : Option CHANNEL
  /-- What has been written to the feed file. -/
  written : List UInt8
  deriving DecidableEq

structure State where
  Sites : Nat → SITE
  links : Links Nat
  SITEcount : Int
  /-- How many files have been opened. -/
  opened : Nat

inductive OpenResult
  | opened
  | EMFILE
  | failed
  deriving DecidableEq

inductive Fault
  | nullChannel
  | endless
  deriving DecidableEq

def State.initial (Name : Nat → Option String) (Flushpoint : Nat → Nat) : State where
  Sites i := ⟨Name i, false, [], Flushpoint i, none, []⟩
  links := ⟨none, none, fun _ => none, fun _ => none⟩
  SITEcount := 0
  opened := 0

namespace State

variable (MaxOutgoing : Nat) (s : State)

def setSite (i : Nat) (sp : SITE) : State := { s with Sites := Function.update s.Sites i sp }

def linked (i : Nat) : Prop := s.links.next i ≠ none ∨ s.links.prev i ≠ none ∨ s.links.head = some i

instance (i : Nat) : Decidable (s.linked i) := inferInstanceAs (Decidable (_ ∨ _ ∨ _))

def SITEunlink (i : Nat) : State :=
  { s with
    SITEcount := if s.linked i then s.SITEcount - 1 else s.SITEcount, links := s.links.unlink i }

def SITEmovetohead (i : Nat) : State :=
  let s := if s.links.head = none ∧ (s.links.next i ≠ none ∨
    s.links.prev i ≠ none) then s.SITEunlink i else s
  { s with links := s.links.push i, SITEcount := s.SITEcount + 1 }

def SITEbuffer (i : Nat) : State :=
  let s := s.SITEunlink i
  s.setSite i { s.Sites i with Buffered := true, Channel := none, Buffer := [] }

def CHANcreate (i : Nat) : State :=
  { s.setSite i { s.Sites i with Channel := some ⟨[], false, s.opened⟩ }
    with opened := s.opened + 1 }

def SITEsetup (i : Nat) (result : OpenResult) : State × Bool :=
  if s.SITEcount ≥ MaxOutgoing then (s.SITEbuffer i, true)
  else
    let s := s.setSite i { s.Sites i with Buffered := false }
    match result with
    | .EMFILE => (s.SITEbuffer i, true)
    | .failed => (s, false)
    | .opened => ((s.SITEmovetohead i).CHANcreate i, true)

def write (i count : Nat) : State :=
  match (s.Sites i).Channel with
  | none => s
  | some cp =>
    let count := if cp.closed then 0 else count
    s.setSite i
      { s.Sites i with
        written := (s.Sites i).written ++ cp.Out.take count
        Channel := some { cp with Out := cp.Out.drop count } }

def keepResidue (i : Nat) : Except Fault State :=
  match (s.Sites i).Channel with
  | none => .error .nullChannel
  | some cp => .ok (s.setSite i { s.Sites i with Buffered := true, Buffer := cp.Out, Channel := none })

def SITEbufferoldest (writes : Nat → Nat) : Except Fault State :=
  match s.links.tail with
  | none => .ok { s with SITEcount := 0 }
  | some i =>
    let s := s.SITEunlink i
    if (s.Sites i).Buffered then .ok s else (s.write i (writes i)).keepResidue i

def makeRoom (writes : Nat → Nat) : Nat → State → Except Fault State
  | 0, s => if s.SITEcount ≥ MaxOutgoing then .error .endless else .ok s
  | turns + 1, s =>
    if s.SITEcount ≥ MaxOutgoing then
      match s.SITEbufferoldest writes with
      | .error e => .error e
      | .ok s => makeRoom writes turns s
    else .ok s

def turns : Nat := (s.SITEcount - MaxOutgoing).toNat + 3

def unbuffer (i : Nat) : State :=
  s.setSite i
    { s.Sites i with
      Channel := (s.Sites i).Channel.map fun cp => { cp with Out := (s.Sites i).Buffer }
      Buffer := [] }

def swapBuffers (i : Nat) : State :=
  match (s.Sites i).Channel with
  | none => s
  | some cp =>
    s.setSite i { s.Sites i with
      Channel := some { cp with Out := (s.Sites i).Buffer }, Buffer := cp.Out }

def SITEflushcheck (i : Nat) (result : OpenResult) (writes : Nat → Nat) : Except Fault State :=
  if (s.Sites i).Buffered then
    if (s.Sites i).Buffer.length < (s.Sites i).Flushpoint then .ok s
    else
      match makeRoom MaxOutgoing writes (s.turns MaxOutgoing) s with
      | .error e => .error e
      | .ok s =>
        let setup := s.SITEsetup MaxOutgoing i result
        if !setup.2 || (setup.1.Sites i).Buffered then .ok setup.1 else .ok (setup.1.unbuffer i)
  else if (s.Sites i).Channel = none then .error .nullChannel
  else .ok s

def SITEwritefromflags (i : Nat) (line : List UInt8) (result : OpenResult) (writes : Nat → Nat) :
    Except Fault State :=
  if (s.Sites i).Buffered then
    (s.setSite i { s.Sites i with Buffer := (s.Sites i).Buffer ++ line }).SITEflushcheck MaxOutgoing
      i result writes
  else
    match (s.Sites i).Channel with
    | none => .ok s
    | some cp =>
      (s.setSite i { s.Sites i with Channel := some { cp with Out := cp.Out ++ line }
        }).SITEflushcheck
        MaxOutgoing i result writes

def unbufferToFlush (i : Nat) (result : OpenResult) : State :=
  if (s.Sites i).Buffered then
    let setup := { s with SITEcount := 0 }.SITEsetup MaxOutgoing i result
    let s' := if !setup.2 || (setup.1.Sites i).Buffered then setup.1 else setup.1.swapBuffers i
    { s' with SITEcount := s'.SITEcount + s.SITEcount }
  else s

def keepPending (i : Nat) (out : List UInt8) : State :=
  if (s.Sites i).Buffered then
    if out = [] then s else s.setSite i { s.Sites i with Buffer := out }
  else s.setSite i { s.Sites i with Channel := (s.Sites i).Channel.map fun cp =>
    { cp with Out := out } }

def CHANclose (i : Nat) : State :=
  s.setSite i { s.Sites i with Channel := (s.Sites i).Channel.map fun cp =>
    { cp with closed := true } }

def restart (i : Nat) (result : OpenResult) : State :=
  let setup := s.SITEsetup MaxOutgoing i result
  match (s.Sites i).Channel with
  | none => setup.1
  | some cp => (if setup.2 then setup.1.keepPending i cp.Out else setup.1.CHANclose i).SITEunlink i

def shut (i : Nat) : State :=
  match (s.Sites i).Channel with
  | none => s
  | some cp => if cp.Out ≠ [] then s
      else (s.setSite i { s.Sites i with Channel := none }).SITEunlink i

def SITEflush (i : Nat) (Restart : Bool) (unbuffered restarted : OpenResult)
    (count : Nat) : State :=
  if (s.Sites i).Name = none then s
  else
    let s := (s.unbufferToFlush MaxOutgoing i unbuffered).write i count
    if Restart then s.restart MaxOutgoing i restarted else s.shut i

def SITEfree (i : Nat) : State :=
  let s := (s.setSite i { s.Sites i with Channel := none }).SITEunlink i
  s.setSite i { s.Sites i with Name := none, Buffer := [] }

def SITEdrop (i : Nat) (unbuffered : OpenResult) (count : Nat) : State :=
  (s.SITEflush MaxOutgoing i false unbuffered .failed count).SITEfree i

end State

inductive Call
  | SITEsetup (i : Nat) (result : OpenResult)
  | SITEflushcheck (i : Nat) (result : OpenResult) (writes : Nat → Nat)
  | SITEbufferoldest (writes : Nat → Nat)
  | SITEflush (i : Nat) (Restart : Bool) (unbuffered restarted : OpenResult) (count : Nat)
  | SITEdrop (i : Nat) (unbuffered : OpenResult) (count : Nat)
  | SITEwritefromflags (i : Nat) (line : List UInt8) (result : OpenResult) (writes : Nat → Nat)
  | write (i count : Nat)

def State.step (MaxOutgoing : Nat) (s : State) : Call → Except Fault State
  | .SITEsetup i result => .ok (s.SITEsetup MaxOutgoing i result).1
  | .SITEflushcheck i result writes => s.SITEflushcheck MaxOutgoing i result writes
  | .SITEbufferoldest writes => s.SITEbufferoldest writes
  | .SITEflush i Restart unbuffered restarted count =>
      .ok (s.SITEflush MaxOutgoing i Restart unbuffered restarted count)
  | .SITEdrop i unbuffered count => .ok (s.SITEdrop MaxOutgoing i unbuffered count)
  | .SITEwritefromflags i line result writes =>
      s.SITEwritefromflags MaxOutgoing i line result writes
  | .write i count => .ok (s.write i count)

namespace State

variable {MaxOutgoing : Nat} {s s' : State} {i : Nat} {writes : Nat → Nat}

@[simp] theorem setSite_self (s : State) (i : Nat) (sp : SITE) : (s.setSite i sp).Sites i = sp :=
  Function.update_self ..

theorem setSite_of_ne (s : State) {i j : Nat} (hne : j ≠ i) (sp : SITE) :
    (s.setSite i sp).Sites j = s.Sites j :=
  Function.update_of_ne hne ..

@[simp] theorem setSite_links (s : State) (i : Nat) (sp : SITE) :
    (s.setSite i sp).links = s.links := rfl

@[simp] theorem setSite_SITEcount (s : State) (i : Nat) (sp : SITE) :
    (s.setSite i sp).SITEcount = s.SITEcount := rfl

@[simp] theorem setSite_opened (s : State) (i : Nat) (sp : SITE) :
    (s.setSite i sp).opened = s.opened := rfl

@[simp] theorem SITEunlink_Sites (s : State) (i : Nat) : (s.SITEunlink i).Sites = s.Sites := rfl

@[simp] theorem SITEmovetohead_Sites (s : State) (i : Nat) :
    (s.SITEmovetohead i).Sites = s.Sites := by
  rw [SITEmovetohead]
  split <;> rfl

theorem SITEmovetohead_opened (s : State) (i : Nat) : (s.SITEmovetohead i).opened = s.opened := by
  rw [SITEmovetohead]
  split <;> rfl

theorem SITEbufferoldest_cases (hbuffer : s.SITEbufferoldest writes = .ok s') :
    s.links.tail = none ∧ s' = { s with SITEcount := 0 } ∨
      ∃ i, s.links.tail = some i ∧
        ((s.Sites i).Buffered = true ∧ s' = s.SITEunlink i ∨
          (s.Sites i).Buffered = false ∧ ∃ cp, (s.Sites i).Channel = some cp ∧ ∃ count, s' = (s.SITEunlink i).setSite i
            { s.Sites i with
              Buffered := true
              Buffer := cp.Out.drop count
              Channel := none
              written := (s.Sites i).written ++ cp.Out.take count }) := by
  rw [SITEbufferoldest] at hbuffer
  split at hbuffer
  next htail => exact .inl ⟨htail, (Except.ok.inj hbuffer).symm⟩
  next i htail =>
    refine .inr ⟨i, htail, ?_⟩
    dsimp only at hbuffer
    split at hbuffer
    next hbuffered => exact .inl ⟨hbuffered, (Except.ok.inj hbuffer).symm⟩
    next hbuffered =>
      refine .inr ⟨Bool.eq_false_iff.mpr hbuffered, ?_⟩
      rw [write, SITEunlink_Sites] at hbuffer
      split at hbuffer
      next hchannel =>
        rw [keepResidue, SITEunlink_Sites, hchannel] at hbuffer
        cases hbuffer
      next cp hchannel =>
        simp only [keepResidue, setSite_self] at hbuffer
        refine ⟨cp, hchannel, if cp.closed then 0 else writes i,
          (Except.ok.inj hbuffer).symm.trans ?_⟩
        rw [setSite, setSite, setSite, Function.update_idem]

theorem makeRoom_keeps {inv : State → Prop}
    (hstep : ∀ s s', inv s → s.SITEbufferoldest writes = .ok s' → inv s') {turns : Nat}
    (hinv : inv s) (hroom : makeRoom MaxOutgoing writes turns s = .ok s') :
      inv s' ∧ s'.SITEcount < MaxOutgoing := by
  induction turns generalizing s with
  | zero =>
    rw [makeRoom] at hroom
    split at hroom
    · cases hroom
    next hcount =>
      cases hroom
      exact ⟨hinv, Int.not_le.mp hcount⟩
  | succ turns ih =>
    rw [makeRoom] at hroom
    split at hroom
    · split at hroom
      · cases hroom
      next s₁ hbuffer => exact ih (hstep s s₁ hinv hbuffer) hroom
    next hcount =>
      cases hroom
      exact ⟨hinv, Int.not_le.mp hcount⟩

def needed (MaxOutgoing : Nat) (s : State) : Nat :=
  if s.links.tail = none then 1 else (s.SITEcount - MaxOutgoing + 1).toNat + 2

theorem unlink_tail_of_not_linked (htail : s.links.tail = some i) (hlinked : ¬ s.linked i) :
    (s.SITEunlink i).links.tail = none := by
  simp only [linked, not_or, not_not] at hlinked
  obtain ⟨hnext, hprev, hhead⟩ := hlinked
  simp [SITEunlink, Links.unlink, Links.unlinkPrev, Links.unlinkNext, Links.clear, hnext,
    hprev, hhead, htail]

theorem SITEbufferoldest_needed (hmax : 0 < MaxOutgoing) (hcount : s.SITEcount ≥ MaxOutgoing)
    (hbuffer : s.SITEbufferoldest writes = .ok s') :
    s'.SITEcount < MaxOutgoing ∨ needed MaxOutgoing s' < needed MaxOutgoing s := by
  rcases SITEbufferoldest_cases hbuffer with ⟨-, rfl⟩ | ⟨i, htail, hcases⟩
  · exact .inl (Int.ofNat_lt.mpr hmax)
  · have hsame : s'.SITEcount = (s.SITEunlink i).SITEcount ∧ s'.links = (s.SITEunlink i).links := by
      rcases hcases with ⟨-, rfl⟩ | ⟨-, cp, -, count, rfl⟩ <;> exact ⟨rfl, rfl⟩
    have hbefore : needed MaxOutgoing s = (s.SITEcount - MaxOutgoing + 1).toNat + 2 := by
      rw [needed, if_neg (by rw [htail]; nofun)]
    by_cases hlinked : s.linked i
    · have hless : s'.SITEcount = s.SITEcount - 1 := by rw [hsame.1, SITEunlink, if_pos hlinked]
      right
      rw [hbefore, needed, hless]
      split <;> omega
    · right
      rw [hbefore, needed, hsame.2, if_pos (unlink_tail_of_not_linked htail hlinked)]
      omega

theorem SITEbufferoldest_ne_endless : s.SITEbufferoldest writes ≠ .error .endless := by
  rw [SITEbufferoldest]
  split
  · nofun
  · dsimp only
    split
    · nofun
    · rw [keepResidue]
      split <;> nofun

theorem makeRoom_ne_endless (hmax : 0 < MaxOutgoing) {turns : Nat}
    (hturns : needed MaxOutgoing s ≤ turns) :
    makeRoom MaxOutgoing writes turns s ≠ .error .endless := by
  induction turns generalizing s with
  | zero =>
    rw [needed] at hturns
    split at hturns <;> omega
  | succ turns ih =>
    rw [makeRoom]
    split
    next hcount =>
      split
      next e hbuffer =>
        rintro ⟨⟩
        exact SITEbufferoldest_ne_endless hbuffer
      next s₁ hbuffer =>
        rcases SITEbufferoldest_needed hmax hcount hbuffer with hroom | hless
        · cases turns with
          | zero =>
            rw [makeRoom, if_neg (Int.not_le.mpr hroom)]
            nofun
          | succ turns =>
            rw [makeRoom, if_neg (Int.not_le.mpr hroom)]
            nofun
        · exact ih (by omega)
    · nofun

theorem SITEflushcheck_ne_endless (hmax : 0 < MaxOutgoing) (result : OpenResult) :
    s.SITEflushcheck MaxOutgoing i result writes ≠ .error .endless := by
  rw [SITEflushcheck]
  split
  · split
    · nofun
    · split
      next e hroom =>
        rintro ⟨⟩
        refine makeRoom_ne_endless hmax ?_ hroom
        rw [needed, turns]
        split <;> omega
      · dsimp only
        split <;> nofun
  · split <;> nofun

theorem step_ne_endless (hmax : 0 < MaxOutgoing) (call : Call) :
    s.step MaxOutgoing call ≠ .error .endless := by
  cases call with
  | SITEflushcheck i result writes => exact SITEflushcheck_ne_endless hmax result
  | SITEwritefromflags i line result writes =>
    rw [step, SITEwritefromflags]
    split
    · exact SITEflushcheck_ne_endless hmax result
    · split
      · nofun
      · exact SITEflushcheck_ne_endless hmax result
  | SITEbufferoldest writes => exact SITEbufferoldest_ne_endless
  | _ => nofun

end State

end Inn.Innd.Feeds
