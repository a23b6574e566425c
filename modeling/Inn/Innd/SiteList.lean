import Inn.Innd.Sites

/-!
# The list of open feed files

The list of the sites that have their file open is kept in order of opening. A site that is set up
while it is in the list is linked once more: `SITEmovetohead` takes it out first only when the list
has no head. A restart, which opens the file before it closes the old channel, takes the site out
once in the end. So a site is lost from the list that is restarted with its file open, unless it is
alone or has to be buffered.
-/

namespace Inn.Innd.Feeds

open Function (update update_idem update_self update_of_ne update_eq_self)
open Foundation.Linked Foundation.Runs

def SITE.file (sp : SITE) : Option Nat :=
  if sp.Buffered then none
  else
    match sp.Channel with
    | none => none
    | some cp => if cp.closed then none else some cp.serial

/-- The list has the sites with a file, the one opened last in front. -/
structure State.Proper (MaxOutgoing : Nat) (s : State) (list : List Nat) : Prop where
  represents : Represents s.links list
  members : ∀ i, i ∈ list ↔ (s.Sites i).file ≠ none
  ordered : list.Pairwise fun i j => ∀ a b, (s.Sites i).file = some a →
    (s.Sites j).file = some b → b < a
  count : s.SITEcount = list.length
  limit : list.length ≤ MaxOutgoing
  oldest : ∀ i, s.links.tail = some i ↔
    ∃ a, (s.Sites i).file = some a ∧ ∀ j b, (s.Sites j).file = some b → a ≤ b

namespace State

def GivenFile (MaxOutgoing : Nat) (s : State) (i : Nat) (unbuffered : OpenResult) : Prop :=
  (s.Sites i).Buffered = true ∧ unbuffered = .opened ∧ 0 < MaxOutgoing

instance (MaxOutgoing : Nat) (s : State) (i : Nat) (unbuffered : OpenResult) :
    Decidable (s.GivenFile MaxOutgoing i unbuffered) := inferInstanceAs (Decidable (_ ∧ _ ∧ _))

def files (MaxOutgoing : Nat) (s : State) (i : Nat) (unbuffered : OpenResult) : Int :=
  s.SITEcount + if s.GivenFile MaxOutgoing i unbuffered then 1 else 0

def Allowed (MaxOutgoing : Nat) (s : State) : Call → Prop
  | .SITEsetup i _ => (s.Sites i).Channel = none
  | .SITEflush i true unbuffered restarted _ =>
    (s.Sites i).Name ≠ none → (s.Sites i).Channel ≠ none ∨ s.GivenFile MaxOutgoing i unbuffered →
      MaxOutgoing ≤ s.files MaxOutgoing i unbuffered ∨ restarted = .EMFILE ∨
        s.files MaxOutgoing i unbuffered = 1 ∧ restarted = .opened
  | .SITEflush i false unbuffered _ count =>
    (s.Sites i).Name ≠ none → s.GivenFile MaxOutgoing i unbuffered →
      s.SITEcount < MaxOutgoing ∨ (s.Sites i).Buffer.length ≤ count
  | _ => True

section Ordered

structure Ordered (file : Nat → Option Nat) (opened : Nat) (list : List Nat) : Prop where
  members : ∀ i, i ∈ list ↔ file i ≠ none
  ordered : list.Pairwise fun i j => ∀ a b, file i = some a → file j = some b → b < a
  recent : ∀ i a, file i = some a → a < opened

variable {file : Nat → Option Nat} {opened : Nat} {list : List Nat} {i : Nat}

theorem Ordered.erase (hordered : Ordered file opened list) (hnodup : list.Nodup) :
    Ordered (update file i none) opened (list.erase i) := by
  have hfile (j : Nat) (hj : j ≠ i) : update file i none j = file j := update_of_ne hj ..
  refine ⟨fun j => ?_, ?_, fun j a hj => ?_⟩
  · rw [hnodup.mem_erase_iff]
    by_cases hji : j = i
    · simp [hji]
    · rw [hfile j hji, hordered.members j]
      simp [hji]
  · refine (hordered.ordered.sublist List.erase_sublist).imp_of_mem ?_
    intro j k hj hk hlt
    rw [hfile j (hnodup.mem_erase_iff.mp hj).1, hfile k (hnodup.mem_erase_iff.mp hk).1]
    exact hlt
  · by_cases hji : j = i
    · simp [hji] at hj
    · rw [hfile j hji] at hj
      exact hordered.recent j a hj

theorem Ordered.cons (hordered : Ordered file opened list) (hi : i ∉ list) :
    Ordered (update file i (some opened)) (opened + 1) (i :: list) := by
  have hfile (j : Nat) (hj : j ≠ i) : update file i (some opened) j = file j := update_of_ne hj ..
  refine ⟨fun j => ?_, List.pairwise_cons.mpr ⟨fun j hj a b ha hb => ?_, ?_⟩, fun j a hj => ?_⟩
  · by_cases hji : j = i
    · simp [hji]
    · rw [hfile j hji, ← hordered.members j]
      simp [hji]
  · rw [update_self] at ha
    rw [hfile j (fun heq => hi (heq ▸ hj))] at hb
    cases ha
    exact hordered.recent j b hb
  · refine hordered.ordered.imp_of_mem ?_
    intro j k hj hk hlt
    rw [hfile j (fun heq => hi (heq ▸ hj)), hfile k (fun heq => hi (heq ▸ hk))]
    exact hlt
  · by_cases hji : j = i
    · rw [hji, update_self] at hj
      exact Option.some.inj hj ▸ Nat.lt_succ_self opened
    · rw [hfile j hji] at hj
      exact Nat.lt_succ_of_lt (hordered.recent j a hj)

theorem Ordered.getLast (hordered : Ordered file opened list) :
    list.getLast? = some i ↔ ∃ a, file i = some a ∧ ∀ j b, file j = some b → a ≤ b := by
  constructor
  · intro hlast
    obtain ⟨a, ha⟩ :=
      Option.ne_none_iff_exists'.mp ((hordered.members i).mp (List.mem_of_getLast? hlast))
    refine ⟨a, ha, fun j b hb => ?_⟩
    have hj := (hordered.members j).mpr (by rw [hb]; nofun)
    obtain ⟨front, rfl⟩ := List.getLast?_eq_some_iff.mp hlast
    rcases List.mem_append.mp hj with hfront | hself
    · exact Nat.le_of_lt ((List.pairwise_append.mp hordered.ordered).2.2 j hfront i
        List.mem_cons_self b a hb ha)
    · rw [List.mem_singleton.mp hself, ha] at hb
      exact Nat.le_of_eq (Option.some.inj hb)
  · rintro ⟨a, ha, hleast⟩
    have hi := (hordered.members i).mpr (by rw [ha]; nofun)
    cases hlast : list.getLast? with
    | none =>
      rw [List.getLast?_eq_none_iff.mp hlast] at hi
      cases hi
    | some k =>
      obtain ⟨b, hb⟩ :=
        Option.ne_none_iff_exists'.mp ((hordered.members k).mp (List.mem_of_getLast? hlast))
      obtain ⟨front, rfl⟩ := List.getLast?_eq_some_iff.mp hlast
      rcases List.mem_append.mp hi with hfront | hself
      · have hlt :=
          (List.pairwise_append.mp hordered.ordered).2.2 i hfront k List.mem_cons_self a b ha hb
        exact absurd (hleast k b hb) (Nat.not_le.mpr hlt)
      · rw [List.mem_singleton.mp hself]

end Ordered

section Kept

structure Kept (s : State) (hidden : Int) (list : List Nat) : Prop where
  represents : Represents s.links list
  ordered : Ordered (fun i => (s.Sites i).file) s.opened list
  count : s.SITEcount + hidden = list.length
  steady : ∀ i cp, (s.Sites i).Channel = some cp → (s.Sites i).Buffered = false ∧ cp.closed = false

def Within (MaxOutgoing : Nat) (s : State) : Prop :=
    ∃ list, s.Kept 0 list ∧ list.length ≤ MaxOutgoing

variable {MaxOutgoing : Nat} {s s' : State} {hidden : Int} {list : List Nat} {i : Nat} {sp : SITE}
    {cp : CHANNEL}
  {result unbuffered restarted : OpenResult} {writes : Nat → Nat} {count : Nat}

theorem file_of_none (hchannel : sp.Channel = none) : sp.file = none := by
  rw [SITE.file, hchannel]
  split <;> rfl

theorem file_of_some (hchannel : sp.Channel = some cp) (hbuffered : sp.Buffered = false)
    (hclosed : cp.closed = false) :
    sp.file = some cp.serial := by
  rw [SITE.file, hbuffered, hchannel]
  simp [hclosed]

theorem file_setSite (s : State) (i : Nat) (sp : SITE) :
    (fun j => ((s.setSite i sp).Sites j).file) = update (fun j => (s.Sites j).file) i sp.file := by
  funext j
  by_cases hj : j = i
  · rw [hj, setSite_self, update_self]
  · rw [setSite_of_ne s hj, update_of_ne hj]

theorem initial_kept (Name : Nat → Option String) (Flushpoint : Nat → Nat) :
    (initial Name Flushpoint).Kept 0 [] where
  represents := .empty
  ordered :=
    { members := fun _ => ⟨nofun, fun hfile => absurd (file_of_none rfl) hfile⟩
      ordered := .nil
      recent := nofun }
  count := rfl
  steady := nofun

section Keeping

variable (hkept : s.Kept hidden list)

include hkept

theorem Kept.mem_iff : i ∈ list ↔ (s.Sites i).Channel ≠ none := by
  rw [hkept.ordered.members i]
  constructor
  · exact fun hfile hchannel => hfile (file_of_none hchannel)
  · intro hchannel
    obtain ⟨cp, hcp⟩ := Option.ne_none_iff_exists'.mp hchannel
    obtain ⟨hbuffered, hclosed⟩ := hkept.steady i cp hcp
    rw [file_of_some hcp hbuffered hclosed]
    nofun

theorem Kept.not_mem (hchannel : (s.Sites i).Channel = none) : i ∉ list :=
  fun hmem => hkept.mem_iff.mp hmem hchannel

theorem Kept.channel_of_buffered (hbuffered : (s.Sites i).Buffered = true) :
    (s.Sites i).Channel = none := by
  by_contra hchannel
  obtain ⟨cp, hcp⟩ := Option.ne_none_iff_exists'.mp hchannel
  rw [(hkept.steady i cp hcp).1] at hbuffered
  cases hbuffered

theorem Kept.linked_iff : s.linked i ↔ i ∈ list := hkept.represents.linked_iff

theorem Kept.setSite (hfile : sp.file = (s.Sites i).file)
    (hsteady : ∀ cp, sp.Channel = some cp → sp.Buffered = false ∧ cp.closed = false) :
    (s.setSite i sp).Kept hidden list := by
  refine ⟨hkept.represents, ?_, hkept.count, fun j cp hcp => ?_⟩
  · rw [file_setSite, hfile, update_eq_self]
    exact hkept.ordered
  · by_cases hj : j = i
    · rw [hj, setSite_self] at hcp ⊢
      exact hsteady cp hcp
    · rw [setSite_of_ne s hj] at hcp ⊢
      exact hkept.steady j cp hcp

theorem Kept.refill (out : CHANNEL → List UInt8) (hbuffered : sp.Buffered = (s.Sites i).Buffered)
    (hchannel : sp.Channel = (s.Sites i).Channel.map fun cp => { cp with Out := out cp }) :
    (s.setSite i sp).Kept hidden list := by
  cases hold : (s.Sites i).Channel with
  | none =>
    rw [hold] at hchannel
    refine hkept.setSite ((file_of_none hchannel).trans (file_of_none hold).symm) fun cp hcp => ?_
    rw [hchannel] at hcp
    cases hcp
  | some cp =>
    rw [hold] at hchannel
    obtain ⟨hnot, hclosed⟩ := hkept.steady i cp hold
    refine hkept.setSite ?_ fun cp' hcp' => ?_
    · rw [file_of_some hold hnot hclosed, file_of_some hchannel (hbuffered.trans hnot) hclosed]
    · cases hchannel.symm.trans hcp'
      exact ⟨hbuffered.trans hnot, hclosed⟩

theorem Kept.remove (hchannel : sp.Channel = none) :
    ((s.SITEunlink i).setSite i sp).Kept hidden (list.erase i) := by
  refine ⟨hkept.represents.unlink i, ?_, ?_, fun j cp hcp => ?_⟩
  · rw [file_setSite, SITEunlink_Sites, file_of_none hchannel]
    exact hkept.ordered.erase hkept.represents.nodup
  · have hcount := hkept.count
    rw [setSite_SITEcount, SITEunlink]
    dsimp only
    split
    next hlinked =>
      have hmem := hkept.linked_iff.mp hlinked
      have hpos := List.length_pos_of_mem hmem
      rw [List.length_erase_of_mem hmem]
      omega
    next hlinked => rw [List.erase_of_not_mem (mt hkept.linked_iff.mpr hlinked), hcount]
  · by_cases hj : j = i
    · rw [hj, setSite_self, hchannel] at hcp
      cases hcp
    · rw [setSite_of_ne _ hj, SITEunlink_Sites] at hcp ⊢
      exact hkept.steady j cp hcp

theorem Kept.unlink (hchannel : (s.Sites i).Channel = none) :
    (s.SITEunlink i).Kept hidden list := by
  have hremove := hkept.remove (i := i) hchannel
  rwa [State.setSite, SITEunlink_Sites, update_eq_self,
    List.erase_of_not_mem (hkept.not_mem hchannel)]
    at hremove

theorem Kept.add (hchannel : (s.Sites i).Channel = none)
    (hbuffered : (s.Sites i).Buffered = false) : ((s.SITEmovetohead i).CHANcreate i).Kept hidden
    (i :: list) := by
  have hi := hkept.not_mem hchannel
  have hnot : ¬ (s.links.head = none ∧ (s.links.next i ≠ none ∨ s.links.prev i ≠ none)) := by
    rintro ⟨-, hlinks⟩
    exact hi (hkept.represents.linked_iff.mp (hlinks.imp_right .inl))
  have hmove :
      s.SITEmovetohead i = { s with links := s.links.push i, SITEcount := s.SITEcount + 1 } := by
    rw [SITEmovetohead, if_neg hnot]
  rw [hmove, CHANcreate]
  refine ⟨hkept.represents.push hi, ?_, ?_, fun j cp hcp => ?_⟩
  · change Ordered (fun j =>
      ((s.setSite i { s.Sites i with Channel := some ⟨[], false, s.opened⟩ }).Sites j).file)
      (s.opened + 1) (i :: list)
    have hfile :
        SITE.file { s.Sites i with Channel := some ⟨[], false, s.opened⟩ } = some s.opened := by
      simp [SITE.file, hbuffered]
    rw [file_setSite, hfile]
    exact hkept.ordered.cons hi
  · have hcount := hkept.count
    dsimp only [setSite_SITEcount, List.length_cons]
    push_cast
    omega
  · dsimp only at hcp ⊢
    by_cases hj : j = i
    · rw [hj, setSite_self] at hcp ⊢
      cases hcp
      exact ⟨hbuffered, rfl⟩
    · rw [setSite_of_ne _ hj] at hcp ⊢
      exact hkept.steady j cp hcp

end Keeping

section Calls

theorem Kept.setup (hkept : s.Kept hidden list) (hchannel : (s.Sites i).Channel = none)
    (MaxOutgoing : Nat) (result : OpenResult) :
    (s.SITEsetup MaxOutgoing i result).1.Kept hidden list ∧
        ((s.SITEsetup MaxOutgoing i result).1.Sites i).Channel = none ∧
        (!(s.SITEsetup MaxOutgoing i result).2 ||
          ((s.SITEsetup MaxOutgoing i result).1.Sites i).Buffered) ∨
      s.SITEcount < MaxOutgoing ∧ result = .opened ∧
        (s.SITEsetup MaxOutgoing i result).1.Kept hidden (i :: list) ∧
        (s.SITEsetup MaxOutgoing i result).2 = true ∧
        (s.SITEsetup MaxOutgoing i result).1.Sites i =
          { s.Sites i with Buffered := false, Channel := some ⟨[], false, s.opened⟩ } := by
  have hbuffer {t : State} (ht : t.Kept hidden list) (hnone : (t.Sites i).Channel = none) :
      (t.SITEbuffer i).Kept hidden list ∧ ((t.SITEbuffer i).Sites i).Channel = none ∧
        ((t.SITEbuffer i).Sites i).Buffered = true := by
    have hremove : (t.SITEbuffer i).Kept hidden (list.erase i) := ht.remove rfl
    rw [List.erase_of_not_mem (ht.not_mem hnone)] at hremove
    refine ⟨hremove, ?_, ?_⟩ <;> simp [SITEbuffer]
  rw [SITEsetup]
  split
  · obtain ⟨hkept', hnone, hbuffered⟩ := hbuffer hkept hchannel
    exact .inl ⟨hkept', hnone, by simp [hbuffered]⟩
  next hcount =>
    have hsame : (s.setSite i { s.Sites i with Buffered := false }).Kept hidden list := by
      refine hkept.setSite ?_ fun cp hcp => ?_
      · rw [file_of_none hchannel, @file_of_none { s.Sites i with Buffered := false } hchannel]
      · rw [hchannel] at hcp
        cases hcp
    cases result with
    | opened =>
      refine .inr ⟨Int.not_le.mp hcount, rfl,
        hsame.add (by rw [setSite_self]; exact hchannel) (by rw [setSite_self]),
        rfl, ?_⟩
      simp [CHANcreate, SITEmovetohead_opened]
    | EMFILE =>
      obtain ⟨hkept', hnone, hbuffered⟩ := hbuffer hsame (by rw [setSite_self]; exact hchannel)
      exact .inl ⟨hkept', hnone, by simp [hbuffered]⟩
    | failed => exact .inl ⟨hsame, by simp [hchannel], rfl⟩

theorem write_channel (s : State) (i count : Nat) : ((s.write i count).Sites i).Channel =
    (s.Sites i).Channel.map fun cp =>
    { cp with Out := cp.Out.drop (if cp.closed then 0 else count) } := by
  rw [State.write]
  split
  next hchannel =>
    rw [hchannel]
    rfl
  next cp hcp =>
    rw [hcp, setSite_self]
    rfl

theorem Kept.write (hkept : s.Kept hidden list) (i count : Nat) :
    (s.write i count).Kept hidden list := by
  rw [State.write]
  split
  · exact hkept
  next cp hcp =>
    exact hkept.refill (fun cp => cp.Out.drop (if cp.closed then 0 else count)) rfl (by rw [hcp]; rfl)

theorem Kept.bufferoldest (hkept : s.Kept 0 list) (hlimit : list.length ≤ MaxOutgoing)
    (hbuffer : s.SITEbufferoldest writes = .ok s') : s'.Within MaxOutgoing := by
  rcases SITEbufferoldest_cases hbuffer with ⟨htail, rfl⟩ | ⟨i, htail,
    ⟨hbuffered, rfl⟩ | ⟨-, cp, hcp, count, rfl⟩⟩
  · refine ⟨list, ⟨hkept.represents, hkept.ordered, ?_, hkept.steady⟩, hlimit⟩
    rw [hkept.represents.tail] at htail
    rw [List.getLast?_eq_none_iff.mp htail]
    rfl
  · exact ⟨list, hkept.unlink (hkept.channel_of_buffered hbuffered), hlimit⟩
  · exact ⟨list.erase i, hkept.remove rfl, Nat.le_trans List.length_erase_le hlimit⟩

theorem bufferoldest_buffered (hbuffer : s.SITEbufferoldest writes = .ok s')
    (hbuffered : (s.Sites i).Buffered = true) :
    (s'.Sites i).Buffered = true := by
  rcases SITEbufferoldest_cases hbuffer with ⟨-, rfl⟩ | ⟨j, -, ⟨-, rfl⟩ | ⟨-, cp, -, count, rfl⟩⟩
  · exact hbuffered
  · exact hbuffered
  · by_cases hj : i = j
    · rw [hj, setSite_self]
    · rw [setSite_of_ne _ hj]
      exact hbuffered

theorem Kept.flushcheck (hkept : s.Kept 0 list) (hlimit : list.length ≤ MaxOutgoing)
    (hflush : s.SITEflushcheck MaxOutgoing i result writes = .ok s') :
    s'.Within MaxOutgoing := by
  rw [SITEflushcheck] at hflush
  split at hflush
  next hbuffered =>
    split at hflush
    · cases hflush
      exact ⟨list, hkept, hlimit⟩
    · split at hflush
      · cases hflush
      next t hroom =>
        have hkeeps (t t' : State) (ht : t.Within MaxOutgoing ∧ (t.Sites i).Buffered = true)
            (hbuffer : t.SITEbufferoldest writes = .ok t') :
              t'.Within MaxOutgoing ∧ (t'.Sites i).Buffered = true := by
          obtain ⟨⟨list, hkept, hlimit⟩, hbuffered⟩ := ht
          exact ⟨hkept.bufferoldest hlimit hbuffer, bufferoldest_buffered hbuffer hbuffered⟩
        obtain ⟨⟨⟨list₁, hkept₁, hlimit₁⟩, hbuffered₁⟩, hcount⟩ := makeRoom_keeps hkeeps
          ⟨⟨list, hkept, hlimit⟩, hbuffered⟩ hroom
        dsimp only at hflush
        rcases hkept₁.setup (hkept₁.channel_of_buffered hbuffered₁) MaxOutgoing result
          with ⟨hsetup, -, hleft⟩ | ⟨-, -, hsetup, hok, hsite⟩
        · rw [if_pos hleft] at hflush
          cases hflush
          exact ⟨list₁, hsetup, hlimit₁⟩
        · rw [if_neg (by rw [hok, hsite]; simp)] at hflush
          cases hflush
          have hlength := hkept₁.count
          refine ⟨i :: list₁, hsetup.refill _ rfl rfl, ?_⟩
          rw [List.length_cons]
          omega
  · split at hflush
    · cases hflush
    · cases hflush
      exact ⟨list, hkept, hlimit⟩

theorem Kept.unbufferToFlush (hkept : s.Kept 0 list) (MaxOutgoing i : Nat)
    (unbuffered : OpenResult) :
    (s.unbufferToFlush MaxOutgoing i unbuffered).Kept 0 list ∧
        ((s.unbufferToFlush MaxOutgoing i unbuffered).Sites i).Channel = (s.Sites i).Channel ∨
      s.GivenFile MaxOutgoing i unbuffered ∧
        (s.unbufferToFlush MaxOutgoing i unbuffered).Kept 0 (i :: list) ∧
        ((s.unbufferToFlush MaxOutgoing i unbuffered).Sites i).Channel =
          some ⟨(s.Sites i).Buffer, false, s.opened⟩ := by
  rw [State.unbufferToFlush]
  split
  next hbuffered =>
    dsimp only
    have hnone := hkept.channel_of_buffered hbuffered
    have hhidden : ({ s with SITEcount := 0 } : State).Kept s.SITEcount list :=
      ⟨hkept.represents, hkept.ordered, by have := hkept.count; dsimp only; omega, hkept.steady⟩
    have hshow {t : State} {list' : List Nat} (ht : t.Kept s.SITEcount list') :
        ({ t with SITEcount := t.SITEcount + s.SITEcount } : State).Kept 0 list' :=
      ⟨ht.represents, ht.ordered, by have := ht.count; dsimp only; omega, ht.steady⟩
    rcases hhidden.setup hnone MaxOutgoing unbuffered
      with ⟨hsetup, hchannel, hleft⟩ | ⟨hroom, hopened, hsetup, hok, hsite⟩
    · rw [if_pos hleft]
      exact .inl ⟨hshow hsetup, hchannel.trans hnone.symm⟩
    · rw [if_neg (by rw [hok, hsite]; simp)]
      refine .inr ⟨⟨hbuffered, hopened, Int.ofNat_lt.mp hroom⟩, hshow ?_, ?_⟩
      · rw [swapBuffers, hsite]
        exact hsetup.refill (fun _ => (s.Sites i).Buffer) (by rw [hsite]) (by rw [hsite]; rfl)
      · simp [swapBuffers, hsite]
  · exact .inl ⟨hkept, rfl⟩

theorem Kept.rebuffer (hkept : s.Kept 0 list) (out : List UInt8) :
    (((s.SITEbuffer i).keepPending i out).SITEunlink i).Kept 0 (list.erase i) := by
  have hremove : (s.SITEbuffer i).Kept 0 (list.erase i) := hkept.remove rfl
  have hsite : (s.SITEbuffer i).Sites i =
    { s.Sites i with Buffered := true, Channel := none, Buffer := [] } := by
    rw [SITEbuffer, setSite_self]
    rfl
  rw [keepPending, if_pos (by rw [hsite])]
  split
  · exact hremove.unlink (by rw [hsite])
  · refine (hremove.refill CHANNEL.Out ?_ ?_).unlink ?_
    · rfl
    · rw [hsite]
      rfl
    · rw [setSite_self, hsite]

theorem Kept.reopen (hkept : s.Kept 0 [i]) (out : List UInt8) :
    (((((s.setSite i { s.Sites i with Buffered := false }).SITEmovetohead i).CHANcreate
      i).keepPending i out).SITEunlink
      i).Kept 0 [i] := by
  have hhead : s.links.head = some i := hkept.represents.head
  have hlinked : (s.links.push i).next i ≠ none := by
    rw [Links.push]
    dsimp only
    rw [update_self, hhead]
    rintro ⟨⟩
  have hstate :
      (((((s.setSite i { s.Sites i with Buffered := false }).SITEmovetohead i).CHANcreate
        i).keepPending i
      out).SITEunlink i) =
      { Sites := update s.Sites i
          { s.Sites i with Buffered := false, Channel := some ⟨out, false, s.opened⟩ }
        links := (s.links.push i).unlink i
        SITEcount := s.SITEcount
        opened := s.opened + 1 } := by
    simp [SITEmovetohead, hhead, CHANcreate, keepPending, SITEunlink, State.setSite,
      linked, hlinked]
  rw [hstate]
  refine ⟨hkept.represents.relink, ?_, hkept.count, fun j cp hcp => ?_⟩
  · have herase := (hkept.ordered.erase (i := i) (List.nodup_singleton i)).cons (i := i) (by simp)
    rw [update_idem, List.erase_cons_head] at herase
    have hfile :
        SITE.file { s.Sites i with Buffered := false, Channel := some ⟨out, false, s.opened⟩ } =
        some s.opened := by
      simp [SITE.file]
    change Ordered (fun j => ((s.setSite i
      { s.Sites i with Buffered := false, Channel := some ⟨out, false, s.opened⟩ }).Sites j).file)
        (s.opened + 1) [i]
    rw [file_setSite, hfile]
    exact herase
  · dsimp only at hcp ⊢
    by_cases hj : j = i
    · rw [hj, update_self] at hcp ⊢
      obtain rfl := Option.some.inj hcp
      exact ⟨rfl, rfl⟩
    · rw [update_of_ne hj] at hcp ⊢
      exact hkept.steady j cp hcp

theorem Kept.restart (hkept : s.Kept 0 list) (hi : i ∈ list)
    (hlimit : list.length ≤ MaxOutgoing + 1)
    (hallowed : MaxOutgoing ≤ s.SITEcount ∨ restarted = .EMFILE ∨ s.SITEcount = 1 ∧
      restarted = .opened) :
    (s.restart MaxOutgoing i restarted).Within MaxOutgoing := by
  obtain ⟨cp, hcp⟩ := Option.ne_none_iff_exists'.mp (hkept.mem_iff.mp hi)
  have hcount := hkept.count
  have hlength : (list.erase i).length ≤ MaxOutgoing := by
    rw [List.length_erase_of_mem hi]
    omega
  rw [State.restart, hcp, SITEsetup]
  dsimp only
  split
  · exact ⟨list.erase i, hkept.rebuffer cp.Out, hlength⟩
  next hroom =>
    rcases hallowed with hfull | rfl | ⟨hone, rfl⟩
    · exact absurd hfull hroom
    · have hsame : (s.setSite i { s.Sites i with Buffered := false }).Kept 0 list := by
        refine hkept.refill CHANNEL.Out ?_ ?_
        · exact (hkept.steady i cp hcp).1.symm
        · rw [hcp]
          rfl
      exact ⟨list.erase i, hsame.rebuffer cp.Out, hlength⟩
    · have hsingle : list = [i] := by
        obtain ⟨j, rfl⟩ := List.length_eq_one_iff.mp (show list.length = 1 by omega)
        rw [List.mem_singleton.mp hi]
      subst hsingle
      refine ⟨[i], hkept.reopen cp.Out, ?_⟩
      rw [List.length_singleton]
      omega

theorem Kept.restart_closed (hkept : s.Kept 0 list) (hchannel : (s.Sites i).Channel = none)
    (hlimit : list.length ≤ MaxOutgoing) :
    (s.restart MaxOutgoing i restarted).Within MaxOutgoing := by
  rw [State.restart, hchannel]
  rcases hkept.setup hchannel MaxOutgoing restarted with
    ⟨hsetup, -, -⟩ | ⟨hroom, -, hsetup, -, -⟩
  · exact ⟨list, hsetup, hlimit⟩
  · have hcount := hkept.count
    refine ⟨i :: list, hsetup, ?_⟩
    rw [List.length_cons]
    omega

theorem Kept.shut (hkept : s.Kept 0 list) (i : Nat) :
    (s.shut i).Kept 0 list ∧ (∀ cp, (s.Sites i).Channel = some cp → cp.Out ≠ []) ∨ (s.shut i).Kept 0
    (list.erase i) := by
  rw [State.shut]
  split
  next hchannel => exact .inl ⟨hkept, fun cp hcp => by rw [hchannel] at hcp; cases hcp⟩
  next cp hcp =>
    split
    next hleft => exact .inl ⟨hkept,
      fun cp' hcp' => by rw [hcp] at hcp'; exact Option.some.inj hcp' ▸ hleft⟩
    · exact .inr (hkept.remove rfl)

theorem Kept.free (hkept : s.Kept 0 list) : (s.SITEfree i).Kept 0 (list.erase i) := by
  have hremove :
      ((s.setSite i { s.Sites i with Channel := none }).SITEunlink i).Kept 0 (list.erase i) :=
    hkept.remove rfl
  have hnone : (((s.setSite i { s.Sites i with Channel := none }).SITEunlink i).Sites i).Channel =
      none := by simp
  refine hremove.refill CHANNEL.Out ?_ ?_
  · rfl
  · rw [hnone]
    rfl

theorem write_out (hcp : (s.Sites i).Channel = some cp) (hclosed : cp.closed = false) :
    ((s.write i count).Sites i).Channel = some { cp with Out := cp.Out.drop count } := by
  rw [write_channel, hcp, Option.map_some, hclosed]
  rfl

theorem Kept.flush (hkept : s.Kept 0 list) (hlimit : list.length ≤ MaxOutgoing) {Restart : Bool}
    (hallowed : s.Allowed MaxOutgoing (.SITEflush i Restart unbuffered restarted count)) :
    (s.SITEflush MaxOutgoing i Restart unbuffered restarted count).Within MaxOutgoing := by
  have hcount := hkept.count
  rw [SITEflush]
  split
  · exact ⟨list, hkept, hlimit⟩
  next hname =>
    rcases hkept.unbufferToFlush MaxOutgoing i unbuffered with
      ⟨hopen, hchannel⟩ | ⟨hgiven, hopen, hchannel⟩
    · have hwritten := hopen.write i count
      cases Restart with
      | true =>
        rw [if_pos rfl]
        cases hsite : (s.Sites i).Channel with
        | none => exact hwritten.restart_closed (by rw [write_channel, hchannel, hsite]; rfl) hlimit
        | some cp =>
          have hbuffered : ¬ s.GivenFile MaxOutgoing i unbuffered := fun hgiven => by
            rw [hkept.channel_of_buffered hgiven.1] at hsite
            cases hsite
          have hsome : (s.Sites i).Channel ≠ none := by rw [hsite]; nofun
          have hallowed := hallowed hname (.inl hsome)
          rw [files, if_neg hbuffered] at hallowed
          have hfiles := hwritten.count
          refine hwritten.restart (hkept.mem_iff.mpr hsome) (by omega) ?_
          rwa [show ((s.unbufferToFlush MaxOutgoing i unbuffered).write i count).SITEcount =
            s.SITEcount + 0 by omega]
      | false =>
        rw [if_neg (by simp)]
        rcases hwritten.shut i with ⟨hshut, -⟩ | hshut
        · exact ⟨list, hshut, hlimit⟩
        · exact ⟨list.erase i, hshut, Nat.le_trans List.length_erase_le hlimit⟩
    · have hwritten := hopen.write i count
      have hlonger : (i :: list).length ≤ MaxOutgoing + 1 := Nat.succ_le_succ hlimit
      cases Restart with
      | true =>
        rw [if_pos rfl]
        have hallowed := hallowed hname (.inr hgiven)
        rw [files, if_pos hgiven] at hallowed
        have hfiles := hwritten.count
        rw [List.length_cons] at hfiles
        refine hwritten.restart List.mem_cons_self hlonger ?_
        rwa [show ((s.unbufferToFlush MaxOutgoing i unbuffered).write i count).SITEcount =
          s.SITEcount + 1 by omega]
      | false =>
        rw [if_neg (by simp)]
        rcases hwritten.shut i with ⟨hshut, hleft⟩ | hshut
        · refine ⟨i :: list, hshut, ?_⟩
          rcases hallowed hname hgiven with hroom | hall
          · rw [List.length_cons]
            omega
          · exact absurd (List.drop_eq_nil_of_le hall) (hleft _ (write_out hchannel rfl))
        · exact ⟨_, hshut, by rw [List.erase_cons_head]; exact hlimit⟩

theorem Kept.drop (hkept : s.Kept 0 list) (MaxOutgoing i : Nat) (unbuffered : OpenResult)
    (count : Nat) :
    ∃ list', (s.SITEdrop MaxOutgoing i unbuffered count).Kept 0 list' ∧
      list'.length ≤ list.length := by
  rw [SITEdrop, SITEflush]
  split
  · exact ⟨_, hkept.free, List.length_erase_le⟩
  · dsimp only
    rw [if_neg (by simp)]
    rcases hkept.unbufferToFlush MaxOutgoing i unbuffered with
      ⟨hopen, -⟩ | ⟨-, hopen, -⟩
    · rcases (hopen.write i count).shut i with ⟨hshut, -⟩ | hshut
      · exact ⟨_, hshut.free, List.length_erase_le⟩
      · exact ⟨_, hshut.free, Nat.le_trans List.length_erase_le List.length_erase_le⟩
    · rcases (hopen.write i count).shut i with ⟨hshut, -⟩ | hshut
      · exact ⟨_, hshut.free, Nat.le_of_eq (congrArg List.length (List.erase_cons_head ..))⟩
      · exact ⟨_, hshut.free, by rw [List.erase_cons_head]; exact List.length_erase_le⟩

theorem Kept.writefromflags (hkept : s.Kept 0 list) (hlimit : list.length ≤ MaxOutgoing)
    {line : List UInt8} (hwrite : s.SITEwritefromflags MaxOutgoing i line result writes = .ok s') :
    s'.Within MaxOutgoing := by
  rw [SITEwritefromflags] at hwrite
  split at hwrite
  next hbuffered =>
    refine (hkept.refill CHANNEL.Out ?_ ?_).flushcheck hlimit hwrite
    · rfl
    · rw [hkept.channel_of_buffered hbuffered]
      rfl
  · split at hwrite
    · cases hwrite
      exact ⟨list, hkept, hlimit⟩
    next cp hcp =>
      refine (hkept.refill (fun cp => cp.Out ++ line) ?_ ?_).flushcheck hlimit hwrite
      · rfl
      · rw [hcp]
        rfl

theorem Kept.step (hkept : s.Kept 0 list) (hlimit : list.length ≤ MaxOutgoing) {call : Call}
    (hallowed : s.Allowed MaxOutgoing call) (hstep : s.step MaxOutgoing call = .ok s') :
    s'.Within MaxOutgoing := by
  cases call with
  | SITEsetup i result =>
    cases hstep
    rcases hkept.setup hallowed MaxOutgoing result with
      ⟨hsetup, -, -⟩ | ⟨hroom, -, hsetup, -, -⟩
    · exact ⟨list, hsetup, hlimit⟩
    · have hcount := hkept.count
      refine ⟨i :: list, hsetup, ?_⟩
      rw [List.length_cons]
      omega
  | SITEflushcheck i result writes => exact hkept.flushcheck hlimit hstep
  | SITEbufferoldest writes => exact hkept.bufferoldest hlimit hstep
  | SITEflush i Restart unbuffered restarted count =>
    cases hstep
    exact hkept.flush hlimit hallowed
  | SITEdrop i unbuffered count =>
    cases hstep
    obtain ⟨list', hkept', hlength⟩ := hkept.drop MaxOutgoing i unbuffered count
    exact ⟨list', hkept', Nat.le_trans hlength hlimit⟩
  | SITEwritefromflags i line result writes => exact hkept.writefromflags hlimit hstep
  | write i count =>
    cases hstep
    exact ⟨list, hkept.write i count, hlimit⟩

theorem Kept.proper (hkept : s.Kept 0 list) (hlimit : list.length ≤ MaxOutgoing) :
    s.Proper MaxOutgoing list where
  represents := hkept.represents
  members := hkept.ordered.members
  ordered := hkept.ordered.ordered
  count := (Int.add_zero _).symm.trans hkept.count
  limit := hlimit
  oldest i := by
    rw [hkept.represents.tail]
    exact hkept.ordered.getLast

end Calls

end Kept

/-- As long as no site is linked twice and no file is opened without room, the list is that of the
open files in every state of a run, and no call goes on for ever. -/
theorem run_siteList_proper (MaxOutgoing : Nat) (Name : Nat → Option String)
    (Flushpoint : Nat → Nat) (calls : List Call)
    (hallowed : Meets (State.step MaxOutgoing) (State.Allowed MaxOutgoing) calls
      (initial Name Flushpoint)) :
    (∀ s, run (State.step MaxOutgoing) calls (initial Name Flushpoint) = .ok s →
      ∃ list, s.Proper MaxOutgoing list) ∧
      (0 < MaxOutgoing → run (State.step MaxOutgoing) calls (initial Name Flushpoint) ≠
        .error .endless) := by
  refine ⟨fun s hrun => ?_, fun hmax => ?_⟩
  · have hkeeps (s : State) (call : Call) (s' : State) (hs : s.Within MaxOutgoing)
        (hcall : s.Allowed MaxOutgoing call)
        (hstep : s.step MaxOutgoing call = .ok s') : s'.Within MaxOutgoing := by
      obtain ⟨list, hkept, hlimit⟩ := hs
      exact hkept.step hlimit hcall hstep
    obtain ⟨list, hkept, hlimit⟩ :=
      of_run_of_meets hkeeps ⟨[], initial_kept Name Flushpoint, Nat.zero_le _⟩ hallowed hrun
    exact ⟨list, hkept.proper hlimit⟩
  · have hstep (s : State) (call : Call) (_ : True) (_ : s.Allowed MaxOutgoing call) :
        s.step MaxOutgoing call ≠ .error .endless := step_ne_endless hmax call
    exact run_ne_error hstep (fun _ _ _ _ _ => trivial) calls trivial hallowed

def restartedFull : List Call :=
  [.SITEsetup 0 .opened, .SITEsetup 1 .opened, .SITEflush 1 true .opened .opened 0]

theorem run_siteList_proper_full :
    ∃ s, run (State.step 2) restartedFull (initial (fun _ => some "feed") fun _ => 1) = .ok s ∧
    ∃ list, s.Proper 2 list := by
  refine ⟨_, rfl, (run_siteList_proper 2 _ _ restartedFull ?_).1 _ rfl⟩
  refine ⟨rfl, fun s hs => ?_⟩
  obtain rfl := Except.ok.inj hs
  refine ⟨rfl, fun s hs => ?_⟩
  obtain rfl := Except.ok.inj hs
  exact ⟨fun _ _ => .inl (by decide), fun _ _ => trivial⟩

/-- The oldest of two sites is restarted while there is room for a third file: it is lost from the
list. -/
theorem not_proper_restarted : ¬ ∀ calls s,
    run (State.step 3) calls (initial (fun _ => some "feed") fun _ => 1) = .ok s →
      ∃ list, s.Proper 3 list := by
  intro hproper
  obtain ⟨list, hlist⟩ :=
    hproper [.SITEsetup 0 .opened, .SITEsetup 1 .opened, .SITEflush 0 true .opened .opened 0] _ rfl
  have hmem : 0 ∈ list := (hlist.members 0).mpr (by decide)
  have hlinked := hlist.represents.linked_iff.mpr hmem
  revert hlinked
  decide

end State

end Inn.Innd.Feeds
