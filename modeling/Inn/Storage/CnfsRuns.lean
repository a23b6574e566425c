import Inn.Storage.CnfsBounds

/-!
# Runs of articles

Every article of a run is written inside its buffer when those that make a buffer roll
over have room where they go. Nothing is checked again after a buffer has rolled over.
-/

namespace Inn.Storage.Cnfs

open Foundation.Outcomes
open Foundation.Runs
open Function (update update_self)

section Placing

variable {n k : Nat} {mode : Mode} {tab : Fin n → CYCBUFF} {b c d : CYCBUFF} {now : Int64}

def found (mode : Mode) (now : Int64) (calls : Calls) (cycbuff : CYCBUFF) : Option CYCBUFF :=
  match ready mode now calls cycbuff with
  | .ok (true, cycbuff) => some cycbuff
  | _ => none

def goesTo (mode : Mode) (tab : Fin n → CYCBUFF) (metacycbuff : METACYCBUFF n) (request : Request) :
    Option CYCBUFF :=
  (found mode request.now request.first (tab metacycbuff.current)).bind fun b =>
    if left b < request.article.len then
      if metacycbuff.metamode = .INTERLEAVE ∨ metacycbuff.advance.current = metacycbuff.current then
        some { b with free := b.minartoffset }
      else found mode request.now request.second (tab metacycbuff.advance.current)
    else some b

structure SamePlace (a b : CYCBUFF) : Prop where
  free : a.free = b.free
  blksz : a.blksz = b.blksz
  len : a.len = b.len

theorem SamePlace.trans (hab : SamePlace b c) (hbc : SamePlace c d) : SamePlace b d :=
  ⟨hab.free.trans hbc.free, hab.blksz.trans hbc.blksz, hab.len.trans hbc.len⟩

theorem flush_samePlace {r : Bool × CYCBUFF} (h : CNFSflushhead true now b = .ok r) :
    SamePlace r.2 b := by
  unfold CNFSflushhead at h
  split at h
  next =>
    cases h
    exact ⟨rfl, rfl, rfl⟩
  next =>
    split at h
    next =>
      cases h
      exact ⟨rfl, rfl, rfl⟩
    next =>
      split at h
      next =>
        dsimp only at h
        split at h
        next =>
          cases h
          exact ⟨rfl, rfl, rfl⟩
        next => cases h
      next =>
        cases h
        exact ⟨rfl, rfl, rfl⟩

theorem clearBlocks_frame (start stop : Int) (b : CYCBUFF) :
    Yields (fun _ => True) (WithWords b) (clearBlocks start stop b) := by
  refine yields_foldlM _ (fun c hc middle _ => Yields.map ?_) ⟨_, rfl⟩
  obtain ⟨words, rfl⟩ := hc
  unfold CNFSUsedBlock
  split
  next => exact ⟨words, rfl⟩
  next =>
    split
    next => exact ⟨words, rfl⟩
    next =>
      dsimp only
      split
      next => trivial
      next =>
        split
        next => trivial
        next => exact ⟨_, rfl⟩

theorem rollover_frame (hroll : rollover b = .ok c) :
    c.needflush = true ∧ c.minartoffset = b.minartoffset ∧
    SamePlace c { b with free := b.minartoffset } := by
  have hframe :
      Yields (fun _ => True) (fun c => c.needflush = true ∧ c.minartoffset = b.minartoffset ∧
      SamePlace c { b with free := b.minartoffset }) (rollover b) := by
    refine (clearBlocks_frame _ _ b).bind fun c hc => ?_
    obtain ⟨words, rfl⟩ := hc
    exact ⟨rfl, rfl, rfl, rfl, rfl⟩
  exact hframe.of_ok hroll

theorem Sound.flush_eq (h : Sound b) (hneed : b.needflush = true) :
    CNFSflushhead true now b = .ok (true, Cnfs.flushed now b) := by
  rw [CNFSflushhead_opened (h.kept.opened (h.needflush hneed)) (h.needflush hneed), hneed]
  rfl

theorem Sound.found_again (h : Sound b) (hneed : b.needflush = true)
    (hshut : shut mode now (Cnfs.flushed now b) = .ok c)
    {calls : Calls} (hready : ready mode now calls c = .ok (true, d)) : SamePlace d b := by
  have hmapped := h.needflush hneed
  have hflushed : Sound (Cnfs.flushed now b) := h.flushed hmapped
  by_cases hpreopen : mode.SMpreopen = true
  · rw [shut, if_pos hpreopen] at hshut
    rw [ready, if_pos hpreopen] at hready
    cases hshut
    obtain rfl := (Prod.mk.inj (Except.ok.inj hready)).2
    exact ⟨rfl, rfl, rfl⟩
  · rw [shut, if_neg hpreopen] at hshut
    rw [ready, if_neg hpreopen] at hready
    obtain ⟨hc, -⟩ := (sound_maintained.shutdown now hflushed hmapped).of_ok hshut
    rw [CNFSshutdowncycbuff, CNFSflushhead_eq rfl] at hshut
    cases hshut
    rcases CNFSinit_disks_cases hc.kept.passes now calls with
      hinit | ⟨closed, hinit, -⟩ | ⟨read, hread, hpath, hfront, hinit⟩
    · rw [hinit] at hready
      cases hready
    · rw [hinit] at hready
      cases hready
    · have hopened := (h.kept.opened hmapped).updated_now now
      obtain ⟨-, hfreeOf, hblkszOf⟩ := passes_rpx hopened h.kept.isOffset
      have hfree : read.free = b.free := hread.free.trans hfreeOf
      have hblksz : read.blksz = b.blksz := hread.blksz.trans hblkszOf
      have hlen : read.len = b.len := hread.len
      obtain ⟨e, hflush, -, -, -, hefree, heblksz, helen, -⟩ :=
        (hc.started hread hpath hfront).flush now
      rw [hinit, hflush] at hready
      obtain rfl := (Prod.mk.inj (Except.ok.inj hready)).2
      have hstarted : (Cnfs.started read).free = read.free :=
        if_neg (hfree ▸ Int.ne_of_gt (h.kept.opened hmapped).free_pos)
      exact ⟨hefree.trans (hstarted.trans hfree), heblksz.trans hblksz, helen.trans hlen⟩

theorem found_eq {calls : Calls} (hready : ready mode now calls b = .ok (true, c)) :
    found mode now calls b = some c := by
  rw [found, hready]

theorem place_goesTo (htab : Resting mode Sound tab) (metacycbuff : METACYCBUFF n)
    (request : Request) :
    Yields (fun _ => True) (fun r => ∀ i, r.1 = some i →
      ∃ c, goesTo mode tab metacycbuff request = some c ∧
        SamePlace (r.2.1 i) c) (place mode tab metacycbuff request) := by
  have hcurrent := htab metacycbuff.current
  unfold place
  refine (yields_self _).bind fun ⟨opened, b⟩ hready => ?_
  obtain ⟨hb, hopened, -⟩ :=
    (sound_maintained.ready request.now request.first hcurrent.1 hcurrent.2).of_ok hready
  dsimp only at hb hopened ⊢
  split
  next => exact fun i hi => by cases hi
  next hnot =>
    obtain rfl : opened = true := by simpa using hnot
    have hmapped := hopened rfl
    have hfound := found_eq hready
    refine (yields_self _).bind fun b' hrealign => ?_
    obtain rfl := Except.ok.inj (hrealign.symm.trans (hb.realign hmapped))
    refine (yields_self _).bind fun _ _ => ?_
    split
    next hleft =>
      refine (yields_self _).bind fun d hroll => ?_
      obtain ⟨hneed, hminart, hplace⟩ := rollover_frame hroll
      obtain ⟨hd, hdmapped⟩ := (sound_maintained.rollover hb hmapped).of_ok hroll
      split
      next hmode =>
        refine (yields_self _).bind fun ⟨_, c⟩ hflush => ?_
        obtain rfl := (Prod.mk.inj (Except.ok.inj (hflush.symm.trans (hd.flush_eq hneed)))).2
        intro i hi
        obtain rfl := Option.some.inj hi
        refine ⟨{ b' with free := b'.minartoffset }, ?_, ?_⟩
        · rw [goesTo, hfound, Option.bind_some, if_pos hleft, if_pos (.inl hmode)]
        · change SamePlace (update tab metacycbuff.current _ metacycbuff.current) _
          rw [update_self]
          exact { hplace with }
      next hmode =>
        have he : Sound { d with currentbuff := false } := sound_maintained.left hd hdmapped
        refine (yields_self _).bind fun ⟨_, c⟩ hflush => ?_
        obtain rfl := (Prod.mk.inj (Except.ok.inj (hflush.symm.trans (he.flush_eq hneed)))).2
        refine (yields_self _).bind fun e hshut => ?_
        refine (yields_self _).bind fun ⟨opened, g⟩ hnext => ?_
        dsimp only at hshut hnext ⊢
        split
        next => exact fun i hi => by cases hi
        next hnot =>
          obtain rfl : opened = true := by simpa using hnot
          refine (yields_self _).bind fun ⟨_, last⟩ hlast => ?_
          intro i hi
          obtain rfl := Option.some.inj hi
          have hself : update (update tab metacycbuff.current e) metacycbuff.advance.current last
              metacycbuff.advance.current = last := update_self _ _ _
          change ∃ c, _ ∧ SamePlace (update (update tab metacycbuff.current e)
            metacycbuff.advance.current last metacycbuff.advance.current) c
          rw [hself]
          have hg : SamePlace last g := (flush_samePlace hlast).trans ⟨rfl, rfl, rfl⟩
          by_cases hsame : metacycbuff.advance.current = metacycbuff.current
          · -- The only buffer of its group comes after itself.
            rw [hsame, update_self] at hnext
            refine ⟨{ b' with free := b'.minartoffset }, ?_, ?_⟩
            · rw [goesTo, hfound, Option.bind_some, if_pos hleft, if_pos (.inr hsame)]
            · exact hg.trans ((he.found_again hneed hshut hnext).trans { hplace with })
          · rw [Function.update_of_ne hsame] at hnext
            refine ⟨g, ?_, hg⟩
            rw [goesTo, hfound, Option.bind_some, if_pos hleft, if_neg (by simp [hmode, hsame]),
              found_eq hnext]
    next hleft =>
      intro i hi
      obtain rfl := Option.some.inj hi
      refine ⟨b', by rw [goesTo, hfound, Option.bind_some, if_neg hleft], ?_⟩
      change SamePlace (update tab metacycbuff.current b' metacycbuff.current) b'
      rw [update_self]
      exact ⟨rfl, rfl, rfl⟩

end Placing

section Room

variable {b : CYCBUFF}

theorem Sound.rest (h : Sound b) (hmapped : b.bitfield = true) {article : ARTHANDLE}
    (hpos : 0 < article.len)
    (hleft : article.len ≤ left b) : b.free + totlen b.blksz article ≤ b.len := by
  have hopened := h.kept.opened hmapped
  have hunit := dvd_of_smallest hopened.smallest (h.unit_of_mapped hmapped)
  obtain ⟨hwhole, -, hlt⟩ := totlen_spec hopened.smallest (h.unit_of_mapped hmapped) article
  -- The free pointer, the end and what is written are multiples of the smallest block size.
  have hfree : 512 ∣ b.free := hunit.trans (h.pointer hmapped).2
  have htotlen : 512 ∣ totlen b.blksz article := hunit.trans hwhole
  have hkilo := h.kilo
  have hrest : article.len ≤ b.len - b.free - b.blksz - 1 := by
    unfold left at hleft
    split at hleft
    next => omega
    next => exact hleft
  unfold SIZEOF_CNFSARTHEADER at hlt
  omega

variable {n k : Nat} {mode : Mode}

/-- Each article has room in the buffer it goes to. -/
def Roomy (mode : Mode) (spool : Spool n k) (request : Request) : Prop :=
  ∀ rule ∈ spool.metaexprulestab.find? fun rule => rule.1 = request.storageclass,
    ∀ b ∈ found mode request.now request.first
      (spool.cycbufftab (spool.metacycbufftab rule.2).current),
      left b < request.article.len ∨ request.article.len = 0 →
        ∀ c ∈ goesTo mode spool.cycbufftab (spool.metacycbufftab rule.2) request,
          c.free + totlen c.blksz request.article ≤ c.len

instance (mode : Mode) (spool : Spool n k) (request : Request) :
    Decidable (Roomy mode spool request) := by
  unfold Roomy
  infer_instance

theorem store_sound {spool : Spool n k} (hspool : Resting mode Sound spool.cycbufftab)
    {request : Request} (hroomy : Roomy mode spool request) :
    Yields (fun _ => False) (fun r => Resting mode Sound r.2.cycbufftab)
      (cnfsStore mode spool request) := by
  refine sound_maintained.store hspool request fun rule i tab metacycbuff hrule hplace => ?_
  have hworking := ((sound_maintained.place hspool _ request).of_ok hplace).2 i rfl
  obtain ⟨c, hc, hsame⟩ := (place_goesTo hspool _ request).of_ok hplace i rfl
  have hopened := hworking.kept.kept.opened hworking.mapped
  have hunit := hworking.kept.unit_of_mapped hworking.mapped
  obtain ⟨hwhole, hlow, -⟩ := totlen_spec hopened.smallest hunit request.article
  have hnonneg : 0 ≤ totlen (tab i).blksz request.article :=
    Int.le_trans (by unfold SIZEOF_CNFSARTHEADER; omega) hlow
  refine ⟨hwhole, hnonneg, ?_⟩
  rw [hsame.free, hsame.blksz, hsame.len]
  have hfoundc := hc
  rw [goesTo] at hfoundc
  obtain ⟨b, hb, hgoes⟩ := Option.bind_eq_some_iff.mp hfoundc
  by_cases hroll : left b < request.article.len ∨ request.article.len = 0
  · exact hroomy rule hrule b hb hroll c hc
  · rw [not_or] at hroll
    rw [if_neg hroll.1] at hgoes
    obtain rfl := Option.some.inj hgoes
    obtain ⟨hsound, hmapped⟩ : Sound b ∧ b.bitfield = true := by
      have hcurrent := hspool (spool.metacycbufftab rule.2).current
      have hready := sound_maintained.ready request.now request.first hcurrent.1 hcurrent.2
      unfold found at hb
      split at hb
      next b' hr =>
        obtain rfl := Option.some.inj hb
        obtain ⟨hb', hopened', -⟩ := hready.of_ok hr
        exact ⟨hb', hopened' rfl⟩
      next => cases hb
    exact hsound.rest hmapped (by omega) (Int.not_lt.mp hroll.1)

end Room

section Runs

variable {n k : Nat} {mode : Mode}

structure Geometry (b : CYCBUFF) : Prop where
  configured : Configured b
  kilo : 1024 ∣ b.len
  unit : blkszOf b.file.header ∣ CNFS_HDR_PAGESIZE
  header : IsFree b.len (blkszOf b.file.header) (freeOf b.file.header)
  written : b.file.written = []

theorem Geometry.start {b : CYCBUFF} (h : Geometry b) (now : Int64) (calls : Calls) :
    Yields (fun _ => True) (fun r => r.1 = true →
      Sound r.2 ∧ r.2.bitfield = true) (CNFSinit_disks true now calls b) := by
  rw [yields_iff]
  intro r hr hdone
  have hkept : Kept b := by
    refine ⟨h.configured.nonneg, h.configured.large, fun hmapped => ?_, passes_of_init hr hdone,
      h.configured.free⟩
    rw [h.configured.bitfield] at hmapped
    cases hmapped
  by_cases hmagic : 3 ≤ magicver b.file.header
  · have hsound : Sound b := by
      refine ⟨hkept, h.kilo, h.unit, hmagic, fun hneed => ?_, fun hmapped => ?_,
        fun hmapped => ?_, h.header, ?_⟩
      · rw [h.configured.needflush] at hneed
        cases hneed
      · rw [h.configured.bitfield] at hmapped
        cases hmapped
      · rw [h.configured.bitfield] at hmapped
        cases hmapped
      · rw [h.written]
        exact fun extent hextent => absurd hextent List.not_mem_nil
    obtain ⟨hread, hmapped⟩ :=
      (sound_maintained.start now calls hsound h.configured.bitfield).of_ok hr
    exact ⟨hread, hmapped.trans hdone⟩
  · -- The header of a new file is written at once.
    rcases CNFSinit_disks_cases hkept.passes now calls with
      hinit | ⟨closed, hinit, -⟩ | ⟨read, hread, hpath, hfront, hinit⟩
    · cases hr.symm.trans hinit
      cases hdone
    · cases hr.symm.trans hinit
      cases hdone
    · have hopened := hread.opened hkept.passes hkept.free hpath hkept.nonneg hkept.large hfront
      have hstarted : Kept (started read) :=
        hkept.congr hread.name hread.len (congrArg File.header hread.file) fun _ => hopened
      have hmapped : (started read).bitfield = true := hread.bitfield
      have hneed : (started read).needflush = true := hread.new (Nat.not_le.mp hmagic)
      have hzero : read.free = 0 := hread.free.trans (if_neg hmagic)
      have hfree : (started read).free = minartoffset read.len read.blksz := if_pos hzero
      have hunit : read.blksz ∣ CNFS_HDR_PAGESIZE := hread.blksz ▸ h.unit
      have hnone : (started read).file.written = [] :=
        (congrArg File.written hread.file).trans h.written
      rw [CNFSflushhead_opened hopened hmapped, hneed] at hinit
      cases hr.symm.trans hinit
      refine ⟨sound_flushed hstarted hmapped ?_ hunit ?_ fun extent hextent => ?_, hmapped⟩
      · exact (congrArg (1024 ∣ ·) hread.len).mpr h.kilo
      · rw [hfree]
        exact ⟨Int.le_refl _, hunit.trans (dvd_minartoffset _ _)⟩
      · rw [hnone] at hextent
        exact absurd hextent List.not_mem_nil

def stored (mode : Mode) (spool : Spool n k) (request : Request) : Except Fault (Spool n k) :=
  Prod.snd <$> cnfsStore mode spool request

theorem run_sound (requests : List Request) {spool : Spool n k}
    (hspool : Resting mode Sound spool.cycbufftab)
    (hmeets : Meets (stored mode) (Roomy mode) requests spool) :
    ∃ s, run (stored mode) requests spool = .ok s ∧ Resting mode Sound s.cycbufftab := by
  induction requests generalizing spool with
  | nil => exact ⟨spool, rfl, hspool⟩
  | cons request requests ih =>
    obtain ⟨r, hstore, hr⟩ := (store_sound hspool hmeets.1).total
    have hstep : stored mode spool request = .ok r.2 := by rw [stored, hstore]; rfl
    rw [run_cons hstep]
    exact ih hr (hmeets.2 r.2 hstep)

/-- Everything is written inside the buffers in a run of articles that have room where their
buffers roll over. -/
theorem articles_inside (spool : Spool n k)
    (hspool : ∀ i, Geometry (spool.cycbufftab i)) (now : Int64)
    (calls : Fin n → Calls) {s : Spool n k} (hinit : cnfsInit mode now calls spool = .ok (some s))
    (requests : List Request) (hmeets : Meets (stored mode) (Roomy mode) requests s) :
    ∃ s', run (stored mode) requests s = .ok s' ∧ ∀ i, Inside (s'.cycbufftab i) := by
  have hmaintained : Maintained (fun _ => True) Sound Room := sound_maintained.allow
  have hrest :=
    (hmaintained.init mode now calls (fun i b hb =>
      hb.start now (calls i)) hspool).of_ok hinit s rfl
  obtain ⟨s', hrun, hs'⟩ := run_sound requests hrest hmeets
  exact ⟨s', hrun, fun i => (hs' i).1.inside⟩

def request5000 : Request :=
  ⟨⟨[5000], 5000, rfl, by decide⟩, 0, 0, ⟨true, true, true⟩, ⟨true, true, true⟩, true, true⟩

def judged (len : Int) (judge : Spool 1 1 → Bool) : Bool :=
  match cnfsInit ⟨true, 25⟩ 0 (fun _ => ⟨true, true, true⟩) (oneBuffer len) with
  | .ok (some s) => judge s
  | _ => false

theorem judged_spec {len : Int} {judge : Spool 1 1 → Bool} (h : judged len judge = true) :
    ∃ s, cnfsInit ⟨true, 25⟩ 0 (fun _ => ⟨true, true, true⟩) (oneBuffer len) = .ok (some s) ∧
      judge s = true := by
  unfold judged at h
  split at h
  next s hs => exact ⟨s, hs, h⟩
  next => cases h

theorem geometry_newBuffer {len : Int} (hlen : 0 ≤ len) (hlarge : len < 2 ^ 63)
    (hkilo : 1024 ∣ len) :
    Geometry (newBuffer len) :=
  ⟨configured_newBuffer hlen hlarge, hkilo,
    (by decide +kernel : blkszOf newHeader ∣ CNFS_HDR_PAGESIZE),
    .inl (by decide +kernel : freeOf newHeader = 0), rfl⟩

/-- An article that makes its buffer roll over and fits exactly. -/
theorem articles_inside_one :
    ∃ s s' : Spool 1 1, cnfsInit ⟨true, 25⟩ 0 (fun _ => ⟨true, true, true⟩) (oneBuffer 24576) =
      .ok (some s) ∧
      run (stored ⟨true, 25⟩) [request5000] s = .ok s' ∧ ∀ i, Inside (s'.cycbufftab i) := by
  obtain ⟨s, hs, hroomy⟩ :=
    judged_spec (show judged 24576 (fun s => Roomy ⟨true, 25⟩ s request5000) =
      true by decide +kernel)
  obtain ⟨s', hrun, hinside⟩ := articles_inside (oneBuffer 24576)
    (fun _ => geometry_newBuffer (by decide) (by decide) (by decide)) 0 _ hs [request5000]
    ⟨of_decide_eq_true hroomy, fun _ _ => trivial⟩
  exact ⟨s, s', hs, hrun, hinside⟩

/-- A buffer of twenty kilobytes: the article goes beyond its end. -/
theorem not_articles_inside :
    ¬∀ (mode : Mode) (spool : Spool 1 1), (∀ i, Geometry (spool.cycbufftab i)) → ∀ now calls s,
      cnfsInit mode now calls spool = .ok (some s) →
        ∀ requests s', run (stored mode) requests s = .ok s' →
        ∀ i, Inside (s'.cycbufftab i) := by
  intro hall
  obtain ⟨s, hs, hjudge⟩ := judged_spec (show judged 20480 (fun s =>
      match run (stored ⟨true, 25⟩) [request5000] s with
      | .ok s' => (s'.cycbufftab 0).file.written = [(16384, 8192)] ∧ (s'.cycbufftab 0).len = 20480
      | .error _ => false) = true by decide +kernel)
  split at hjudge
  next s' hrun =>
    obtain ⟨hwritten, hlen⟩ := of_decide_eq_true hjudge
    have hinside :=
      hall _ _ (fun _ => geometry_newBuffer (by decide) (by decide) (by decide)) _ _ s
      hs _ s' hrun 0
    have hend :=
      (hinside.written (16384, 8192) (by rw [hwritten]; exact List.mem_singleton_self _)).2
    rw [hlen] at hend
    exact absurd hend (by decide)
  next => cases hjudge

end Runs

end Inn.Storage.Cnfs
