import Inn.Storage.CnfsKept

/-!
# What the headers recover

The header that is written for an open buffer gives another record of the same buffer
what the first one held, and every buffer is open with numbers that the header has
room for, whatever has been stored.
-/

namespace Inn.Storage.Cnfs

open Foundation.Outcomes

variable {n k : Nat} {mode : Mode}

section Recovering

variable {b reader : CYCBUFF}

structure Other (reader b : CYCBUFF) : Prop where
  name : reader.name = b.name
  path : reader.path = b.path
  len : reader.len = b.len
  file : reader.file = b.file
  needflush : reader.needflush = false

/-- Whoever reads the header gets what was written. -/
structure Recovers (b : CYCBUFF) : Prop where
  disks : ∀ reader, Other reader b → ∀ SMopenmode now, ∃ read,
    CNFSinit_disks SMopenmode now ⟨true, true, true⟩ reader = .ok (true, read) ∧ Recovered read b
  freeAndCycle : ∀ reader, Other reader b → reader.bitfield = true → ∃ read,
    CNFSReadFreeAndCycle reader = .ok read ∧ read.free = b.free ∧ read.updated = b.updated ∧
      read.cyclenum = b.cyclenum

theorem recovers_flushed (h : Opened b) (hlen : 0 ≤ b.len) (hlarge : b.len < 2 ^ 63) (now : Int64) :
    Recovers (flushed now b) := by
  have hnow : Opened { b with updated := now.toInt } := h.updated_now now
  have hfree : IsOffset b.free := ⟨by have := h.free_pos; omega, h.free_lt⟩
  have hlength : IsOffset b.len := ⟨by omega, hlarge⟩
  constructor
  · intro reader hother SMopenmode now'
    let opening : CYCBUFF := { reader with fd := true, bitfield := true }
    have hread :=
      readHeader_rpx hnow hlength (show opening.file.header =
        _ from congrArg File.header hother.file)
      hother.name hother.len
    have hminart : minartoffset reader.len b.blksz = b.minartoffset := by
      rw [hother.len]
      exact h.minart.symm
    have hpath : reader.path.text ≠ octets "/dev/null" := by
      rw [hother.path]
      exact h.path
    refine ⟨{ opening with
      magicver := b.magicver
      blksz := b.blksz
      free := b.free
      updated := now.toInt
      cyclenum := b.cyclenum
      metaname := b.metaname
      order := b.order
      currentbuff := b.currentbuff
      minartoffset := b.minartoffset }, ?_, rfl, rfl, rfl, rfl, rfl, rfl, rfl, rfl, rfl⟩
    unfold CNFSinit_disks
    rw [if_neg hpath, if_neg (by simp), if_neg (by simp), hread]
    dsimp only
    have hfront := Int.not_le.mpr h.front
    have hpos : b.free ≠ 0 := Int.ne_of_gt h.free_pos
    rw [show opening.len = reader.len from rfl, hminart,
      if_neg (by simpa using hfront), if_neg hpos,
      show opening.needflush = false from hother.needflush]
    rfl
  · intro reader hother hmapped
    have hheader : reader.file.header = rpx { b with updated := now.toInt } :=
      congrArg File.header hother.file
    refine ⟨_, by rw [CNFSReadFreeAndCycle, if_pos hmapped], ?_, ?_, ?_⟩
    · change CNFShex2offt reader.file.header.freea.text = b.free
      rw [hheader]
      exact (CNFShex2offt_number _).trans (off_t_eq hfree)
    · change CNFShex2offt reader.file.header.updateda.text = now.toInt
      rw [hheader]
      exact (CNFShex2offt_number _).trans (off_t_eq hnow.updated)
    · change uint32_t (CNFShex2offt reader.file.header.cyclenuma.text) = b.cyclenum
      rw [hheader]
      exact (congrArg uint32_t (CNFShex2offt_number _)).trans (uint32_t_off_t _)

end Recovering

section Kept

/-- A buffer that is open has a header that passes. -/
structure Kept (b : CYCBUFF) : Prop where
  nonneg : 0 ≤ b.len
  large : b.len < 2 ^ 63
  opened : b.bitfield = true → Opened b
  passes : Passes b.file.header b.name b.len
  free : 0 ≤ freeOf b.file.header

variable {b c : CYCBUFF} {now : Int64}

theorem Kept.congr (h : Kept b) (hname : c.name = b.name) (hlen : c.len = b.len)
    (hheader : c.file.header = b.file.header)
    (hopened : c.bitfield = true → Opened c) : Kept c := by
  refine ⟨hlen ▸ h.nonneg, hlen ▸ h.large, hopened, ?_, hheader ▸ h.free⟩
  rw [hheader, hname, hlen]
  exact h.passes

theorem Kept.isOffset (h : Kept b) : IsOffset b.len := ⟨by have := h.nonneg; omega, h.large⟩

theorem Kept.flushed (h : Kept b) (hmapped : b.bitfield = true) : Kept (flushed now b) := by
  have hopened := h.opened hmapped
  obtain ⟨hpasses, hfree, -⟩ := passes_rpx (hopened.updated_now now) h.isOffset
  exact ⟨h.nonneg, h.large, fun _ => hopened.flushed, hpasses,
    (Int.le_of_lt hopened.free_pos).trans_eq hfree.symm⟩

theorem CNFSflushhead_closed (hclosed : b.bitfield = false) :
    Yields (fun _ => True) (fun r => r.2 = b) (CNFSflushhead true now b) := by
  unfold CNFSflushhead
  split
  next => exact rfl
  next =>
    split
    next => exact rfl
    next =>
      split
      next => simp only [hclosed]; exact trivial
      next => exact rfl

theorem Kept.flush (h : Kept b) :
    Yields (fun _ => True) (fun r => Kept r.2 ∧
      r.2.bitfield = b.bitfield) (CNFSflushhead true now b) := by
  cases hmapped : b.bitfield with
  | false =>
    refine (CNFSflushhead_closed hmapped).mono fun r hr => ?_
    rw [hr]
    exact ⟨h, hmapped⟩
  | true =>
    rw [CNFSflushhead_opened (h.opened hmapped) hmapped]
    change Kept (if _ then _ else _) ∧ (if _ then _ else _ : CYCBUFF).bitfield = true
    split
    · exact ⟨h.flushed hmapped, hmapped⟩
    · exact ⟨h, hmapped⟩

theorem Kept.start (h : Kept b) (now : Int64) (calls : Calls) (hrest : b.bitfield = false) :
    Yields (fun _ => True) (fun r => Kept r.2 ∧
      r.2.bitfield = r.1) (CNFSinit_disks true now calls b) := by
  rcases CNFSinit_disks_cases h.passes now calls with
    hinit | ⟨closed, hinit, hclosed, hname, hlen, hfile, -⟩ | ⟨read, hread, hpath, hfront, hinit⟩
  · rw [hinit]
    exact ⟨h, hrest⟩
  · rw [hinit]
    refine ⟨h.congr hname hlen (congrArg File.header hfile) fun hmapped => ?_, hclosed⟩
    rw [hclosed] at hmapped
    cases hmapped
  · have hopened := hread.opened h.passes h.free hpath h.nonneg h.large hfront
    have hkept : Kept (started read) :=
      h.congr hread.name hread.len (congrArg File.header hread.file) fun _ => hopened
    have hmapped : (started read).bitfield = true := hread.bitfield
    rw [hinit, CNFSflushhead_opened hopened hmapped]
    change Kept (if _ then _ else _) ∧ (if _ then _ else _ : CYCBUFF).bitfield = true
    split
    · exact ⟨hkept.flushed hmapped, hmapped⟩
    · exact ⟨hkept, hmapped⟩

theorem offset_yields (post : Int → Prop) {n : Int} (h : -2 ^ 63 ≤ n → n < 2 ^ 63 → post n) :
    Yields (fun _ => True) post (offset n) := by
  unfold offset
  split
  next hn => exact h hn.1 hn.2
  next => trivial

theorem masked_le (n : Int) {mask : Int} (hmask : 0 ≤ mask) : masked n mask ≤ mask := by
  have hand : (n % 2 ^ 64).toNat &&& (mask % 2 ^ 64).toNat ≤ (mask % 2 ^ 64).toNat :=
    Nat.and_le_right
  have hmod : mask % 2 ^ 64 ≤ mask := by omega
  unfold masked
  omega

theorem totlen_nonneg {blksz : Int} (hblksz : 0 < blksz) (article : ARTHANDLE) :
    0 ≤ totlen blksz article := by
  have hmasked := masked_le (SIZEOF_CNFSARTHEADER + article.iov.sum) (by omega : 0 ≤ blksz - 1)
  unfold totlen SIZEOF_CNFSARTHEADER at *
  dsimp only
  split
  · omega
  · omega

theorem Kept.change (h : Kept b) (hmapped : b.bitfield = true) (hname : c.name = b.name)
    (hpath : c.path = b.path)
    (hlen : c.len = b.len) (hversion : c.magicver = b.magicver) (hblksz : c.blksz = b.blksz)
    (hminart : c.minartoffset = b.minartoffset) (hheader : c.file.header = b.file.header)
    (hupdated : c.updated = b.updated) (hpos : 0 < c.free) (hlt : c.free < 2 ^ 63)
    (horder : IsInt c.order) : Kept c :=
  h.congr hname hlen hheader fun _ =>
    (h.opened hmapped).congr hpath hversion hblksz hlen hminart hpos hlt
    (hupdated ▸ (h.opened hmapped).updated) horder

theorem kept_maintained : Maintained (fun _ => True) Kept fun _ length => 0 ≤ length where
  flush now h := h.flush
  shutdown now h _ :=
    h.flush.bind fun r hr => ⟨hr.1.congr rfl rfl rfl fun hmapped => (by cases hmapped), rfl⟩
  start now calls h hrest := h.start now calls hrest
  nonneg h hmapped := by
    have hopened := h.opened hmapped
    exact ⟨Int.le_of_lt hopened.free_pos, by have := hopened.smallest; omega⟩
  realign {b} h hmapped := by
    have hopened := h.opened hmapped
    have hmasked := masked_le b.free (by have := hopened.smallest; omega : 0 ≤ b.blksz - 1)
    have hpos := hopened.free_pos
    unfold realign
    dsimp only
    split
    next =>
      have hsum : Yields (fun _ => True) (fun free => 0 < free ∧ free < 2 ^ 63)
          (offset (b.free + (b.blksz - masked b.free (b.blksz - 1)))) :=
            offset_yields _ fun _ hlt => ⟨by omega, hlt⟩
      refine hsum.bind fun free hfree => ?_
      exact ⟨h.change hmapped rfl rfl rfl rfl rfl rfl rfl rfl hfree.1 hfree.2 hopened.order,
        hmapped⟩
    next => exact ⟨h, hmapped⟩
  difference _ _ := offset_yields _ fun _ _ => trivial
  used {b offset} value h hmapped _ := by
    have hopened := h.opened hmapped
    unfold CNFSUsedBlock
    split
    next => exact ⟨h, hmapped⟩
    next =>
      split
      next => exact ⟨h, hmapped⟩
      next =>
        dsimp only
        split
        next => trivial
        next =>
          split
          next => trivial
          next =>
            exact ⟨h.change hmapped rfl rfl rfl rfl rfl rfl rfl rfl hopened.free_pos hopened.free_lt
              hopened.order, hmapped⟩
  rolled {b} h hmapped := by
    have hopened := h.opened hmapped
    have hlarge := h.large
    have hle := minartoffset_le h.nonneg hopened.smallest
    rw [← hopened.minart] at hle
    exact h.change hmapped rfl rfl rfl rfl rfl rfl rfl rfl hopened.front
      (by change b.minartoffset < _; omega) hopened.order
  left h hmapped :=
    have hopened := h.opened hmapped
    h.change hmapped rfl rfl rfl rfl rfl rfl rfl rfl hopened.free_pos hopened.free_lt hopened.order
  marked current h hmapped :=
    have hopened := h.opened hmapped
    h.change hmapped rfl rfl rfl rfl rfl rfl rfl rfl hopened.free_pos hopened.free_lt hopened.order
  ordered place h hmapped :=
    have hopened := h.opened hmapped
    h.change hmapped rfl rfl rfl rfl rfl rfl rfl rfl hopened.free_pos hopened.free_lt
      (int_range place)
  joined place metaname h hmapped :=
    have hopened := h.opened hmapped
    h.change hmapped rfl rfl rfl rfl rfl rfl rfl rfl hopened.free_pos hopened.free_lt
      (int_range place)
  written h hmapped _ :=
    have hopened := h.opened hmapped
    h.change hmapped rfl rfl rfl rfl rfl rfl rfl rfl hopened.free_pos hopened.free_lt hopened.order
  advanced {b length} h hmapped hlength := by
    have hopened := h.opened hmapped
    have hpos := hopened.free_pos
    refine offset_yields _ fun _ hlt => ?_
    exact h.change hmapped rfl rfl rfl rfl rfl rfl rfl rfl (by change 0 < b.free + length; omega)
      hlt hopened.order

end Kept

structure Configured (b : CYCBUFF) : Prop where
  fd : b.fd = false
  bitfield : b.bitfield = false
  needflush : b.needflush = false
  nonneg : 0 ≤ b.len
  large : b.len < 2 ^ 63
  free : 0 ≤ freeOf b.file.header

inductive Reachable (mode : Mode) : Spool n k → Prop
  | init {spool s : Spool n k} (now : Int64) (calls : Fin n →
      Calls) (hspool : ∀ i, Configured (spool.cycbufftab i))
      (hinit : cnfsInit mode now calls spool = .ok (some s)) : Reachable mode s
  | store {s s' : Spool n k} {token : Option TOKEN} (request : Request) (hs : Reachable mode s)
      (hstore : cnfsStore mode s request = .ok (token, s')) : Reachable mode s'

theorem Configured.start {b : CYCBUFF} (h : Configured b) (now : Int64) (calls : Calls) :
    Yields (fun _ => True) (fun r => r.1 = true →
      Kept r.2 ∧ r.2.bitfield = true) (CNFSinit_disks true now calls b) := by
  rw [yields_iff]
  intro r hr hdone
  have hkept : Kept b := by
    refine ⟨h.nonneg, h.large, fun hmapped => ?_, passes_of_init hr hdone, h.free⟩
    rw [h.bitfield] at hmapped
    cases hmapped
  have hopened := (hkept.start now calls h.bitfield).of_ok hr
  exact ⟨hopened.1, hopened.2.trans hdone⟩

theorem Reachable.resting {s : Spool n k} (h : Reachable mode s) :
    Resting mode Kept s.cycbufftab := by
  induction h with
  | init now calls hspool hinit =>
    have hrest := kept_maintained.init mode now calls (fun i b hb => hb.start now (calls i)) hspool
    exact hrest.of_ok hinit _ rfl
  | store request _ hstore ih =>
    refine (kept_maintained.store ih request fun rule i tab metacycbuff _ hplace => ?_).of_ok hstore
    have htab := ((kept_maintained.place ih _ request).of_ok hplace).2 i rfl
    have hsmallest : 512 ≤ (tab i).blksz := (htab.kept.opened htab.mapped).smallest
    exact totlen_nonneg (by omega) request.article

theorem Reachable.opened {s : Spool n k} (h : Reachable mode s) {i : Fin n} {now : Int64}
    {calls : Calls} {b : CYCBUFF} (hready : ready mode now calls (s.cycbufftab i) = .ok (true, b)) :
    Kept b ∧ b.bitfield = true := by
  obtain ⟨hkept, hrest⟩ := h.resting i
  obtain ⟨hb, hopened, -⟩ := (kept_maintained.ready now calls hkept hrest).of_ok hready
  exact ⟨hb, hopened rfl⟩

/-- Numbers, tokens and headers give back what they were made from; headers do so for every open
buffer, as the buffers of every reachable state are. -/
theorem numbers_tokens_headers_recovered :
    (∀ offset leadingzeros, 0 ≤ offset → offset < 2 ^ 63 →
      CNFShex2offt (CNFSofft2hex offset leadingzeros) = offset) ∧
    (∀ (name : Chars 16) (offset blksz : Int) (cycnum : UInt32) (storageclass : UInt8),
      name.text.length ≤ CNFSMAXCYCBUFFNAME → 0 ≤ offset → 0 < blksz → offset / blksz < 2 ^ 32 →
      ∃ cycbuffname blk, CNFSBreakToken (CNFSMakeToken name offset blksz cycnum storageclass) =
        (cycbuffname, blk, cycnum) ∧
        cString cycbuffname = name.text ∧ (blk.toNat : Int) = offset / blksz ∧
          (blksz ∣ offset → blk.toNat * blksz = offset)) ∧
    (∀ b, Opened b → b.bitfield = true → b.needflush = true → 0 ≤ b.len → b.len < 2 ^ 63 → ∀ now,
      CNFSflushhead true now b = .ok (true, flushed now b) ∧ Recovers (flushed now b)) ∧
    ∀ (n k : Nat) (mode : Mode) (s : Spool n k), Reachable mode s → ∀ i now calls b,
      ready mode now calls (s.cycbufftab i) = .ok (true, b) →
        Opened b ∧ b.bitfield = true ∧ 0 ≤ b.len ∧ b.len < 2 ^ 63 := by
  refine ⟨?_, ?_, ?_, ?_⟩
  · intro offset leadingzeros hnonneg hlt
    rw [CNFShex2offt_CNFSofft2hex, off_t_eq ⟨by omega, hlt⟩]
  · intro name offset blksz cycnum storageclass hname hoffset hblksz hblock
    have hblk := uint32_t_toNat (Int.ediv_nonneg hoffset (Int.le_of_lt hblksz)) hblock
    rw [← Int.tdiv_eq_ediv_of_nonneg hoffset] at hblk
    refine ⟨_, _, CNFSBreakToken_CNFSMakeToken name offset blksz cycnum storageclass,
      cString_take hname, ?_, fun hdvd => ?_⟩
    · rw [hblk, Int.tdiv_eq_ediv_of_nonneg hoffset]
    · rw [hblk, Int.tdiv_mul_cancel hdvd]
  · intro b hopened hmapped hneed hlen hlarge now
    refine ⟨?_, recovers_flushed hopened hlen hlarge now⟩
    rw [CNFSflushhead_opened hopened hmapped, hneed]
    rfl
  · intro n k mode s hs i now calls b hready
    obtain ⟨hkept, hmapped⟩ := hs.opened hready
    exact ⟨hkept.opened hmapped, hmapped, hkept.nonneg, hkept.large⟩

def newHeader : CYCBUFFEXTERN :=
  ⟨strncpy 8 [], strncpy 16 [], strncpy 64 [], strncpy 16 [], strncpy 16 [], strncpy 16 [],
    strncpy 16 [], strncpy 16 [],
    strncpy 16 [], strncpy 8 [], strncpy 16 []⟩

def newBuffer (len : Int) : CYCBUFF where
  name := strncpy 16 (octets "ONE")
  path := strncpy 64 (octets "/spool/one")
  len := len
  free := 0
  updated := 0
  fd := false
  cyclenum := 0
  magicver := 0
  bitfield := false
  minartoffset := 0
  needflush := false
  blksz := 0
  currentbuff := false
  metaname := strncpy 16 []
  order := 0
  file := ⟨newHeader, fun _ => 0, []⟩

theorem configured_newBuffer {len : Int} (hlen : 0 ≤ len) (hlarge : len < 2 ^ 63) :
    Configured (newBuffer len) :=
  ⟨rfl, rfl, rfl, hlen, hlarge, (by decide +kernel : 0 ≤ freeOf newHeader)⟩

def oneBuffer (len : Int) : Spool 1 1 where
  cycbufftab := fun _ => newBuffer len
  metacycbufftab := fun _ => ⟨octets "META", [0], 0, by decide, 0, .INTERLEAVE⟩
  metaexprulestab := [(0, 0)]

theorem numbers_tokens_headers_recovered_one :
    CNFShex2offt (CNFSofft2hex 4096 false) = 4096 ∧
      (∃ cycbuffname blk, CNFSBreakToken (CNFSMakeToken (strncpy 16 (octets "ONE")) 8192 512 7 3) =
        (cycbuffname, blk, 7) ∧
        cString cycbuffname = octets "ONE" ∧ blk.toNat * 512 = 8192) ∧
      ∃ s : Spool 1 1, Reachable ⟨true, 25⟩ s ∧ Opened (s.cycbufftab 0) ∧
        CNFSflushhead true 5 { s.cycbufftab 0 with needflush := true } =
          .ok (true, flushed 5 { s.cycbufftab 0 with needflush := true }) ∧
        Recovers (flushed 5 { s.cycbufftab 0 with needflush := true }) := by
  have hinit :
      (cnfsInit ⟨true, 25⟩ 0 (fun _ => ⟨true, true, true⟩)
        (oneBuffer 1048576)).toOption.join.isSome = true := by
    decide +kernel
  have hreachable : ∃ s : Spool 1 1, Reachable ⟨true, 25⟩ s := by
    cases hr : cnfsInit ⟨true, 25⟩ 0 (fun _ => ⟨true, true, true⟩) (oneBuffer 1048576) with
    | error e =>
      rw [hr] at hinit
      cases hinit
    | ok r =>
      cases r with
      | none =>
        rw [hr] at hinit
        cases hinit
      | some s =>
        exact ⟨s, .init 0 _ (fun _ => configured_newBuffer (by decide) (by decide)) hr⟩
  obtain ⟨s, hs⟩ := hreachable
  obtain ⟨hnumbers, htokens, hheaders, hspools⟩ := numbers_tokens_headers_recovered
  obtain ⟨cycbuffname, blk, hbreak, hname, -, hblock⟩ :=
    htokens (strncpy 16 (octets "ONE")) 8192 512 7 3 (by decide)
    (by decide) (by decide) (by decide)
  obtain ⟨hopened, hmapped, hnonneg, hlarge⟩ :=
    hspools 1 1 ⟨true, 25⟩ s hs 0 0 ⟨true, true, true⟩ _ rfl
  obtain ⟨hflush, hrecovers⟩ :=
    hheaders { s.cycbufftab 0 with needflush := true } { hopened with } hmapped rfl hnonneg
    hlarge 5
  have hlength : (blk.toNat : Int) * 512 = 8192 := hblock (by decide)
  exact ⟨hnumbers 4096 false (by decide) (by decide), ⟨cycbuffname, blk, hbreak, hname, by omega⟩,
    s, hs, hopened, hflush,
    hrecovers⟩

end Inn.Storage.Cnfs
