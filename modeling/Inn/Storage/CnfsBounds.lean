import Inn.Storage.CnfsRecovered

/-!
# Where articles are written

A block size that divides the pages of the header is a power of two, and the free pointer
of a buffer is a multiple of it. An article that is not refused the rest of a buffer ends
in the buffer when it is stored in whole blocks.
-/

namespace Inn.Storage.Cnfs

open Foundation.Outcomes

section Blocks

variable {blksz : Int}

theorem exists_pow (hsmallest : 512 ≤ blksz) (hdvd : blksz ∣ CNFS_HDR_PAGESIZE) :
    ∃ j : Nat, 9 ≤ j ∧ j ≤ 14 ∧ blksz = 2 ^ j := by
  obtain ⟨size, rfl⟩ := Int.eq_ofNat_of_zero_le (by omega : 0 ≤ blksz)
  have hdvd' : size ∣ 2 ^ 14 := Int.natCast_dvd_natCast.mp hdvd
  obtain ⟨j, hj, rfl⟩ := (Nat.dvd_prime_pow Nat.prime_two).mp hdvd'
  have hlow : 2 ^ 9 ≤ 2 ^ j := by exact_mod_cast hsmallest
  exact ⟨j, (Nat.pow_le_pow_iff_right (by decide)).mp hlow, hj, by push_cast; rfl⟩

theorem masked_pow (n : Int) {j : Nat} (hj : j ≤ 14) : masked n (2 ^ j - 1) = n % 2 ^ j := by
  have hle : (2 : Int) ^ j ≤ 2 ^ 14 := by exact_mod_cast Nat.pow_le_pow_right (by decide) hj
  have hpos : (0 : Int) < 2 ^ j := by positivity
  have hmask : ((2 ^ j - 1 : Int) % 2 ^ 64).toNat = 2 ^ j - 1 := by
    rw [Int.emod_eq_of_lt (by omega) (by omega)]
    have : ((2 : Nat) ^ j : Int) = (2 : Int) ^ j := by push_cast; rfl
    omega
  have hdvd : (2 : Int) ^ j ∣ 2 ^ 64 := pow_dvd_pow 2 (by omega)
  rw [masked, hmask, Nat.and_two_pow_sub_one_eq_mod, Int.natCast_emod,
    Int.toNat_of_nonneg (Int.emod_nonneg _ (by decide)),
    Nat.cast_pow, Nat.cast_ofNat, Int.emod_emod_of_dvd n hdvd]

theorem masked_eq (hsmallest : 512 ≤ blksz) (hdvd : blksz ∣ CNFS_HDR_PAGESIZE) (n : Int) :
    masked n (blksz - 1) = n % blksz := by
  obtain ⟨j, -, hj, rfl⟩ := exists_pow hsmallest hdvd
  exact masked_pow n hj

theorem dvd_of_smallest (hsmallest : 512 ≤ blksz) (hdvd : blksz ∣ CNFS_HDR_PAGESIZE) :
    512 ∣ blksz := by
  obtain ⟨j, hj, -, rfl⟩ := exists_pow hsmallest hdvd
  exact pow_dvd_pow 2 hj

theorem totlen_spec (hsmallest : 512 ≤ blksz) (hdvd : blksz ∣ CNFS_HDR_PAGESIZE)
    (article : ARTHANDLE) :
    blksz ∣ totlen blksz article ∧ SIZEOF_CNFSARTHEADER + article.len ≤ totlen blksz article ∧
      totlen blksz article < SIZEOF_CNFSARTHEADER + article.len + blksz := by
  have hmod := Int.emod_nonneg (SIZEOF_CNFSARTHEADER + article.len) (by omega : blksz ≠ 0)
  have hlt := Int.emod_lt_of_pos (SIZEOF_CNFSARTHEADER + article.len) (by omega : 0 < blksz)
  have hquotient := Int.mul_ediv_add_emod (SIZEOF_CNFSARTHEADER + article.len) blksz
  unfold totlen
  dsimp only
  rw [masked_eq hsmallest hdvd, article.whole]
  split
  next =>
    refine ⟨⟨(SIZEOF_CNFSARTHEADER + article.len) / blksz + 1, ?_⟩, by omega, by omega⟩
    rw [Int.mul_add, Int.mul_one]
    omega
  next hexact =>
    have hzero : (SIZEOF_CNFSARTHEADER + article.len) % blksz = 0 := by simpa using hexact
    exact ⟨Int.dvd_of_emod_eq_zero hzero, by omega, by omega⟩

end Blocks

section Bits

variable {b : CYCBUFF}

def WithWords (b c : CYCBUFF) : Prop := ∃ words, c = { b with file := { b.file with words } }

theorem CNFSUsedBlock_yields (hopened : Opened b) (hmapped : b.bitfield = true) (hlen : 0 ≤ b.len)
    {offset : Int} (hoffset : 0 ≤ offset) (set_operation setbitvalue : Bool) :
    Yields (fun _ => False) (fun r => WithWords b r.2)
      (CNFSUsedBlock b offset set_operation setbitvalue) := by
  have hsmallest := hopened.smallest
  unfold CNFSUsedBlock
  split
  next => exact ⟨_, rfl⟩
  next hinside =>
    split
    next => exact ⟨_, rfl⟩
    next =>
      have hle : offset ≤ b.len := by
        rw [not_or] at hinside
        exact Int.not_lt.mp hinside.2
      have hblock : offset.tdiv b.blksz ≤ b.len / b.blksz := by
        rw [Int.tdiv_eq_ediv_of_nonneg hoffset]
        exact Int.ediv_le_ediv (by omega) hle
      have hnonneg : 0 ≤ offset.tdiv b.blksz := Int.tdiv_nonneg hoffset (by omega)
      have hlast : b.len.tdiv (b.blksz * 8) = b.len / b.blksz / 8 := by
        rw [Int.tdiv_eq_ediv_of_nonneg hlen, Int.ediv_ediv_of_nonneg (by omega)]
      have hfront := lt_minartoffset b.len b.blksz
      have hpages := dvd_minartoffset b.len b.blksz
      rw [← hopened.minart] at hfront hpages
      rw [hlast] at hfront
      rw [if_neg (by simpa using hmapped), Int.tdiv_eq_ediv_of_nonneg hnonneg]
      generalize offset.tdiv b.blksz = block at *
      generalize b.len / b.blksz = last at *
      have hinside : ¬(CNFS_BEFOREBITF + 8 * (block / 64) < CNFS_BEFOREBITF ∨
          b.minartoffset < CNFS_BEFOREBITF + 8 * (block / 64) + 8) := by
        unfold CNFS_BEFOREBITF CNFS_HDR_PAGESIZE at *
        omega
      rw [if_neg hinside]
      split
      next => exact ⟨_, rfl⟩
      next => exact ⟨_, rfl⟩

end Bits

section Sound

variable {b c : CYCBUFF} {now : Int64}

def IsFree (len blksz free : Int) : Prop := free = 0 ∨ minartoffset len blksz ≤ free ∧ blksz ∣ free

/-- What is written lies behind the bitfield and within the buffer. -/
structure Inside (b : CYCBUFF) : Prop where
  written : ∀ extent ∈ b.file.written, minartoffset b.len (blkszOf b.file.header) ≤ extent.1 ∧
    extent.1 + extent.2 ≤ b.len
  pointer : b.bitfield = true →
    b.minartoffset = minartoffset b.len b.blksz ∧ b.minartoffset ≤ b.free ∧ b.blksz ∣ b.free
  header : IsFree b.len (blkszOf b.file.header) (freeOf b.file.header)
  bits : b.bitfield = true → ∀ offset, 0 ≤ offset → ∀ set_operation setbitvalue fault,
    CNFSUsedBlock b offset set_operation setbitvalue ≠ .error fault

structure Sound (b : CYCBUFF) : Prop where
  kept : Kept b
  kilo : 1024 ∣ b.len
  unit : blkszOf b.file.header ∣ CNFS_HDR_PAGESIZE
  magic : 3 ≤ magicver b.file.header
  needflush : b.needflush = true → b.bitfield = true
  blksz : b.bitfield = true → b.blksz = blkszOf b.file.header
  pointer : b.bitfield = true → b.minartoffset ≤ b.free ∧ b.blksz ∣ b.free
  header : IsFree b.len (blkszOf b.file.header) (freeOf b.file.header)
  written : ∀ extent ∈ b.file.written, minartoffset b.len (blkszOf b.file.header) ≤ extent.1 ∧
    extent.1 + extent.2 ≤ b.len

structure Room (b : CYCBUFF) (length : Int) : Prop where
  whole : b.blksz ∣ length
  nonneg : 0 ≤ length
  room : b.free + length ≤ b.len

theorem Sound.inside (h : Sound b) : Inside b where
  written := h.written
  pointer hmapped := ⟨(h.kept.opened hmapped).minart, h.pointer hmapped⟩
  header := h.header
  bits hmapped offset hoffset set_operation setbitvalue fault hfault := by
    have hyields :=
      CNFSUsedBlock_yields (h.kept.opened hmapped) hmapped h.kept.nonneg hoffset
      set_operation setbitvalue
    rw [hfault] at hyields
    exact hyields

theorem Sound.change (h : Sound b) (hmapped : b.bitfield = true) (hkept : Kept c)
    (hcmapped : c.bitfield = true)
    (hlen : c.len = b.len) (hblksz : c.blksz = b.blksz) (hminart : c.minartoffset = b.minartoffset)
    (hheader : c.file.header = b.file.header)
    (hpointer : b.minartoffset ≤ c.free ∧ b.blksz ∣ c.free)
    (hwritten : ∀ extent ∈ c.file.written, extent ∈ b.file.written ∨
      b.minartoffset ≤ extent.1 ∧ extent.1 + extent.2 ≤ b.len) : Sound c where
  kept := hkept
  kilo := hlen ▸ h.kilo
  unit := hheader ▸ h.unit
  magic := hheader ▸ h.magic
  needflush _ := hcmapped
  blksz _ := by rw [hblksz, hheader]; exact h.blksz hmapped
  pointer _ := by rw [hminart, hblksz]; exact hpointer
  header := by rw [hheader, hlen]; exact h.header
  written extent hextent := by
    rw [hheader, hlen]
    rcases hwritten extent hextent with hold | hnew
    · exact h.written extent hold
    · rw [← h.blksz hmapped, ← (h.kept.opened hmapped).minart]
      exact hnew

theorem magicver_rpx_le (h : Opened b) : 3 ≤ magicver (rpx b) := by
  rw [(magicver_rpx h).1]
  rcases h.version with ⟨hthree, -⟩ | hfour
  · omega
  · omega

theorem sound_flushed (hkept : Kept b) (hmapped : b.bitfield = true) (hkilo : 1024 ∣ b.len)
    (hunit : b.blksz ∣ CNFS_HDR_PAGESIZE) (hpointer : b.minartoffset ≤ b.free ∧ b.blksz ∣ b.free)
    (hwritten : ∀ extent ∈ b.file.written, b.minartoffset ≤ extent.1 ∧
      extent.1 + extent.2 ≤ b.len) :
    Sound (flushed now b) := by
  have hopened := hkept.opened hmapped
  obtain ⟨-, hfree, hblksz⟩ := passes_rpx (hopened.updated_now now) hkept.isOffset
  have hsame : blkszOf (flushed now b).file.header = b.blksz := hblksz
  refine ⟨hkept.flushed hmapped, hkilo, hsame ▸ hunit, magicver_rpx_le (hopened.updated_now now),
    ?_, ?_, ?_, ?_, ?_⟩
  · exact fun hneed => by cases hneed
  · exact fun _ => hblksz.symm
  · exact fun _ => hpointer
  · refine .inr ?_
    change minartoffset b.len (blkszOf (rpx _)) ≤ freeOf (rpx _) ∧ blkszOf (rpx _) ∣ freeOf (rpx _)
    rw [hfree, hblksz]
    change minartoffset b.len b.blksz ≤ b.free ∧ b.blksz ∣ b.free
    rw [← hopened.minart]
    exact hpointer
  · intro extent hextent
    rw [hsame]
    change minartoffset b.len b.blksz ≤ extent.1 ∧ _
    rw [← hopened.minart]
    exact hwritten extent hextent

theorem Sound.unit_of_mapped (h : Sound b) (hmapped : b.bitfield = true) :
    b.blksz ∣ CNFS_HDR_PAGESIZE := by
  rw [h.blksz hmapped]
  exact h.unit

theorem Sound.flushed (h : Sound b) (hmapped : b.bitfield = true) : Sound (flushed now b) := by
  refine sound_flushed h.kept hmapped h.kilo (h.unit_of_mapped hmapped) (h.pointer hmapped)
    fun extent hextent => ?_
  rw [(h.kept.opened hmapped).minart, h.blksz hmapped]
  exact h.written extent hextent

theorem Sound.flush (h : Sound b) (now : Int64) :
    ∃ c, CNFSflushhead true now b = .ok (true, c) ∧ Sound c ∧ c.bitfield = b.bitfield ∧
    c.needflush = false ∧ c.free = b.free ∧ c.blksz = b.blksz ∧ c.len = b.len ∧
      c.minartoffset = b.minartoffset := by
  cases hneed : b.needflush with
  | false => exact ⟨b, CNFSflushhead_eq hneed, h, rfl, hneed, rfl, rfl, rfl, rfl⟩
  | true =>
    have hmapped := h.needflush hneed
    refine ⟨Cnfs.flushed now b, ?_, h.flushed hmapped, rfl, rfl, rfl, rfl, rfl, rfl⟩
    rw [CNFSflushhead_opened (h.kept.opened hmapped) hmapped, hneed]
    rfl

theorem Sound.unmapped (h : Sound b) (hkept : Kept c) (hclosed : c.bitfield = false)
    (hneed : c.needflush = false) (hlen : c.len = b.len) (hfile : c.file = b.file) : Sound c where
  kept := hkept
  kilo := hlen ▸ h.kilo
  unit := hfile ▸ h.unit
  magic := hfile ▸ h.magic
  needflush hneed' := by rw [hneed] at hneed'; cases hneed'
  blksz hmapped := by rw [hclosed] at hmapped; cases hmapped
  pointer hmapped := by rw [hclosed] at hmapped; cases hmapped
  header := by rw [hfile, hlen]; exact h.header
  written := by rw [hfile, hlen]; exact h.written

theorem Sound.closed (h : Sound b) (hrest : b.bitfield = false) : b.needflush = false := by
  cases hneed : b.needflush with
  | false => rfl
  | true =>
    rw [h.needflush hneed] at hrest
    cases hrest

theorem Sound.started {read : CYCBUFF} (h : Sound b)
    (hread : Read { b with fd := true, bitfield := true } read)
    (hpath : b.path.text ≠ octets "/dev/null") (hfront : 0 < minartoffset read.len read.blksz) :
    Sound (started read) := by
  have hopened := hread.opened h.kept.passes h.kept.free hpath h.kept.nonneg h.kept.large hfront
  have hfile : read.file = b.file := hread.file
  have hlen : read.len = b.len := hread.len
  have hblksz : read.blksz = blkszOf b.file.header := hread.blksz
  have hfree : read.free = freeOf b.file.header := hread.free
  have hkept : Kept (Cnfs.started read) :=
    h.kept.congr hread.name hlen (congrArg File.header hfile) fun _ => hopened
  refine ⟨hkept, hlen ▸ h.kilo, ?_, ?_, fun _ => hread.bitfield, fun _ => ?_, fun _ => ?_, ?_, ?_⟩
  · change blkszOf read.file.header ∣ _
    rw [hfile]
    exact h.unit
  · change 3 ≤ magicver read.file.header
    rw [hfile]
    exact h.magic
  · change read.blksz = blkszOf read.file.header
    rw [hfile, hblksz]
  · change minartoffset read.len read.blksz ≤ (if read.free = 0 then _ else read.free) ∧
      read.blksz ∣ if read.free = 0 then _ else read.free
    have hheader := h.header
    rw [← hfree, ← hblksz, ← hlen] at hheader
    split
    next =>
      refine ⟨Int.le_refl _, ?_⟩
      rw [hblksz]
      exact h.unit.trans (dvd_minartoffset _ _)
    next hne => exact hheader.resolve_left hne
  · change IsFree read.len (blkszOf read.file.header) (freeOf read.file.header)
    rw [hfile, hlen]
    exact h.header
  · change ∀ extent ∈ read.file.written, minartoffset read.len (blkszOf read.file.header) ≤
      extent.1 ∧ _ ≤ read.len
    rw [hfile, hlen]
    exact h.written

theorem Sound.realign (h : Sound b) (hmapped : b.bitfield = true) : realign b = .ok b := by
  have hmasked := masked_eq (h.kept.opened hmapped).smallest (h.unit_of_mapped hmapped) b.free
  rw [Int.emod_eq_zero_of_dvd (h.pointer hmapped).2] at hmasked
  unfold Cnfs.realign
  rw [hmasked, Int.sub_zero, if_neg (by simp)]
  rfl

theorem offset_eq {n : Int} (hn : IsOffset n) : offset n = .ok n := if_pos hn

theorem Sound.difference (h : Sound b) (hmapped : b.bitfield = true) :
    offset (b.len - b.free) = .ok (b.len - b.free) := by
  have hopened := h.kept.opened hmapped
  have hnonneg := h.kept.nonneg
  have hlarge := h.kept.large
  have hpos := hopened.free_pos
  have hlt := hopened.free_lt
  exact offset_eq ⟨by omega, by omega⟩

theorem sound_maintained : Maintained (fun _ => False) Sound Room where
  flush now h := by
    obtain ⟨c, hflush, hc, hmapped, -⟩ := h.flush now
    rw [hflush]
    exact ⟨hc, hmapped⟩
  shutdown now h hmapped := by
    obtain ⟨c, hflush, hc, -, hneed, -⟩ := h.flush now
    unfold CNFSshutdowncycbuff
    rw [hflush]
    have hkept : Kept { c with bitfield := false, fd := false } :=
      hc.kept.congr rfl rfl rfl fun h => by cases h
    exact ⟨hc.unmapped hkept rfl hneed rfl rfl, rfl⟩
  start now calls h hrest := by
    have hkept := h.kept.start now calls hrest
    rcases CNFSinit_disks_cases h.kept.passes now calls with
      hinit | ⟨closed, hinit, hclosed, hname, hlen, hfile, hneed⟩ | ⟨read, hread, hpath,
        hfront, hinit⟩
    · rw [hinit]
      exact ⟨h, hrest⟩
    · rw [hinit] at hkept ⊢
      exact ⟨h.unmapped hkept.1 hclosed ((hneed h.magic).trans (h.closed hrest)) hlen hfile,
        hclosed⟩
    · obtain ⟨c, hflush, hc, hmapped, -⟩ := (h.started hread hpath hfront).flush now
      rw [hinit, hflush]
      exact ⟨hc, hmapped.trans hread.bitfield⟩
  nonneg h hmapped := kept_maintained.nonneg h.kept hmapped
  realign h hmapped := by
    rw [h.realign hmapped]
    exact ⟨h, hmapped⟩
  difference h hmapped := by
    rw [h.difference hmapped]
    trivial
  used {b offset} value h hmapped hoffset := by
    have hopened := h.kept.opened hmapped
    refine (CNFSUsedBlock_yields hopened hmapped h.kept.nonneg hoffset true value).mono fun r
      ⟨words, hwords⟩ => ?_
    rw [hwords]
    have hkept :=
      h.kept.change (c := { b with file := { b.file with words } }) hmapped rfl rfl rfl rfl
      rfl rfl rfl rfl
      hopened.free_pos hopened.free_lt hopened.order
    exact ⟨h.change hmapped hkept hmapped rfl rfl rfl rfl (h.pointer hmapped) fun _ =>
      .inl, hmapped⟩
  rolled h hmapped := by
    refine h.change hmapped (kept_maintained.rolled h.kept hmapped) hmapped rfl rfl rfl rfl
      ⟨Int.le_refl _, ?_⟩ fun _ => .inl
    exact (h.unit_of_mapped hmapped).trans ((h.kept.opened hmapped).minart ▸ dvd_minartoffset _ _)
  left h hmapped :=
    h.change hmapped (kept_maintained.left h.kept hmapped) hmapped rfl rfl rfl rfl
      (h.pointer hmapped) fun _ => .inl
  marked current h hmapped :=
    h.change hmapped (kept_maintained.marked current h.kept hmapped) hmapped rfl rfl rfl rfl
      (h.pointer hmapped) fun _ => .inl
  ordered place h hmapped :=
    h.change hmapped (kept_maintained.ordered place h.kept hmapped) hmapped rfl rfl rfl rfl
      (h.pointer hmapped) fun _ => .inl
  joined place metaname h hmapped :=
    h.change hmapped (kept_maintained.joined place metaname h.kept hmapped) hmapped rfl rfl rfl rfl
      (h.pointer hmapped)
      fun _ => .inl
  written h hmapped hroom := by
    refine h.change hmapped (kept_maintained.written h.kept hmapped hroom.nonneg) hmapped rfl rfl
      rfl rfl (h.pointer hmapped)
      fun extent hextent => ?_
    rcases List.mem_cons.mp hextent with rfl | hold
    · exact .inr ⟨(h.pointer hmapped).1, hroom.room⟩
    · exact .inl hold
  advanced {b length} h hmapped hroom := by
    have hpos := (h.kept.opened hmapped).free_pos
    have hlarge := h.kept.large
    have hlength := hroom.nonneg
    have hend := hroom.room
    have hkept := kept_maintained.advanced h.kept hmapped hroom.nonneg
    rw [offset_eq ⟨by omega, by omega⟩] at hkept ⊢
    refine h.change hmapped hkept hmapped rfl rfl rfl rfl ?_ fun extent hextent => ?_
    · obtain ⟨hlow, hdvd⟩ := h.pointer hmapped
      exact ⟨Int.le_trans hlow (by change b.free ≤ b.free + length; omega),
        Int.dvd_add hdvd hroom.whole⟩
    · rcases List.mem_cons.mp hextent with rfl | hold
      · exact .inr ⟨(h.pointer hmapped).1, hend⟩
      · exact .inl hold

end Sound

end Inn.Storage.Cnfs
