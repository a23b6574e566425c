import Inn.Storage.Cnfs
import Inn.Foundation.Runs
import Inn.History.Line

/-!
# The header of a cyclic buffer

The file of a cyclic buffer starts with a header in characters, which is written
from the record that the program keeps of the buffer and read into it again.
-/

namespace Inn.Storage.Cnfs

def CNFS_HDR_PAGESIZE : Int := 16384

def CNFS_MAGICV3 : Octets := octets "CBuf3"

def CNFS_MAGICV4 : Octets := octets "CBuf4"

def CNFS_DFL_BLOCKSIZE : Int := 4096

def CNFS_MAX_BLOCKSIZE : Int := 16384

def CNFS_BEFOREBITF : Int := 512

structure CYCBUFFEXTERN where
  magic : Chars 8
  name : Chars 16
  path : Chars 64
  lena : Chars 16
  freea : Chars 16
  updateda : Chars 16
  cyclenuma : Chars 16
  metaname : Chars 16
  orderinmeta : Chars 16
  currentbuff : Chars 8
  blksza : Chars 16

structure File where
  header : CYCBUFFEXTERN
  words : Nat → BitVec 64
  written : List (Int × Int)

/-- A cyclic buffer in memory, over its file. -/
structure CYCBUFF where
  name : Chars 16
  path : Chars 64
  len : Int
  free : Int
  updated : Int
  fd : Bool
  cyclenum : UInt32
  magicver : Nat
  bitfield : Bool
  minartoffset : Int
  needflush : Bool
  blksz : Int
  currentbuff : Bool
  metaname : Chars 16
  order : Int
  file : File

inductive Fault where
  | overflow
  | unmapped
  | outside
  deriving DecidableEq

def IsInt (n : Int) : Prop := -2 ^ 31 ≤ n ∧ n < 2 ^ 31

def rpx (cycbuff : CYCBUFF) : CYCBUFFEXTERN where
  magic := strncpy 8 (if cycbuff.magicver = 3 then CNFS_MAGICV3 else CNFS_MAGICV4)
  name := strncpy 16 cycbuff.name.text
  path := strncpy 64 cycbuff.path.text
  lena := number cycbuff.len
  freea := number cycbuff.free
  updateda := number cycbuff.updated
  cyclenuma := number cycbuff.cyclenum.toNat
  metaname := strncpy 16 cycbuff.metaname.text
  orderinmeta := number cycbuff.order
  currentbuff := strncpy 8 (if cycbuff.currentbuff then octets "TRUE" else octets "FALSE")
  blksza := number cycbuff.blksz

def CNFSflushhead (SMopenmode : Bool) (now : Int64) (cycbuff : CYCBUFF) :
    Except Fault (Bool × CYCBUFF) :=
  if !cycbuff.needflush then .ok (true, cycbuff)
  else if !SMopenmode then .ok (false, cycbuff)
  else if cycbuff.magicver = 3 ∨ cycbuff.magicver = 4 then
    let cycbuff := { cycbuff with updated := now.toInt }
    if cycbuff.bitfield then
      .ok (true, { cycbuff with
        file := { cycbuff.file with header := rpx cycbuff }, needflush := false })
    else .error .unmapped
  else .ok (false, cycbuff)

def CNFSReadFreeAndCycle (cycbuff : CYCBUFF) : Except Fault CYCBUFF :=
  if cycbuff.bitfield then
    let rpx := cycbuff.file.header
    .ok { cycbuff with
      free := CNFShex2offt rpx.freea.text
      updated := CNFShex2offt rpx.updateda.text
      cyclenum := uint32_t (CNFShex2offt rpx.cyclenuma.text) }
  else .error .unmapped

def magicver (rpx : CYCBUFFEXTERN) : Nat :=
  if rpx.magic.text.take 5 = CNFS_MAGICV4 then 4
    else if rpx.magic.text.take 5 = CNFS_MAGICV3 then 3 else 0

def readHeader (cycbuff : CYCBUFF) : Bool × CYCBUFF :=
  let rpx := cycbuff.file.header
  let cycbuff := { cycbuff with magicver := magicver rpx }
  let cycbuff :=
    if rpx.magic.text.take 5 = CNFS_MAGICV3 then { cycbuff with blksz := 512 } else cycbuff
  if 3 ≤ cycbuff.magicver then
    if rpx.name.text ≠ cycbuff.name.text then (false, cycbuff)
    else if CNFShex2offt rpx.lena.text ≠ cycbuff.len then (false, cycbuff)
    else
      let cycbuff := { cycbuff with
        free := CNFShex2offt rpx.freea.text
        updated := CNFShex2offt rpx.updateda.text
        cyclenum := uint32_t (CNFShex2offt rpx.cyclenuma.text)
        metaname := strncpy 16 rpx.metaname.text
        order := int (CNFShex2offt rpx.orderinmeta.text)
        currentbuff := rpx.currentbuff.text = octets "TRUE" }
      let cycbuff :=
        if 3 < cycbuff.magicver then
        { cycbuff with blksz := int (CNFShex2offt rpx.blksza.text) } else cycbuff
      if cycbuff.blksz < 512 ∨ cycbuff.blksz > CNFS_MAX_BLOCKSIZE ∨
        2 * cycbuff.blksz.tdiv 2 ≠ cycbuff.blksz then
        (false, cycbuff)
      else (true, cycbuff)
  else
    (true, { cycbuff with
      magicver := 4
      updated := 0
      cyclenum := 1
      currentbuff := true
      order := 0
      needflush := true
      blksz := CNFS_DFL_BLOCKSIZE
      free := 0
      metaname := strncpy 16 [] })

def minartoffset (len blksz : Int) : Int :=
  let minartoffset := len.tdiv (blksz * 8) + CNFS_BEFOREBITF
  minartoffset + (CNFS_HDR_PAGESIZE - minartoffset % CNFS_HDR_PAGESIZE)

structure Calls where
  opens : Bool
  maps : Bool
  mapsAgain : Bool

def CNFSinit_disks (SMopenmode : Bool) (now : Int64) (calls : Calls) (cycbuff : CYCBUFF) :
    Except Fault (Bool × CYCBUFF) :=
  if cycbuff.path.text = octets "/dev/null" then .ok (false, cycbuff)
  else if !cycbuff.fd && !calls.opens then .ok (false, cycbuff)
  else if !calls.maps then .ok (false, { cycbuff with fd := true, bitfield := false })
  else
    match readHeader { cycbuff with fd := true, bitfield := true } with
    | (false, cycbuff) => .ok (false, cycbuff)
    | (true, cycbuff) =>
      let cycbuff : CYCBUFF :=
        { cycbuff with minartoffset := minartoffset cycbuff.len cycbuff.blksz }
      if !calls.mapsAgain ∨ cycbuff.minartoffset ≤ 0 then .ok (false,
        { cycbuff with bitfield := false })
      else
        let cycbuff :=
          { cycbuff with free := if cycbuff.free = 0 then cycbuff.minartoffset else cycbuff.free }
        if cycbuff.needflush then CNFSflushhead SMopenmode now cycbuff
        else .ok (true, cycbuff)

section Geometry

variable (len blksz : Int)

theorem dvd_minartoffset : CNFS_HDR_PAGESIZE ∣ minartoffset len blksz := by
  unfold minartoffset CNFS_HDR_PAGESIZE
  dsimp only
  omega

theorem lt_minartoffset : len.tdiv (blksz * 8) + CNFS_BEFOREBITF < minartoffset len blksz := by
  unfold minartoffset CNFS_HDR_PAGESIZE
  dsimp only
  omega

variable {len blksz}

theorem minartoffset_le (hlen : 0 ≤ len) (hblksz : 512 ≤ blksz) :
    minartoffset len blksz ≤ len / 4096 + 16896 := by
  have hquotient : len.tdiv (blksz * 8) ≤ len / 4096 := by
    rw [Int.tdiv_eq_ediv_of_nonneg hlen, Int.le_ediv_iff_mul_le (by decide)]
    have hnonneg : 0 ≤ len / (blksz * 8) := Int.ediv_nonneg hlen (by omega)
    calc len / (blksz * 8) * 4096
      _ ≤ len / (blksz * 8) * (blksz * 8) := Int.mul_le_mul_of_nonneg_left (by omega) hnonneg
      _ ≤ len := Int.ediv_mul_le len (by omega)
  unfold minartoffset CNFS_HDR_PAGESIZE CNFS_BEFOREBITF
  dsimp only
  omega

end Geometry

section RoundTrip

variable {cycbuff reader : CYCBUFF}

structure Opened (cycbuff : CYCBUFF) : Prop where
  path : cycbuff.path.text ≠ octets "/dev/null"
  version : cycbuff.magicver = 3 ∧ cycbuff.blksz = 512 ∨ cycbuff.magicver = 4
  smallest : 512 ≤ cycbuff.blksz
  largest : cycbuff.blksz ≤ CNFS_MAX_BLOCKSIZE
  even : 2 * cycbuff.blksz.tdiv 2 = cycbuff.blksz
  minart : cycbuff.minartoffset = minartoffset cycbuff.len cycbuff.blksz
  front : 0 < cycbuff.minartoffset
  free_pos : 0 < cycbuff.free
  free_lt : cycbuff.free < 2 ^ 63
  updated : IsOffset cycbuff.updated
  order : IsInt cycbuff.order

/-- The header in memory is the one that was flushed. -/
structure Recovered (a b : CYCBUFF) : Prop where
  free : a.free = b.free
  cyclenum : a.cyclenum = b.cyclenum
  updated : a.updated = b.updated
  magicver : a.magicver = b.magicver
  blksz : a.blksz = b.blksz
  minartoffset : a.minartoffset = b.minartoffset
  currentbuff : a.currentbuff = b.currentbuff
  metaname : a.metaname = b.metaname
  order : a.order = b.order

theorem int_range (n : Int) : IsInt (int n) := by
  have hlow := Int.le_bmod (x := n) (m := 2 ^ 32) (by decide)
  have hhigh := Int.bmod_lt (x := n) (m := 2 ^ 32) (by decide)
  exact ⟨by simpa [int] using hlow, by simpa [int] using hhigh⟩

theorem int_eq {n : Int} (hn : IsInt n) : int n = n :=
  Int.bmod_eq_of_le (by have := hn.1; omega) (by have := hn.2; omega)

theorem IsInt.isOffset {n : Int} (hn : IsInt n) : IsOffset n := by
  obtain ⟨hlow, hhigh⟩ := hn
  exact ⟨by omega, by omega⟩

theorem Int64.isOffset (now : Int64) : IsOffset now.toInt := ⟨now.le_toInt, now.toInt_lt⟩

theorem uint32_t_off_t (n : UInt32) : uint32_t (off_t n.toNat) = n := by
  have hn := n.toNat_lt
  have hoff : off_t n.toNat = n.toNat := off_t_eq ⟨by omega, by omega⟩
  apply UInt32.toNat.inj
  have h := uint32_t_toNat (n := n.toNat) (by omega) (by omega)
  rw [hoff]
  exact Int.ofNat_inj.mp h

theorem Opened.blksz_isInt (h : Opened cycbuff) : IsInt cycbuff.blksz := by
  have hlarge : cycbuff.blksz ≤ 16384 := h.largest
  have hsmall := h.smallest
  exact ⟨by omega, by omega⟩

theorem strncpy_flag (flag : Bool) :
    decide ((strncpy 8 (if flag then octets "TRUE" else octets "FALSE")).text =
      octets "TRUE") = flag := by
  cases flag <;> decide +kernel

theorem magicver_rpx (h : Opened cycbuff) : magicver (rpx cycbuff) = cycbuff.magicver ∧
    (cycbuff.magicver = 4 → (rpx cycbuff).magic.text.take 5 ≠ CNFS_MAGICV3) := by
  rcases h.version with ⟨hthree, -⟩ | hfour
  · have hmagic : (rpx cycbuff).magic = strncpy 8 CNFS_MAGICV3 := by rw [rpx, if_pos hthree]
    refine ⟨?_, fun hfour => by omega⟩
    rw [magicver, hmagic, hthree]
    decide +kernel
  · have hmagic : (rpx cycbuff).magic = strncpy 8 CNFS_MAGICV4 := by rw [rpx, if_neg (by omega)]
    rw [magicver, hmagic, hfour]
    exact ⟨by decide +kernel, fun _ => by decide +kernel⟩

theorem readHeader_rpx (h : Opened cycbuff) (hlen : IsOffset cycbuff.len)
    (hfile : reader.file.header = rpx cycbuff)
    (hname : reader.name = cycbuff.name) (hreader : reader.len = cycbuff.len) :
    readHeader reader = (true, { reader with
      magicver := cycbuff.magicver
      blksz := cycbuff.blksz
      free := cycbuff.free
      updated := cycbuff.updated
      cyclenum := cycbuff.cyclenum
      metaname := cycbuff.metaname
      order := cycbuff.order
      currentbuff := cycbuff.currentbuff }) := by
  obtain ⟨hmagicver, hfour⟩ := magicver_rpx h
  have hrname : (rpx cycbuff).name.text = reader.name.text := by
    rw [hname]
    exact congrArg Chars.text (strncpy_self _)
  have hrlen : CNFShex2offt (rpx cycbuff).lena.text = reader.len :=
    (CNFShex2offt_number _).trans ((off_t_eq hlen).trans hreader.symm)
  have hfree : CNFShex2offt (rpx cycbuff).freea.text = cycbuff.free :=
    (CNFShex2offt_number _).trans (off_t_eq ⟨by have := h.free_pos; omega, h.free_lt⟩)
  have hupdated : CNFShex2offt (rpx cycbuff).updateda.text = cycbuff.updated :=
    (CNFShex2offt_number _).trans (off_t_eq h.updated)
  have hcyclenum : uint32_t (CNFShex2offt (rpx cycbuff).cyclenuma.text) = cycbuff.cyclenum :=
    (congrArg uint32_t (CNFShex2offt_number _)).trans (uint32_t_off_t _)
  have hmetaname : strncpy 16 (rpx cycbuff).metaname.text = cycbuff.metaname :=
    (strncpy_self _).trans (strncpy_self _)
  have horder : int (CNFShex2offt (rpx cycbuff).orderinmeta.text) = cycbuff.order :=
    (congrArg int ((CNFShex2offt_number _).trans (off_t_eq h.order.isOffset))).trans
      (int_eq h.order)
  have hcurrent : decide ((rpx cycbuff).currentbuff.text = octets "TRUE") = cycbuff.currentbuff :=
    strncpy_flag cycbuff.currentbuff
  have hblksz : int (CNFShex2offt (rpx cycbuff).blksza.text) = cycbuff.blksz :=
    (congrArg int ((CNFShex2offt_number _).trans (off_t_eq h.blksz_isInt.isOffset))).trans
      (int_eq h.blksz_isInt)
  have hsmallest := Int.not_lt.mpr h.smallest
  have hlargest := Int.not_lt.mpr h.largest
  rcases h.version with ⟨hversion, hsize⟩ | hversion
  · -- The third version has no block size of its own.
    have hmagic : (rpx cycbuff).magic = strncpy 8 CNFS_MAGICV3 := by rw [rpx, if_pos hversion]
    have hthree : (rpx cycbuff).magic.text.take 5 = CNFS_MAGICV3 := by
      rw [hmagic]
      decide +kernel
    simp [readHeader, hfile, hmagicver, hversion, hthree, hrname, hrlen, hfree, hupdated, hcyclenum,
      hmetaname, horder,
      hcurrent, hsize, CNFS_MAX_BLOCKSIZE]
  · simp [readHeader, hfile, hmagicver, hversion, hfour hversion, hrname, hrlen, hfree, hupdated,
      hcyclenum, hmetaname,
      horder, hcurrent, hblksz, hsmallest, hlargest, h.even]

end RoundTrip

section Passing

variable {cycbuff read : CYCBUFF}

def freeOf (rpx : CYCBUFFEXTERN) : Int :=
  if 3 ≤ magicver rpx then CNFShex2offt rpx.freea.text else 0

def blkszOf (rpx : CYCBUFFEXTERN) : Int :=
  if magicver rpx = 4 then int (CNFShex2offt rpx.blksza.text)
  else if magicver rpx = 3 then 512
  else CNFS_DFL_BLOCKSIZE

/-- A header that `CNFSinit_disks` takes. -/
structure Passes (rpx : CYCBUFFEXTERN) (name : Chars 16) (len : Int) : Prop where
  same : 3 ≤ magicver rpx → rpx.name.text = name.text ∧ CNFShex2offt rpx.lena.text = len
  smallest : 512 ≤ blkszOf rpx
  largest : blkszOf rpx ≤ CNFS_MAX_BLOCKSIZE
  even : 2 * (blkszOf rpx).tdiv 2 = blkszOf rpx

structure Read (cycbuff read : CYCBUFF) : Prop where
  name : read.name = cycbuff.name
  path : read.path = cycbuff.path
  len : read.len = cycbuff.len
  fd : read.fd = cycbuff.fd
  bitfield : read.bitfield = cycbuff.bitfield
  file : read.file = cycbuff.file
  needflush : 3 ≤ magicver cycbuff.file.header → read.needflush = cycbuff.needflush
  new : magicver cycbuff.file.header < 3 → read.needflush = true
  free : read.free = freeOf cycbuff.file.header
  blksz : read.blksz = blkszOf cycbuff.file.header
  version : read.magicver = 3 ∧ read.blksz = 512 ∨ read.magicver = 4
  updated : IsOffset read.updated
  order : IsInt read.order

theorem magicver_cases (rpx : CYCBUFFEXTERN) :
    magicver rpx = 4 ∧ rpx.magic.text.take 5 ≠ CNFS_MAGICV3 ∨
      magicver rpx = 3 ∧ rpx.magic.text.take 5 = CNFS_MAGICV3 ∨
      magicver rpx = 0 ∧ rpx.magic.text.take 5 ≠ CNFS_MAGICV3 := by
  unfold magicver
  split
  next hfour =>
    rw [hfour]
    exact .inl ⟨rfl, by decide +kernel⟩
  next =>
    split
    next hthree => exact .inr (.inl ⟨rfl, hthree⟩)
    next hthree => exact .inr (.inr ⟨rfl, hthree⟩)

theorem isOffset_zero : IsOffset 0 := ⟨by decide, by decide⟩

theorem isInt_zero : IsInt 0 := ⟨by decide, by decide⟩

theorem isOffset_CNFShex2offt (hex : Octets) : IsOffset (CNFShex2offt hex) := by
  unfold CNFShex2offt
  suffices h : ∀ n, IsOffset n → IsOffset (addDigits hex n) from h 0 isOffset_zero
  induction hex with
  | nil => exact fun n hn => hn
  | cons c hex ih =>
    intro n hn
    rw [addDigits]
    split
    · apply ih
      split
      · exact off_t_range _
      · exact off_t_range _
    · exact hn

theorem readHeader_of_passes (h : Passes cycbuff.file.header cycbuff.name cycbuff.len) :
    ∃ read, readHeader cycbuff = (true, read) ∧ Read cycbuff read := by
  have hsmallest := Int.not_lt.mpr h.smallest
  have hlargest := Int.not_lt.mpr h.largest
  have heven := h.even
  rcases magicver_cases cycbuff.file.header with ⟨hfour, hmagic⟩ | ⟨hthree, hmagic⟩ | ⟨hnew, hmagic⟩
  · obtain ⟨hname, hlen⟩ := h.same (by omega)
    have hblksz : blkszOf cycbuff.file.header =
      int (CNFShex2offt cycbuff.file.header.blksza.text) := if_pos hfour
    rw [hblksz] at hsmallest hlargest heven
    refine ⟨_, by simp [readHeader, hfour, hmagic, hname, hlen, hsmallest,
      hlargest, heven]; rfl, ?_⟩
    exact ⟨rfl, rfl, rfl, rfl, rfl, rfl, fun _ => rfl, fun h => (by omega),
      (if_pos (by omega)).symm, hblksz.symm, .inr rfl,
      isOffset_CNFShex2offt _, int_range _⟩
  · obtain ⟨hname, hlen⟩ := h.same (by omega)
    have hblksz : blkszOf cycbuff.file.header = 512 := (if_neg (by omega)).trans (if_pos hthree)
    refine ⟨_, by simp [readHeader, hthree, hmagic, hname, hlen, CNFS_MAX_BLOCKSIZE]; rfl, ?_⟩
    exact ⟨rfl, rfl, rfl, rfl, rfl, rfl, fun _ => rfl, fun h => (by omega),
      (if_pos (by omega)).symm, hblksz.symm, .inl ⟨rfl, rfl⟩,
      isOffset_CNFShex2offt _, int_range _⟩
  · have hblksz : blkszOf cycbuff.file.header = CNFS_DFL_BLOCKSIZE :=
      (if_neg (by omega)).trans (if_neg (by omega))
    refine ⟨_, by simp [readHeader, hnew, hmagic]; rfl, ?_⟩
    exact ⟨rfl, rfl, rfl, rfl, rfl, rfl, fun h => (by omega), fun _ => rfl,
      (if_neg (by omega)).symm, hblksz.symm, .inr rfl, isOffset_zero,
      isInt_zero⟩

theorem passes_of_readHeader (h : (readHeader cycbuff).1 = true) :
    Passes cycbuff.file.header cycbuff.name cycbuff.len := by
  rcases magicver_cases cycbuff.file.header with ⟨hfour, hmagic⟩ | ⟨hthree, hmagic⟩ | ⟨hnew, hmagic⟩
  · have hblksz : blkszOf cycbuff.file.header =
        int (CNFShex2offt cycbuff.file.header.blksza.text) := if_pos hfour
    by_cases hname : cycbuff.file.header.name.text = cycbuff.name.text
    · by_cases hlen : CNFShex2offt cycbuff.file.header.lena.text = cycbuff.len
      · by_cases hsize : int (CNFShex2offt cycbuff.file.header.blksza.text) < 512 ∨
            CNFS_MAX_BLOCKSIZE < int (CNFShex2offt cycbuff.file.header.blksza.text) ∨
            ¬2 * (int (CNFShex2offt cycbuff.file.header.blksza.text)).tdiv 2 =
              int (CNFShex2offt cycbuff.file.header.blksza.text)
        · simp [readHeader, hfour, hmagic, hname, hlen, hsize] at h
        · push Not at hsize
          rw [← hblksz] at hsize
          exact ⟨fun _ => ⟨hname, hlen⟩, hsize.1, hsize.2.1, hsize.2.2⟩
      · simp [readHeader, hfour, hmagic, hname, hlen] at h
    · simp [readHeader, hfour, hmagic, hname] at h
  · have hblksz : blkszOf cycbuff.file.header = 512 := (if_neg (by omega)).trans (if_pos hthree)
    by_cases hname : cycbuff.file.header.name.text = cycbuff.name.text
    · by_cases hlen : CNFShex2offt cycbuff.file.header.lena.text = cycbuff.len
      · refine ⟨fun _ => ⟨hname, hlen⟩, ?_, ?_, ?_⟩ <;> rw [hblksz] <;> decide
      · simp [readHeader, hthree, hmagic, hname, hlen] at h
    · simp [readHeader, hthree, hmagic, hname] at h
  · have hblksz : blkszOf cycbuff.file.header = CNFS_DFL_BLOCKSIZE :=
      (if_neg (by omega)).trans (if_neg (by omega))
    refine ⟨fun _ => by omega, ?_, ?_, ?_⟩ <;> rw [hblksz] <;> decide

theorem passes_rpx (h : Opened cycbuff) (hlen : IsOffset cycbuff.len) :
    Passes (rpx cycbuff) cycbuff.name cycbuff.len ∧ freeOf (rpx cycbuff) = cycbuff.free ∧
      blkszOf (rpx cycbuff) = cycbuff.blksz := by
  let reader : CYCBUFF := { cycbuff with file := { cycbuff.file with header := rpx cycbuff } }
  have hread := readHeader_rpx h hlen (show reader.file.header = rpx cycbuff from rfl) rfl rfl
  have hpasses := passes_of_readHeader (congrArg Prod.fst hread)
  obtain ⟨read, hread', hspec⟩ := readHeader_of_passes hpasses
  obtain rfl := (Prod.mk.inj (hread.symm.trans hread')).2
  exact ⟨hpasses, hspec.free.symm, hspec.blksz.symm⟩

end Passing

section Steps

variable {cycbuff : CYCBUFF} {now : Int64}

def flushed (now : Int64) (cycbuff : CYCBUFF) : CYCBUFF :=
  let cycbuff := { cycbuff with updated := now.toInt }
  { cycbuff with file := { cycbuff.file with header := rpx cycbuff }, needflush := false }

def started (read : CYCBUFF) : CYCBUFF :=
  { read with
    minartoffset := minartoffset read.len read.blksz
    free := if read.free = 0 then minartoffset read.len read.blksz else read.free }

theorem CNFSflushhead_eq {SMopenmode : Bool} (hneed : cycbuff.needflush = false) :
    CNFSflushhead SMopenmode now cycbuff = .ok (true, cycbuff) := by
  rw [CNFSflushhead, hneed]
  rfl

theorem CNFSflushhead_opened (h : Opened cycbuff) (hmapped : cycbuff.bitfield = true) :
    CNFSflushhead true now cycbuff =
      .ok (true, if cycbuff.needflush then flushed now cycbuff else cycbuff) := by
  cases hneed : cycbuff.needflush with
  | false => exact CNFSflushhead_eq hneed
  | true =>
    have hversion : cycbuff.magicver = 3 ∨ cycbuff.magicver = 4 := h.version.imp_left And.left
    simp [CNFSflushhead, hneed, hversion, hmapped, flushed]

theorem Opened.congr {c : CYCBUFF} (h : Opened cycbuff) (hpath : c.path = cycbuff.path)
    (hversion : c.magicver = cycbuff.magicver) (hblksz : c.blksz = cycbuff.blksz)
    (hlen : c.len = cycbuff.len)
    (hminart : c.minartoffset = cycbuff.minartoffset) (hpos : 0 < c.free) (hlt : c.free < 2 ^ 63)
    (hupdated : IsOffset c.updated) (horder : IsInt c.order) : Opened c where
  path := hpath ▸ h.path
  version := by rw [hversion, hblksz]; exact h.version
  smallest := hblksz ▸ h.smallest
  largest := hblksz ▸ h.largest
  even := by rw [hblksz]; exact h.even
  minart := by rw [hminart, hlen, hblksz]; exact h.minart
  front := hminart ▸ h.front
  free_pos := hpos
  free_lt := hlt
  updated := hupdated
  order := horder

theorem Opened.updated_now (h : Opened cycbuff) (now : Int64) :
    Opened { cycbuff with updated := now.toInt } :=
  h.congr rfl rfl rfl rfl rfl h.free_pos h.free_lt (Int64.isOffset now) h.order

theorem Opened.flushed (h : Opened cycbuff) : Opened (flushed now cycbuff) :=
  h.congr rfl rfl rfl rfl rfl h.free_pos h.free_lt (Int64.isOffset now) h.order

theorem CNFSinit_disks_cases (h : Passes cycbuff.file.header cycbuff.name cycbuff.len) (now : Int64)
    (calls : Calls) :
    CNFSinit_disks true now calls cycbuff = .ok (false, cycbuff) ∨
      (∃ closed : CYCBUFF, CNFSinit_disks true now calls cycbuff = .ok (false, closed) ∧
        closed.bitfield = false ∧
        closed.name = cycbuff.name ∧ closed.len = cycbuff.len ∧ closed.file = cycbuff.file ∧
        (3 ≤ magicver cycbuff.file.header → closed.needflush = cycbuff.needflush)) ∨
      ∃ read, Read { cycbuff with fd := true, bitfield := true } read ∧
        cycbuff.path.text ≠ octets "/dev/null" ∧
        0 < minartoffset read.len read.blksz ∧
          CNFSinit_disks true now calls cycbuff = CNFSflushhead true now (started read) := by
  let opening : CYCBUFF := { cycbuff with fd := true, bitfield := true }
  obtain ⟨read, hread, hspec⟩ :=
    readHeader_of_passes (show Passes opening.file.header opening.name opening.len from h)
  unfold CNFSinit_disks
  split
  next => exact .inl rfl
  next hpath =>
    split
    next => exact .inl rfl
    next =>
      split
      next => exact .inr (.inl ⟨_, rfl, rfl, rfl, rfl, rfl, fun _ => rfl⟩)
      next =>
        rw [hread]
        dsimp only
        split
        next => exact .inr (.inl ⟨_, rfl, rfl, hspec.name, hspec.len, hspec.file, hspec.needflush⟩)
        next hmaps =>
          refine .inr (.inr ⟨read, hspec, hpath, ?_, ?_⟩)
          · push Not at hmaps
            exact hmaps.2
          · split
            next => rfl
            next hneed => exact (CNFSflushhead_eq (by simpa using hneed)).symm

theorem passes_of_init {SMopenmode : Bool} {calls : Calls} {r : Bool × CYCBUFF}
    (h : CNFSinit_disks SMopenmode now calls cycbuff = .ok r) (hdone : r.1 = true) :
    Passes cycbuff.file.header cycbuff.name cycbuff.len := by
  let opening : CYCBUFF := { cycbuff with fd := true, bitfield := true }
  by_cases hread : (readHeader opening).1 = true
  · have hpasses : Passes opening.file.header opening.name opening.len := passes_of_readHeader hread
    exact hpasses
  · have hrefused : readHeader opening = (false, (readHeader opening).2) :=
      Prod.ext (by simpa using hread) rfl
    unfold CNFSinit_disks at h
    split at h
    next =>
      cases h
      cases hdone
    next =>
      split at h
      next =>
        cases h
        cases hdone
      next =>
        split at h
        next =>
          cases h
          cases hdone
        next =>
          rw [hrefused] at h
          cases h
          cases hdone

theorem freeOf_lt (rpx : CYCBUFFEXTERN) : freeOf rpx < 2 ^ 63 := by
  unfold freeOf
  split
  · exact (isOffset_CNFShex2offt _).2
  · exact isOffset_zero.2

theorem Read.opened {read : CYCBUFF}
    (hread : Read { cycbuff with fd := true, bitfield := true } read)
    (hpasses : Passes cycbuff.file.header cycbuff.name cycbuff.len)
    (hfree : 0 ≤ freeOf cycbuff.file.header)
    (hpath : cycbuff.path.text ≠ octets "/dev/null") (hlen : 0 ≤ cycbuff.len)
    (hlarge : cycbuff.len < 2 ^ 63)
    (hfront : 0 < minartoffset read.len read.blksz) : Opened (started read) := by
  have hsize : read.blksz = blkszOf cycbuff.file.header := hread.blksz
  have hread_free : read.free = freeOf cycbuff.file.header := hread.free
  have hread_len : read.len = cycbuff.len := hread.len
  have hsmallest : 512 ≤ read.blksz := hpasses.smallest.trans_eq hsize.symm
  refine ⟨by rw [← hread.path] at hpath; exact hpath, hread.version, hsmallest, hsize.trans_le hpasses.largest, ?_, rfl,
    hfront, ?_, ?_, hread.updated, hread.order⟩
  · change 2 * read.blksz.tdiv 2 = read.blksz
    rw [hsize]
    exact hpasses.even
  · change 0 < if read.free = 0 then _ else read.free
    split
    · exact hfront
    · omega
  · change (if read.free = 0 then minartoffset read.len read.blksz else read.free) < 2 ^ 63
    have hmin := minartoffset_le (by omega : 0 ≤ read.len) hsmallest
    have hlt := freeOf_lt cycbuff.file.header
    split
    · omega
    · omega

end Steps

end Inn.Storage.Cnfs
