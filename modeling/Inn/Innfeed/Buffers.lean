import Inn.Innd.Channel

/-!
# The buffers of innfeed

A buffer has memory, and data at the front of it. Most buffers own their memory and can get more of
it; the others are around memory that was there before.
-/

namespace Inn.Innfeed.Buffers

/-- A buffer, of which the first `dataSize` octets are its contents. -/
structure BufferS where
  mem : Octets
  memSize : Nat
  dataSize : Nat
  deletable : Bool
  fits : dataSize ≤ memSize
  owned : mem.length = memSize + if deletable then 1 else 0

def BufferS.contents (buff : BufferS) : Octets := buff.mem.take buff.dataSize

def xrealloc (mem : Octets) (size : Nat) (fresh : Nat → UInt8) : Octets :=
  mem.take size ++ (List.range' mem.length (size - mem.length)).map fresh

theorem xrealloc_length (mem : Octets) (size : Nat) (fresh : Nat → UInt8) :
    (xrealloc mem size fresh).length = size := by
  rw [xrealloc, List.length_append, List.length_take, List.length_map, List.length_range']
  omega

theorem take_xrealloc {mem : Octets} {n size : Nat} (fresh : Nat → UInt8) (hn : n ≤ mem.length)
    (hsize : n ≤ size) :
    (xrealloc mem size fresh).take n = mem.take n := by
  rw [xrealloc, List.take_append_of_le_length (by rw [List.length_take]; omega), List.take_take,
    Nat.min_eq_left hsize]

def expandBuffer (buff : BufferS) (amt : Nat) (fresh : Nat → UInt8) : Option BufferS :=
  if hdeletable : buff.deletable then
    some { buff with
      mem := xrealloc buff.mem (buff.memSize + amt + 1) fresh
      memSize := buff.memSize + amt
      fits := Nat.le_add_right_of_le buff.fits
      owned := by rw [xrealloc_length, if_pos hdeletable] }
  else none

theorem dataSize_le_length (buff : BufferS) : buff.dataSize ≤ buff.mem.length := by
  rw [buff.owned]
  exact Nat.le_add_right_of_le buff.fits

end Inn.Innfeed.Buffers
