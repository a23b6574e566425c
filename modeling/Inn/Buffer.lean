import Inn.Foundation.Files

/-!
# Buffers

A `struct buffer` holds allocated octets, of which `left` from `used` on are
waiting. What is in front of them is consumed already, and what is behind them
is free. The allocation grows in steps of 1024 octets.
-/

namespace Inn

open Foundation.Files

structure Buffer where
  data : List UInt8
  used : Nat
  left : Nat
  fits : used + left ≤ data.length

namespace Buffer

def waiting (bp : Buffer) : List UInt8 := pread bp.data bp.used bp.left

theorem waiting_length (bp : Buffer) : bp.waiting.length = bp.left := by
  have hfits := bp.fits
  rw [waiting, pread, List.length_take, List.length_drop]
  omega

theorem waiting_eq_nil {bp : Buffer} (hleft : bp.left = 0) : bp.waiting = [] := by
  apply List.eq_nil_of_length_eq_zero
  rw [waiting_length, hleft]

end Buffer

def bufferNew : Buffer where
  data := []
  used := 0
  left := 0
  fits := Nat.le_refl 0

def bufferResize (bp : Buffer) (size : Nat) : Buffer :=
  if size < bp.data.length then
    bp
  else
    { data := bp.data ++ List.replicate ((size + 1023) / 1024 * 1024 - bp.data.length) 0
      used := bp.used
      left := bp.left
      fits := by
        have hfits := bp.fits
        rw [List.length_append]
        omega }

theorem le_bufferResize (bp : Buffer) (size : Nat) : size ≤ (bufferResize bp size).data.length := by
  unfold bufferResize
  split
  next hsize => exact Nat.le_of_lt hsize
  next hsize =>
    rw [List.length_append, List.length_replicate]
    omega

theorem take_bufferResize (bp : Buffer) (size : Nat) {n : Nat} (hn : n ≤ bp.data.length) :
    (bufferResize bp size).data.take n = bp.data.take n := by
  unfold bufferResize
  split
  · rfl
  · exact List.take_append_of_le_length hn

def bufferCompact (bp : Buffer) : Buffer :=
  if bp.used = 0 then
    bp
  else
    { data := overwrite 0 bp.data 0 bp.waiting
      used := 0
      left := bp.left
      fits := by
        have hlength : 0 + bp.waiting.length ≤ (overwrite 0 bp.data 0 bp.waiting).length :=
          length_overwrite_ge (Nat.zero_le bp.data.length)
        rw [bp.waiting_length] at hlength
        exact hlength }

def bufferAppend (bp : Buffer) (text : List UInt8) : Buffer :=
  if text = [] then
    bp
  else
    { data := overwrite 0 (bufferResize bp (bp.used + bp.left + text.length)).data
        (bp.used + bp.left) text
      used := bp.used
      left := bp.left + text.length
      fits := by
        have hsize := le_bufferResize bp (bp.used + bp.left + text.length)
        rw [← Nat.add_assoc]
        apply length_overwrite_ge
        omega }

def Buffer.consume (bp : Buffer) (count : Nat) : Buffer where
  data := bp.data
  used := bp.used + min count bp.left
  left := bp.left - count
  fits := by
    have hfits := bp.fits
    omega

def Buffer.clear (bp : Buffer) : Buffer where
  data := bp.data
  used := 0
  left := 0
  fits := Nat.zero_le _

theorem bufferCompact_left (bp : Buffer) : (bufferCompact bp).left = bp.left := by
  unfold bufferCompact
  split <;> rfl

theorem waiting_compact (bp : Buffer) : (bufferCompact bp).waiting = bp.waiting := by
  unfold bufferCompact
  split
  · rfl
  · change ((overwrite 0 bp.data 0 bp.waiting).drop 0).take bp.left = bp.waiting
    have hlength := bp.waiting_length
    have htake : (overwrite 0 bp.data 0 bp.waiting).take (0 + bp.left) =
        bp.data.take 0 ++ bp.waiting.take bp.left :=
      take_overwrite (Nat.zero_le bp.data.length) (Nat.le_of_eq hlength.symm)
    rw [List.drop_zero, ← Nat.zero_add bp.left, htake, List.take_zero, List.nil_append, ← hlength,
      List.take_length]

theorem waiting_append (bp : Buffer) (text : List UInt8) :
    (bufferAppend bp text).waiting = bp.waiting ++ text := by
  unfold bufferAppend
  split
  next hnil => rw [hnil, List.append_nil]
  next hnil =>
    have hfits := bp.fits
    have hsize := le_bufferResize bp (bp.used + bp.left + text.length)
    change ((overwrite 0 (bufferResize bp _).data (bp.used + bp.left) text).drop bp.used).take
      (bp.left + text.length) = _
    have htake :
        (overwrite 0 (bufferResize bp (bp.used + bp.left + text.length)).data
          (bp.used + bp.left) text).take
        (bp.used + bp.left + text.length) =
          (bufferResize bp (bp.used + bp.left + text.length)).data.take
          (bp.used + bp.left) ++ text.take text.length := take_overwrite (by omega) (Nat.le_refl _)
    rw [take_bufferResize bp _ hfits, List.take_length] at htake
    rw [List.take_drop, ← Nat.add_assoc, htake, List.drop_append_of_le_length, List.drop_take,
      Nat.add_sub_cancel_left]
    · rfl
    · rw [List.length_take]
      omega

theorem waiting_consume (bp : Buffer) (count : Nat) :
    (bp.consume count).waiting = bp.waiting.drop count := by
  change (bp.data.drop (bp.used + min count bp.left)).take (bp.left - count) =
    ((bp.data.drop bp.used).take bp.left).drop count
  rw [List.drop_take, List.drop_drop]
  cases Nat.le_total count bp.left with
  | inl hle => rw [Nat.min_eq_left hle]
  | inr hle => rw [Nat.sub_eq_zero_of_le hle, List.take_zero, List.take_zero]

end Inn
