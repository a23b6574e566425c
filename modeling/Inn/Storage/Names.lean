import Inn.Innd.Channel

/-!
# Names in the spool

The time and the storage class of an article are spread over the names of its directories and of
its file, in hexadecimal digits. They are read back from the names that a directory holds.
-/

namespace Inn.Storage

def hexDigit (d : Nat) : UInt8 := if d < 10 then (48 + d).toUInt8 else (87 + d).toUInt8

def hexDigits : Nat → Nat → Octets
  | 0, _ => []
  | width + 1, value => hexDigits width (value / 16) ++ [hexDigit (value % 16)]

def isxdigit (c : UInt8) : Bool := (48 ≤ c && c ≤ 57) || (65 ≤ c && c ≤ 70) || (97 ≤ c && c ≤ 102)

def hexValue (c : UInt8) : Nat :=
  if c ≤ 57 then c.toNat - 48 else if c ≤ 70 then c.toNat - 55 else c.toNat - 87

def readHex (text : Octets) : Nat := text.foldl (fun value c => 16 * value + hexValue c) 0

theorem hexValue_hexDigit : ∀ d < 16, hexValue (hexDigit d) = d := by decide

theorem isxdigit_hexDigit : ∀ d < 16, isxdigit (hexDigit d) = true := by decide

theorem hexDigits_length (width value : Nat) : (hexDigits width value).length = width := by
  induction width generalizing value with
  | zero => rfl
  | succ width ih => rw [hexDigits, List.length_append, ih, List.length_singleton]

theorem hexDigits_isxdigit (width value : Nat) : (hexDigits width value).all isxdigit = true := by
  induction width generalizing value with
  | zero => rfl
  | succ width ih =>
    rw [hexDigits, List.all_append, ih, List.all_cons,
      isxdigit_hexDigit _ (Nat.mod_lt _ (by decide))]
    rfl

theorem foldl_readHex (text : Octets) (value : Nat) :
    text.foldl (fun value c => 16 * value + hexValue c) value =
      16 ^ text.length * value + readHex text := by
  induction text generalizing value with
  | nil => simp [readHex]
  | cons c text ih =>
    have hfirst : readHex (c :: text) = 16 ^ text.length * hexValue c + readHex text := by
      rw [readHex, List.foldl_cons, ih, Nat.mul_zero, Nat.zero_add]
    rw [List.foldl_cons, ih, hfirst, List.length_cons, Nat.pow_succ]
    ring

theorem readHex_append (front text : Octets) :
    readHex (front ++ text) = 16 ^ text.length * readHex front + readHex text := by
  rw [readHex, List.foldl_append, foldl_readHex]
  rfl

theorem readHex_hexDigits (width value : Nat) :
    readHex (hexDigits width value) = value % 16 ^ width := by
  induction width generalizing value with
  | zero => rw [Nat.pow_zero, Nat.mod_one]; rfl
  | succ width ih =>
    have hdigit : readHex [hexDigit (value % 16)] = value % 16 := by
      change 16 * 0 + hexValue _ = _
      rw [hexValue_hexDigit _ (Nat.mod_lt _ (by decide)), Nat.zero_add]
    rw [hexDigits, readHex_append, hdigit, ih, List.length_singleton, Nat.pow_one, Nat.pow_succ,
      Nat.mul_comm (16 ^ width) 16, Nat.mod_mul]
    omega

def isName (start : Octets) (width : Nat) (name : Octets) : Bool :=
  name.length = start.length + width && name.take start.length =
    start && (name.drop start.length).all isxdigit

theorem isName_hexDigits (start : Octets) (width value : Nat) :
    isName start width (start ++ hexDigits width value) = true := by
  rw [isName, List.length_append, hexDigits_length, List.take_left, List.drop_left,
    hexDigits_isxdigit]
  simp

def isDir (name : Octets) : Bool := isName [] 2 name

structure DirEntry (E : Type) where
  name : Octets
  entries : Option (List E)

end Inn.Storage
