import Inn.Storage.Names

/-!
# Numbers and tokens of the cyclic buffers

The header of a cyclic buffer holds its numbers in hexadecimal digits, and a token
holds the name of the buffer, the block and the cycle of an article in fields of
fixed width.
-/

namespace Inn.Storage.Cnfs

def off_t (n : Int) : Int := n.bmod (2 ^ 64)

def IsOffset (n : Int) : Prop := -2 ^ 63 ≤ n ∧ n < 2 ^ 63

def ZERO : UInt8 := 48

def printLx (value : Nat) : Octets :=
  if value = 0 then [ZERO] else (hexDigits 16 value).dropWhile (· = ZERO)

def CNFSofft2hex (offset : Int) (leadingzeros : Bool) : Octets :=
  let value := (offset % 2 ^ 64).toNat
  let buf := if leadingzeros then hexDigits 16 value else printLx value
  if leadingzeros then buf
  else
    let p := buf.dropWhile (· = ZERO)
    -- A number that is nothing but zeros keeps the last one.
    if p = [] then buf.drop (buf.length - 1) else p

def isalnum (c : UInt8) : Bool := (48 ≤ c && c ≤ 57) || (65 ≤ c && c ≤ 90) || (97 ≤ c && c ≤ 122)

def addDigits : Octets → Int → Int
  | [], n => n
  | c :: hex, n =>
    if isxdigit c then
      let n := off_t (n + hexValue c)
      addDigits hex (if isalnum (hex.headD 0) then off_t (n * 16) else n)
    else n

def CNFShex2offt (hex : Octets) : Int := addDigits hex 0

theorem off_t_range (n : Int) : IsOffset (off_t n) := by
  have hlow := Int.le_bmod (x := n) (m := 2 ^ 64) (by decide)
  have hhigh := Int.bmod_lt (x := n) (m := 2 ^ 64) (by decide)
  exact ⟨by simpa [off_t] using hlow, by simpa [off_t] using hhigh⟩

theorem off_t_eq {n : Int} (hn : IsOffset n) : off_t n = n :=
  Int.bmod_eq_of_le (by have := hn.1; omega) (by have := hn.2; omega)

theorem off_t_modEq (n : Int) : off_t n ≡ n [ZMOD 2 ^ 64] := Int.bmod_emod

theorem off_t_congr {n m : Int} (h : n ≡ m [ZMOD 2 ^ 64]) : off_t n = off_t m := by
  have h' : n % (2 ^ 64 : Nat) = m % (2 ^ 64 : Nat) := h
  rw [off_t, off_t, ← Int.emod_bmod, h', Int.emod_bmod]

theorem isalnum_of_isxdigit (c : UInt8) (hc : isxdigit c = true) : isalnum c = true := by
  simp only [isxdigit, isalnum, Bool.or_eq_true, Bool.and_eq_true, decide_eq_true_eq,
    UInt8.le_iff_toNat_le] at hc ⊢
  rcases hc with (⟨h1, h2⟩ | ⟨h1, h2⟩) | ⟨h1, h2⟩
  · exact .inl (.inl ⟨h1, h2⟩)
  · exact .inl (.inr ⟨h1, h2.trans (by decide)⟩)
  · exact .inr ⟨h1, h2.trans (by decide)⟩

theorem addDigits_eq (c : UInt8) (hex : Octets) (hall : (c :: hex).all isxdigit = true) (n : Int) :
    addDigits (c :: hex) n = off_t (16 ^ hex.length * n + readHex (c :: hex)) := by
  induction hex generalizing c n with
  | nil =>
    rw [List.all_cons, Bool.and_eq_true] at hall
    have hread : readHex [c] = hexValue c := by
      change 16 * 0 + hexValue c = _
      rw [Nat.mul_zero, Nat.zero_add]
    rw [addDigits, if_pos hall.1, hread, List.length_nil, pow_zero, one_mul]
    rfl
  | cons d hex ih =>
    rw [List.all_cons, Bool.and_eq_true] at hall
    have hd : isxdigit d = true := by
      have := hall.2
      rw [List.all_cons, Bool.and_eq_true] at this
      exact this.1
    have hread :
        readHex (c :: d :: hex) = 16 ^ (hex.length + 1) * hexValue c + readHex (d :: hex) := by
      rw [readHex, List.foldl_cons, foldl_readHex, Nat.mul_zero, Nat.zero_add, List.length_cons]
    rw [addDigits, if_pos hall.1, List.headD_cons]
    simp only [if_pos (isalnum_of_isxdigit d hd)]
    rw [ih d hall.2, hread]
    apply off_t_congr
    have hshift : off_t (off_t (n + hexValue c) * 16) ≡ (n + hexValue c) * 16 [ZMOD 2 ^ 64] :=
      (off_t_modEq _).trans ((off_t_modEq _).mul_right 16)
    have hsum : (16 : Int) ^ hex.length * ((n + hexValue c) * 16) + readHex (d :: hex) =
        16 ^ (d :: hex).length * n +
          ((16 ^ (hex.length + 1) * hexValue c + readHex (d :: hex) : Nat) : Int) := by
      push_cast
      rw [List.length_cons, pow_succ]
      ring
    rw [← hsum]
    exact (hshift.mul_left _).add_right _

theorem CNFShex2offt_eq {hex : Octets} (hall : hex.all isxdigit = true) :
    CNFShex2offt hex = off_t (readHex hex) := by
  cases hex with
  | nil => rfl
  | cons c hex => rw [CNFShex2offt, addDigits_eq c hex hall, mul_zero, zero_add]

theorem readHex_dropWhile (text : Octets) : readHex (text.dropWhile (· = ZERO)) = readHex text := by
  induction text with
  | nil => rfl
  | cons c text ih =>
    by_cases hc : c = ZERO
    · rw [List.dropWhile_cons_of_pos (by simpa using hc), ih, hc]
      rfl
    · rw [List.dropWhile_cons_of_neg (by simpa using hc)]

theorem dropWhile_isxdigit {text : Octets} (hall : text.all isxdigit = true) :
    (text.dropWhile (· = ZERO)).all isxdigit = true := by
  rw [List.all_eq_true] at hall ⊢
  exact fun c hc => hall c ((List.dropWhile_sublist _).subset hc)

theorem printLx_spec {value : Nat} (hvalue : value < 2 ^ 64) :
    (printLx value).all isxdigit = true ∧ readHex (printLx value) = value := by
  rw [printLx]
  split
  next hzero => exact ⟨rfl, hzero.symm⟩
  next => exact ⟨dropWhile_isxdigit (hexDigits_isxdigit 16 value), by
    rw [readHex_dropWhile, readHex_hexDigits, Nat.mod_eq_of_lt (by simpa using hvalue)]⟩

theorem CNFSofft2hex_spec (offset : Int) (leadingzeros : Bool) :
    (CNFSofft2hex offset leadingzeros).all isxdigit = true ∧
      readHex (CNFSofft2hex offset leadingzeros) = (offset % 2 ^ 64).toNat := by
  have hvalue : (offset % 2 ^ 64).toNat < 2 ^ 64 := by omega
  cases leadingzeros with
  | true =>
    refine ⟨hexDigits_isxdigit 16 _, ?_⟩
    change readHex (hexDigits 16 _) = _
    rw [readHex_hexDigits, Nat.mod_eq_of_lt (by simpa using hvalue)]
  | false =>
    obtain ⟨hall, hread⟩ := printLx_spec hvalue
    have hplain : CNFSofft2hex offset false =
        if (printLx (offset % 2 ^ 64).toNat).dropWhile (· = ZERO) = [] then
          (printLx (offset % 2 ^ 64).toNat).drop ((printLx (offset % 2 ^ 64).toNat).length - 1)
        else (printLx (offset % 2 ^ 64).toNat).dropWhile (· = ZERO) := rfl
    have hread' := readHex_dropWhile (printLx (offset % 2 ^ 64).toNat)
    rw [hread] at hread'
    rw [hplain]
    by_cases hzeros : (printLx (offset % 2 ^ 64).toNat).dropWhile (· = ZERO) = []
    · -- The zero that is kept stands for the number that the zeros stand for.
      rw [hzeros] at hread'
      rw [if_pos hzeros, ← hread']
      exact ⟨rfl, rfl⟩
    · rw [if_neg hzeros]
      exact ⟨dropWhile_isxdigit hall, hread'⟩

theorem CNFShex2offt_CNFSofft2hex (offset : Int) (leadingzeros : Bool) :
    CNFShex2offt (CNFSofft2hex offset leadingzeros) = off_t offset := by
  obtain ⟨hall, hread⟩ := CNFSofft2hex_spec offset leadingzeros
  rw [CNFShex2offt_eq hall, hread]
  apply off_t_congr
  rw [Int.toNat_of_nonneg (Int.emod_nonneg _ (by decide))]
  exact Int.mod_modEq _ _

theorem CNFSofft2hex_length (offset : Int) : (CNFSofft2hex offset true).length = 16 :=
    hexDigits_length 16 _

section Arrays

structure Chars (size : Nat) where
  text : Octets
  ended : 0 ∉ text
  fits : text.length ≤ size

variable {size : Nat}

@[ext]
theorem Chars.ext' {a b : Chars size} (h : a.text = b.text) : a = b := by
  cases a
  cases b
  cases h
  rfl

def Chars.octets (a : Chars size) : Octets := a.text ++ List.replicate (size - a.text.length) 0

def cString (s : Octets) : Octets := s.takeWhile (· ≠ 0)

def strncpy (size : Nat) (src : Octets) : Chars size where
  text := (cString src).take size
  ended := fun h => by simpa using List.all_eq_true.mp List.all_takeWhile _ (List.mem_of_mem_take h)
  fits := List.length_take_le size _

theorem cString_append {text : Octets} (hended : 0 ∉ text) (rest : Octets) :
    cString (text ++ 0 :: rest) = text := by
  rw [cString, List.takeWhile_append_of_pos fun c hc =>
    by simpa using fun h : c = 0 => hended (h ▸ hc),
    List.takeWhile_cons_of_neg (by simp), List.append_nil]

theorem cString_eq {text : Octets} (hended : 0 ∉ text) : cString text = text := by
  induction text with
  | nil => rfl
  | cons c text ih =>
    rw [List.mem_cons, not_or] at hended
    rw [cString, List.takeWhile_cons_of_pos (by simpa using Ne.symm hended.1)]
    exact congrArg (c :: ·) (ih hended.2)

theorem strncpy_text {src : Octets} (hended : 0 ∉ src) (hfits : src.length ≤ size) :
    (strncpy size src).text = src := by
  change (cString src).take size = src
  rw [cString_eq hended, List.take_of_length_le hfits]

theorem strncpy_self (a : Chars size) : strncpy size a.text = a :=
    Chars.ext' (strncpy_text a.ended a.fits)

theorem not_mem_of_isxdigit {hex : Octets} (hall : hex.all isxdigit = true) : 0 ∉ hex := fun h => by
  have := List.all_eq_true.mp hall 0 h
  revert this
  decide

def number (offset : Int) : Chars 16 := strncpy 16 (CNFSofft2hex offset true)

theorem CNFShex2offt_number (offset : Int) : CNFShex2offt (number offset).text = off_t offset := by
  rw [number, strncpy_text (not_mem_of_isxdigit (CNFSofft2hex_spec offset true).1)
    (CNFSofft2hex_length offset).le,
    CNFShex2offt_CNFSofft2hex]

end Arrays

def TOKEN_CNFS : UInt8 := 3

def CNFSMAXCYCBUFFNAME : Nat := 8

structure TOKEN where
  type : UInt8
  storageclass : UInt8
  token : Octets
  size : token.length = 16

def htonl (value : UInt32) : Octets :=
  [(value.toNat / 2 ^ 24).toUInt8, (value.toNat / 2 ^ 16).toUInt8, (value.toNat / 2 ^ 8).toUInt8,
    value.toNat.toUInt8]

def ntohl (octets : Octets) : UInt32 :=
    (octets.foldl (fun (value : Nat) c => 256 * value + c.toNat) 0).toUInt32

def uint32_t (n : Int) : UInt32 := (n % 2 ^ 32).toNat.toUInt32

theorem ntohl_htonl (value : UInt32) : ntohl (htonl value) = value := by
  apply UInt32.toNat.inj
  have hvalue := value.toNat_lt
  simp [ntohl, htonl, Nat.toUInt8, Nat.toUInt32]
  omega

theorem octets_length {size : Nat} (a : Chars size) : a.octets.length = size := by
  have := a.fits
  rw [Chars.octets, List.length_append, List.length_replicate]
  omega

def CNFSMakeToken (cycbuffname : Chars 16) (offset blksz : Int) (cycnum : UInt32)
    (storageclass : UInt8) : TOKEN where
  type := TOKEN_CNFS
  storageclass := storageclass
  token := cycbuffname.octets.take CNFSMAXCYCBUFFNAME ++
    htonl (uint32_t (offset.tdiv blksz)) ++ htonl cycnum
  size := by
    rw [List.length_append, List.length_append, List.length_take, octets_length]
    rfl

def CNFSBreakToken (token : TOKEN) : Octets × UInt32 × UInt32 :=
  (token.token.take CNFSMAXCYCBUFFNAME ++ [0], ntohl ((token.token.drop CNFSMAXCYCBUFFNAME).take 4),
    ntohl ((token.token.drop 12).take 4))

theorem CNFSBreakToken_CNFSMakeToken (cycbuffname : Chars 16) (offset blksz : Int) (cycnum : UInt32)
    (storageclass : UInt8) :
    CNFSBreakToken (CNFSMakeToken cycbuffname offset blksz cycnum storageclass) =
      (cycbuffname.octets.take CNFSMAXCYCBUFFNAME ++ [0],
        uint32_t (offset.tdiv blksz), cycnum) := by
  have hname : (cycbuffname.octets.take CNFSMAXCYCBUFFNAME).length = CNFSMAXCYCBUFFNAME := by
    rw [List.length_take, octets_length]
    rfl
  generalize hname' : cycbuffname.octets.take CNFSMAXCYCBUFFNAME = name at *
  have htoken : (CNFSMakeToken cycbuffname offset blksz cycnum storageclass).token =
      name ++ (htonl (uint32_t (offset.tdiv blksz)) ++ htonl cycnum) := by
    rw [← hname', ← List.append_assoc]
    rfl
  have hblock : (htonl (uint32_t (offset.tdiv blksz))).length = 4 := rfl
  rw [CNFSBreakToken, htoken, List.take_left' hname, List.drop_left' hname,
    List.take_left' hblock, ntohl_htonl,
    show 12 = CNFSMAXCYCBUFFNAME + 4 from rfl, ← List.drop_drop, List.drop_left' hname,
        List.drop_left' hblock]
  exact congrArg (fun n => (name ++ [0], uint32_t (offset.tdiv blksz), n)) (ntohl_htonl cycnum)

theorem cString_take {name : Chars 16} (hname : name.text.length ≤ CNFSMAXCYCBUFFNAME) :
    cString (name.octets.take CNFSMAXCYCBUFFNAME ++ [0]) = name.text := by
  rw [Chars.octets, List.take_append, List.take_of_length_le hname, List.take_replicate,
    List.append_assoc]
  generalize min (CNFSMAXCYCBUFFNAME - name.text.length) (16 - name.text.length) = k
  cases k with
  | zero => exact cString_append name.ended []
  | succ k => exact cString_append name.ended _

theorem uint32_t_toNat {n : Int} (hn : 0 ≤ n) (hlt : n < 2 ^ 32) :
    ((uint32_t n).toNat : Int) = n := by
  have hmod : (n % 2 ^ 32).toNat = n.toNat := by omega
  have hnat : n.toNat < 2 ^ 32 := by omega
  rw [uint32_t, hmod]
  change ((UInt32.ofNat n.toNat).toNat : Int) = n
  rw [UInt32.toNat_ofNat', Nat.mod_eq_of_lt hnat, Int.toNat_of_nonneg hn]

end Inn.Storage.Cnfs
