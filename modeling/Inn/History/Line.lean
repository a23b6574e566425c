import Inn.Hash
import Inn.Foundation.Words
import Inn.Octets

/-!
# History lines

A line of the history file: the hash, the times, and the token of the article if
there is one. Behind the octets of a list there are nuls.
-/

namespace Inn.History

open Foundation.Words

structure TOKEN where
  token : Octets
  size : token.length = 18
  deriving DecidableEq

theorem zeros_length : (List.replicate 18 0 : List UInt8).length = 18 := rfl

abbrev time_t := Int64

def HISV6_FIELDSEP : UInt8 := 9

def HISV6_NOEXP : UInt8 := 45

def HISV6_SUBFIELDSEP : UInt8 := 126

def HISV6_MAXLINE : Nat := 137

def HISV6_MINLINE : Nat := 37

def hexDigit (n : Nat) : UInt8 := if n < 10 then (48 + n).toUInt8 else (55 + n).toUInt8

def encodeHex (data : Octets) : Octets :=
    data.flatMap fun c => [hexDigit (c.toNat / 16), hexDigit (c.toNat % 16)]

def hexPart (c : UInt8) : Option Nat :=
  if 48 ≤ c ∧ c ≤ 57 then some (c.toNat - 48)
  else if 65 ≤ c ∧ c ≤ 70 then some (c.toNat - 55)
  else if 97 ≤ c ∧ c ≤ 102 then some (c.toNat - 87)
  else none

def decodeHex : Nat → Octets → Octets
  | 0, _ => []
  | n + 1, text =>
    match hexPart (text.headD 0) with
    | none => List.replicate (n + 1) 0
    | some high =>
      match hexPart (text.tail.headD 0) with
      | none => (16 * high).toUInt8 :: List.replicate n 0
      | some low => (16 * high + low).toUInt8 :: decodeHex n text.tail.tail

theorem decodeHex_length (n : Nat) (text : Octets) : (decodeHex n text).length = n := by
  induction n generalizing text with
  | zero => rfl
  | succ n ih =>
    rw [decodeHex]
    split
    · rw [List.length_replicate]
    · split
      · rw [List.length_cons, List.length_replicate]
      · rw [List.length_cons, ih]

theorem hexPart_hexDigit : ∀ n < 16, hexPart (hexDigit n) = some n := by decide

theorem decodeHex_encodeHex (data rest : Octets) :
    decodeHex data.length (encodeHex data ++ rest) = data := by
  induction data with
  | nil => rfl
  | cons c data ih =>
    have hc := c.toNat_lt
    have hcons : encodeHex (c :: data) ++ rest =
        hexDigit (c.toNat / 16) :: hexDigit (c.toNat % 16) :: (encodeHex data ++ rest) := rfl
    rw [hcons, List.length_cons, decodeHex]
    simp only [List.headD_cons, List.tail_cons]
    rw [hexPart_hexDigit _ (by omega), hexPart_hexDigit _ (by omega)]
    dsimp only
    rw [ih, show 16 * (c.toNat / 16) + c.toNat % 16 =
      c.toNat by omega, Nat.toUInt8_eq, UInt8.ofNat_toNat]

theorem encodeHex_length (data : Octets) : (encodeHex data).length = 2 * data.length := by
  induction data with
  | nil => rfl
  | cons c data ih =>
    rw [encodeHex, List.flatMap_cons, List.length_append, ← encodeHex, ih, List.length_cons]
    simp only [List.length_cons, List.length_nil]
    omega

def upperHex (c : UInt8) : Bool := (48 ≤ c && c ≤ 57) || (65 ≤ c && c ≤ 70)

theorem upperHex_hexDigit : ∀ n < 16, upperHex (hexDigit n) = true := by decide

theorem encodeHex_upperHex (data : Octets) : ∀ c ∈ encodeHex data, upperHex c = true := by
  intro c hc
  obtain ⟨d, -, hd⟩ := List.mem_flatMap.mp hc
  have hlt := d.toNat_lt
  rcases List.mem_cons.mp hd with rfl | hd
  · exact upperHex_hexDigit _ (by omega)
  · obtain rfl := List.mem_singleton.mp hd
    exact upperHex_hexDigit _ (by omega)

def HashToText (hash : HASH) : Octets := encodeHex hash.hash

def TextToHash (text : Octets) : HASH := ⟨decodeHex 16 text, decodeHex_length 16 text⟩

def TokenToText (token : TOKEN) : Octets := 64 :: encodeHex token.token ++ [64]

def IsToken (text : Octets) : Bool :=
  text.length = 38 && text.headD 0 = 64 && (text.drop 37).headD 0 = 64 &&
    ((text.drop 1).take 36).all upperHex

def TextToToken (text : Octets) : TOKEN :=
  if IsToken text then ⟨decodeHex 18 (text.drop 1), decodeHex_length 18 _⟩
  else ⟨List.replicate 18 0, List.length_replicate⟩

def clampULONG (n : Nat) : UInt64 := UInt64.ofNat (min (2 ^ 64 - 1) n)

def strtoulDigits (text : Octets) (negative : Bool) (rest : Octets) : UInt64 × Octets :=
  if rest.takeWhile isdigit = [] then (0, text)
  else
    (if negative ∧ readDigits (rest.takeWhile isdigit) < 2 ^ 64 then
        -clampULONG (readDigits (rest.takeWhile isdigit))
      else clampULONG (readDigits (rest.takeWhile isdigit)), rest.dropWhile isdigit)

def strtoul (text : Octets) : UInt64 × Octets :=
  match text.dropWhile isspace with
  | 45 :: rest => strtoulDigits text true rest
  | 43 :: rest => strtoulDigits text false rest
  | rest => strtoulDigits text false rest

structure Fields where
  hash : HASH
  arrived : time_t
  posted : time_t
  expires : time_t
  token : Option TOKEN
  deriving DecidableEq

def splitPosted (p : Octets) : Except String (time_t × Octets) :=
  if p.headD 0 ≠ HISV6_SUBFIELDSEP then .ok (0, p)
  else
    let (l, p) := strtoul p.tail
    if l = -1 then .error "posted timestamp out of range" else .ok (l.toInt64, p)

def splitTimes (p : Octets) : Except String (time_t × time_t × Octets) :=
  if p.headD 0 ≠ HISV6_SUBFIELDSEP then .ok (0, 0, p)
  else if p.tail.headD 0 = HISV6_NOEXP then
    match splitPosted p.tail.tail with
    | .error error => .error error
    | .ok (posted, p) => .ok (0, posted, p)
  else
    let (l, p) := strtoul p.tail
    if l = -1 then .error "expires timestamp out of range"
    else
      match splitPosted p with
      | .error error => .error error
      | .ok (posted, p) => .ok (l.toInt64, posted, p)

def splitRest (hash : HASH) (p : Octets) : Except String Fields :=
  if p.headD 0 ≠ 93 then .error "`]' missing from history line"
  else if p.tail.headD 0 ≠ HISV6_FIELDSEP then .error "field separator missing from history line"
  else
    let (l, p) := strtoul p.tail.tail
    if l = -1 then .error "arrived timestamp out of range"
    else
      match splitTimes p with
      | .error error => .error error
      | .ok (expires, posted, p) =>
        if p.headD 0 ≠ HISV6_FIELDSEP ∧ p ≠ [] then .error
          "field separator missing from history line"
        else
          let p := p.tail
          .ok
            { hash := hash, arrived := l.toInt64, posted := posted, expires := expires
              token := if IsToken p then some (TextToToken p) else none }

/-- A line and what stands behind the nul that ends it: the octets of the hash are skipped whatever
they are. -/
def splitline (line : Octets) : Except String Fields :=
  if line.headD 0 ≠ 91 then .error "`[' missing from history line"
  else splitRest (TextToHash line.tail) ((line.tail.drop 32).takeWhile (· ≠ 0))

def timeText (t : time_t) : Octets := decimal t.toUInt64.toNat

def lineText (fields : Fields) : Octets :=
  [91] ++ HashToText fields.hash ++ [93, HISV6_FIELDSEP] ++ timeText fields.arrived ++
    [HISV6_SUBFIELDSEP] ++
    match fields.token with
    | none =>
      if fields.posted ≤ 0 then [HISV6_NOEXP]
      else [HISV6_NOEXP, HISV6_SUBFIELDSEP] ++ timeText fields.posted
    | some token =>
      (if fields.expires ≤ 0 then [HISV6_NOEXP] else timeText fields.expires) ++
        ([HISV6_SUBFIELDSEP] ++ timeText fields.posted ++ [HISV6_FIELDSEP] ++ TokenToText token)

def formatline (fields : Fields) : Option Octets :=
  if (lineText fields ++ [LF]).length ≥ HISV6_MAXLINE then none else some (lineText fields ++ [LF])

end Inn.History
