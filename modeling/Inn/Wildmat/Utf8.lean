import Mathlib

/-!
# Characters of a text that may be malformed

`utf8_length` and `utf8_decode` step over one character of a string. The older
form of UTF-8 with up to six octets is accepted, and an octet that does not
start a well-formed character is a character of its own, with its own value.
The characters of a text are defined here without reference to the two
functions, which are then shown to find them.
-/

namespace Inn.Wildmat

structure CString where
  octets : List UInt8
  noNul : 0 ∉ octets

def leadingOnes (c : UInt8) : Nat :=
  ([0x80, 0x40, 0x20, 0x10, 0x08, 0x04, 0x02, 0x01].takeWhile fun mask => c &&& mask == mask).length

def isContinuation (c : UInt8) : Bool := c &&& 0xc0 == 0x80

def continuationsLeft : Nat → List UInt8 → Nat
  | 0, _ => 0
  | left + 1, [] => left + 1
  | left + 1, c :: rest => if isContinuation c then continuationsLeft left rest else left + 1

def utf8Length (start : List UInt8) (limit : Option Nat) : Nat :=
  match start with
  | [] => 1
  | c :: rest =>
    let length := leadingOnes c
    if length < 2 ∨ length > 6 then 1
    else if limit.any (· < length) then 1
    else if continuationsLeft (length - 1) rest = 0 then length else 1

def utf8Decode (start : List UInt8) (limit : Option Nat) : Nat × Nat :=
  let length := utf8Length start limit
  match start with
  | [] => (0, 1)
  | c :: rest =>
    if length < 2 then (c.toNat, 1)
    else
      let mask := 1 <<< (7 - length) - 1
      let value := c.toNat &&& mask
      ((rest.take (length - 1)).foldl (fun value c => value <<< 6 ||| (c.toNat &&& 0x3f)) value,
        length)

abbrev Character := List UInt8

inductive WellFormed : Character → Prop
  | ascii (c : UInt8) : c < 0x80 → WellFormed [c]
  | multi (c : UInt8) (rest : List UInt8) : rest ≠ [] → rest.length ≤ 5 →
      leadingOnes c = rest.length + 1 → (∀ o ∈ rest, isContinuation o = true) →
      WellFormed (c :: rest)

/-- A sequence of well-formed characters. -/
def ValidUtf8 (s : List UInt8) : Prop :=
  ∃ cs : List Character, (∀ c ∈ cs, WellFormed c) ∧ s = cs.flatten

def trail (c : UInt8) (rest : List UInt8) : List UInt8 :=
  let conts := rest.take (leadingOnes c - 1)
  if 2 ≤ leadingOnes c ∧ leadingOnes c ≤ 6 ∧ conts.length = leadingOnes c - 1 ∧
      conts.all isContinuation then conts
  else []

theorem trail_isPrefix (c : UInt8) (rest : List UInt8) : trail c rest <+: rest := by
  unfold trail
  dsimp only
  split
  · exact List.take_prefix _ _
  · exact List.nil_prefix

def characters : List UInt8 → List Character
  | [] => []
  | c :: rest => (c :: trail c rest) :: characters (rest.drop (trail c rest).length)
termination_by s => s.length
decreasing_by
  simp only [List.length_drop, List.length_cons]
  omega

def codePoint : Character → Nat
  | [] => 0
  | [c] => c.toNat
  | c :: rest => rest.foldl (fun value o => value * 64 + o.toNat % 64)
      (c.toNat % 2 ^ (6 - rest.length))

theorem characters_nil : characters [] = [] := by rw [characters]

theorem characters_cons (c : UInt8) (rest : List UInt8) : characters (c :: rest) =
    (c :: trail c rest) :: characters (rest.drop (trail c rest).length) := by
  rw [characters]

theorem characters_flatten (s : List UInt8) : (characters s).flatten = s := by
  induction s using characters.induct with
  | case1 => simp [characters_nil]
  | case2 c rest ih =>
    rw [characters_cons, List.flatten_cons, ih, List.cons_append,
      List.prefix_iff_eq_append.mp (trail_isPrefix c rest)]

theorem forall_octet {P : UInt8 → Prop} [DecidablePred P]
    (h : ∀ n : Fin 256, P (UInt8.ofNat n)) (c : UInt8) : P c := by
  have := h ⟨c.toNat, c.toNat_lt⟩
  simpa using this

theorem leadingOnes_of_isContinuation {c : UInt8} (hc : isContinuation c = true) :
    leadingOnes c = 1 := by
  revert hc
  exact forall_octet (P := fun c => isContinuation c = true → leadingOnes c = 1)
    (by decide +kernel) c

theorem leadingOnes_of_ascii {c : UInt8} (hc : c < 0x80) : leadingOnes c = 0 := by
  revert hc
  exact forall_octet (P := fun c => c < 0x80 → leadingOnes c = 0) (by decide +kernel) c

theorem leadingOnes_of_wellFormed {c : UInt8} {rest : List UInt8} (hwf : WellFormed (c :: rest)) :
    leadingOnes c ≠ 1 := by
  cases hwf with
  | ascii c hc => simp [leadingOnes_of_ascii hc]
  | multi c rest hrest _ hones =>
    have := List.length_pos_of_ne_nil hrest
    omega

theorem trail_wellFormed {c : UInt8} {conts : List UInt8} (hwf : WellFormed (c :: conts))
    (rest : List UInt8) : trail c (conts ++ rest) = conts := by
  cases hwf with
  | ascii c hc => simp [trail, leadingOnes_of_ascii hc]
  | multi c conts hconts hlength hones hall =>
    have hpos := List.length_pos_of_ne_nil hconts
    have htake : (conts ++ rest).take conts.length = conts := by simp
    simp only [trail, hones, Nat.add_sub_cancel, htake]
    rw [if_pos ⟨by omega, by omega, trivial, by simpa using hall⟩]

theorem characters_append {c : Character} (hwf : WellFormed c) (rest : List UInt8) :
    characters (c ++ rest) = c :: characters rest := by
  cases hwf with
  | ascii c hc =>
    rw [List.singleton_append, characters_cons]
    have := trail_wellFormed (WellFormed.ascii c hc) rest
    simp_all
  | multi c conts hconts hlength hones hall =>
    rw [List.cons_append, characters_cons,
      trail_wellFormed (WellFormed.multi c conts hconts hlength hones hall), List.drop_left]

theorem continuationsLeft_eq_zero_iff (left : Nat) (rest : List UInt8) :
    continuationsLeft left rest = 0 ↔
      (rest.take left).length = left ∧ (rest.take left).all isContinuation := by
  induction left generalizing rest with
  | zero => simp [continuationsLeft]
  | succ left ih =>
    cases rest with
    | nil => simp [continuationsLeft]
    | cons c rest => by_cases hc : isContinuation c <;> simp [continuationsLeft, hc, ih]

theorem utf8Length_eq (c : UInt8) (rest : List UInt8) {limit : Option Nat}
    (hlimit : limit = none ∨ limit = some (c :: rest).length) :
    utf8Length (c :: rest) limit = (trail c rest).length + 1 := by
  have hcut : limit.any (· < leadingOnes c) = true →
      (rest.take (leadingOnes c - 1)).length ≠ leadingOnes c - 1 := by
    rcases hlimit with rfl | rfl
    · simp
    · simp only [Option.any_some, decide_eq_true_eq, List.length_cons, List.length_take]
      omega
  simp only [utf8Length, trail, continuationsLeft_eq_zero_iff]
  grind

theorem trail_length_lt (c : UInt8) (rest : List UInt8) : (trail c rest).length ≤ 5 := by
  simp only [trail]
  grind

theorem shiftLeft_or (value : Nat) (o : UInt8) :
    value <<< 6 ||| (o.toNat &&& 0x3f) = value * 64 + o.toNat % 64 := by
  have hmask : o.toNat &&& 0x3f = o.toNat % 64 := Nat.and_two_pow_sub_one_eq_mod o.toNat 6
  have hlt : o.toNat % 64 < 2 ^ 6 := Nat.mod_lt _ (by decide)
  rw [hmask, Nat.shiftLeft_eq, Nat.mul_comm value, ← Nat.two_pow_add_eq_or_of_lt hlt,
    Nat.mul_comm]

theorem utf8Decode_eq (c : UInt8) (rest : List UInt8) {limit : Option Nat}
    (hlimit : limit = none ∨ limit = some (c :: rest).length) :
    utf8Decode (c :: rest) limit =
      (codePoint (c :: trail c rest), (trail c rest).length + 1) := by
  have htake : rest.take (trail c rest).length = trail c rest :=
    (List.prefix_iff_eq_take.mp (trail_isPrefix c rest)).symm
  simp only [utf8Decode, utf8Length_eq c rest hlimit, Nat.add_sub_cancel, htake, shiftLeft_or]
  cases hconts : trail c rest with
  | nil => simp [codePoint]
  | cons o conts =>
    have hlength := trail_length_lt c rest
    rw [hconts, List.length_cons] at hlength
    have hmask : c.toNat &&& 1 <<< (7 - ((o :: conts).length + 1)) - 1 =
        c.toNat % 2 ^ (6 - (o :: conts).length) := by
      rw [Nat.one_shiftLeft, Nat.and_two_pow_sub_one_eq_mod, List.length_cons]
      congr 2
      omega
    rw [if_neg (by simp), hmask]
    simp [codePoint]

end Inn.Wildmat
