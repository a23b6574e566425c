import Inn.History.Line

/-!
# Reading history lines back

A line that has been formatted is split into what it was made from, as far as
the times are told apart from an overflow.
-/

namespace Inn.History

open Foundation.Words
open List (cons_append length_cons length_nil tail_cons length_append)

theorem isdigit_bounds {c : UInt8} (hdigit : isdigit c) : 48 ≤ c.toNat ∧ c.toNat ≤ 57 := by
  rw [isdigit, Bool.and_eq_true, decide_eq_true_eq, decide_eq_true_eq, UInt8.le_iff_toNat_le,
    UInt8.le_iff_toNat_le] at hdigit
  exact hdigit

theorem clampULONG_toNat (n : UInt64) : clampULONG n.toNat = n := by
  have hlt := n.toNat_lt
  rw [clampULONG, show min (2 ^ 64 - 1) n.toNat = n.toNat by omega, UInt64.ofNat_toNat]

theorem strtoul_decimal (n : UInt64) {rest : Octets} (hrest : ∀ c ∈ rest.head?, isdigit c = false) :
    strtoul (decimal n.toNat ++ rest) = (n, rest) := by
  obtain ⟨c, text, htext⟩ := List.exists_cons_of_ne_nil (decimal_ne_nil n.toNat)
  have hdigits := decimal_isdigit n.toNat
  have hfirst := isdigit_bounds (hdigits c (by rw [htext]; exact List.mem_cons_self))
  have hspace : (decimal n.toNat ++ rest).dropWhile isspace = decimal n.toNat ++ rest := by
    rw [htext, cons_append, List.dropWhile_cons_of_neg]
    rw [isspace, Bool.or_eq_true, Bool.and_eq_true, decide_eq_true_eq, decide_eq_true_eq,
      decide_eq_true_eq,
      UInt8.le_iff_toNat_le, UInt8.le_iff_toNat_le]
    rintro (rfl | ⟨-, hle⟩)
    · exact absurd hfirst.1 (by decide)
    · have h13 : (13 : UInt8).toNat = 13 := rfl
      omega
  have htake : (decimal n.toNat ++ rest).takeWhile isdigit = decimal n.toNat ∧
      (decimal n.toNat ++ rest).dropWhile isdigit = rest := by
    rw [List.takeWhile_append_of_pos hdigits, List.dropWhile_append_of_pos hdigits]
    cases rest with
    | nil => exact ⟨List.append_nil _, rfl⟩
    | cons d rest =>
      have hd := hrest d rfl
      rw [List.takeWhile_cons_of_neg (by simp [hd]), List.dropWhile_cons_of_neg (by simp [hd]),
        List.append_nil]
      exact ⟨rfl, rfl⟩
  have hnumber :
      strtoulDigits (decimal n.toNat ++ rest) false (decimal n.toNat ++ rest) = (n, rest) := by
    rw [strtoulDigits, htake.1, htake.2, if_neg (decimal_ne_nil _), if_neg (by simp),
      readDigits_decimal,
      clampULONG_toNat]
  rw [strtoul, hspace]
  split
  next rest' heq =>
    rw [htext] at heq
    cases heq
    exact absurd hfirst.1 (by decide)
  next rest' heq =>
    rw [htext] at heq
    cases heq
    exact absurd hfirst.1 (by decide)
  · exact hnumber

theorem strtoul_timeText (t : time_t) {rest : Octets}
    (hrest : ∀ c ∈ rest.head?, isdigit c = false) :
    strtoul (timeText t ++ rest) = (t.toUInt64, rest) := strtoul_decimal _ hrest

theorem toInt64_toUInt64 (t : time_t) : t.toUInt64.toInt64 = t := by
  rw [UInt64.toInt64]

theorem toUInt64_eq_iff (t : time_t) : t.toUInt64 = -1 ↔ t = -1 := by
  constructor
  · intro h
    rw [← toInt64_toUInt64 t, h]
    rfl
  · rintro rfl
    rfl

theorem headD_timeText (t : time_t) (rest : Octets) : isdigit ((timeText t ++ rest).headD 0) := by
  obtain ⟨c, text, htext⟩ := List.exists_cons_of_ne_nil (decimal_ne_nil t.toUInt64.toNat)
  rw [timeText, htext]
  exact decimal_isdigit _ c (by rw [htext]; exact List.mem_cons_self)

theorem hexDigit_hexPart {c : UInt8} (hupper : upperHex c) :
    ∃ n < 16, hexPart c = some n ∧ hexDigit n = c := by
  have hc : c.toNat.toUInt8 = c := by rw [Nat.toUInt8_eq, UInt8.ofNat_toNat]
  rw [upperHex, Bool.or_eq_true, Bool.and_eq_true, Bool.and_eq_true, decide_eq_true_eq,
    decide_eq_true_eq,
    decide_eq_true_eq, decide_eq_true_eq] at hupper
  have hbounds (low high : UInt8) (h : low ≤ c ∧ c ≤ high) :
      low.toNat ≤ c.toNat ∧ c.toNat ≤ high.toNat :=
    ⟨UInt8.le_iff_toNat_le.mp h.1, UInt8.le_iff_toNat_le.mp h.2⟩
  rcases hupper with hdigit | hletter
  · obtain ⟨hlow, hhigh⟩ : 48 ≤ c.toNat ∧ c.toNat ≤ 57 := hbounds 48 57 hdigit
    refine ⟨c.toNat - 48, by omega, by rw [hexPart, if_pos hdigit], ?_⟩
    rw [hexDigit, if_pos (by omega), show 48 + (c.toNat - 48) = c.toNat by omega, hc]
  · obtain ⟨hlow, hhigh⟩ : 65 ≤ c.toNat ∧ c.toNat ≤ 70 := hbounds 65 70 hletter
    refine ⟨c.toNat - 55, by omega, ?_, ?_⟩
    · rw [hexPart, if_neg, if_pos hletter]
      rintro ⟨-, hle⟩
      exact absurd (show c.toNat ≤ 57 from UInt8.le_iff_toNat_le.mp hle) (by omega)
    · rw [hexDigit, if_neg (by omega), show 55 + (c.toNat - 55) = c.toNat by omega, hc]

theorem encodeHex_decodeHex {n : Nat} {text : Octets} (hlength : 2 * n ≤ text.length)
    (hupper : ∀ c ∈ text.take (2 * n), upperHex c) :
    encodeHex (decodeHex n text) = text.take (2 * n) := by
  induction n generalizing text with
  | zero => rfl
  | succ n ih =>
    obtain _ | ⟨c, _ | ⟨d, text⟩⟩ := text
    · cases hlength
    · simp only [length_cons, length_nil] at hlength
      omega
    · rw [show 2 * (n + 1) = 2 * n + 1 + 1 by omega] at hlength hupper ⊢
      simp only [List.take_succ_cons] at hupper ⊢
      obtain ⟨high, hhigh, hc, hcdigit⟩ := hexDigit_hexPart (hupper c List.mem_cons_self)
      obtain ⟨low, hlow, hd, hddigit⟩ :=
        hexDigit_hexPart (hupper d (List.mem_cons_of_mem _ List.mem_cons_self))
      have hrest := ih (Nat.le_of_succ_le_succ (Nat.le_of_succ_le_succ hlength)) fun e he =>
        hupper e (List.mem_cons_of_mem _ (List.mem_cons_of_mem _ he))
      have hoctet : (16 * high + low).toUInt8.toNat = 16 * high + low := by
        rw [Nat.toUInt8_eq, UInt8.toNat_ofNat']
        omega
      rw [decodeHex]
      simp only [List.headD_cons, tail_cons, hc, hd]
      rw [encodeHex, List.flatMap_cons, ← encodeHex, hrest, hoctet,
        show (16 * high + low) / 16 =
            high by omega, show (16 * high + low) % 16 = low by omega, hcdigit, hddigit]
      rfl

theorem IsToken_TokenToText (token : TOKEN) : IsToken (TokenToText token) := by
  have hlength : (encodeHex token.token).length = 36 := by rw [encodeHex_length, token.size]
  have hdrop : ((TokenToText token).drop 37).headD 0 = 64 := by
    rw [TokenToText, cons_append, List.drop_succ_cons, List.drop_left' hlength]
    rfl
  have htake : ((TokenToText token).drop 1).take 36 = encodeHex token.token := by
    rw [TokenToText, cons_append, List.drop_succ_cons, List.drop_zero, List.take_left' hlength]
  rw [IsToken, hdrop, htake, Bool.and_eq_true, Bool.and_eq_true, Bool.and_eq_true]
  refine ⟨⟨⟨?_, rfl⟩, rfl⟩, List.all_eq_true.mpr (encodeHex_upperHex _)⟩
  rw [decide_eq_true_eq, TokenToText, length_append, length_cons, hlength]
  rfl

theorem TextToToken_TokenToText (token : TOKEN) : TextToToken (TokenToText token) = token := by
  rw [TextToToken, if_pos (IsToken_TokenToText token)]
  have hdecode : decodeHex 18 ((TokenToText token).drop 1) = token.token := by
    have := decodeHex_encodeHex token.token [64]
    rwa [token.size] at this
  cases token
  simp only [hdecode]

theorem TokenToText_TextToToken {text : Octets} (htoken : IsToken text) :
    TokenToText (TextToToken text) = text := by
  rw [TextToToken, if_pos htoken]
  rw [IsToken, Bool.and_eq_true, Bool.and_eq_true, Bool.and_eq_true, decide_eq_true_eq,
    decide_eq_true_eq,
    decide_eq_true_eq, List.all_eq_true] at htoken
  obtain ⟨⟨⟨hlength, hfirst⟩, hlast⟩, hupper⟩ := htoken
  obtain _ | ⟨c, text⟩ := text
  · cases hlength
  · obtain rfl : c = 64 := hfirst
    rw [length_cons] at hlength
    have hrest : text.drop 36 = [64] := by
      obtain ⟨d, hd⟩ :=
        List.length_eq_one_iff.mp (show (text.drop 36).length = 1 by rw [List.length_drop]; omega)
      rw [List.drop_succ_cons, hd] at hlast
      rw [hd, ← show d = 64 from hlast]
    have hdigits := @encodeHex_decodeHex 18 text (by omega) hupper
    rw [TokenToText]
    simp only [List.drop_succ_cons, List.drop_zero]
    rw [hdigits, cons_append, ← hrest, List.take_append_drop]

theorem TextToHash_HashToText (hash : HASH) (rest : Octets) :
    TextToHash (HashToText hash ++ rest) = hash := by
  have hdecode : decodeHex 16 (HashToText hash ++ rest) = hash.hash := by
    have := decodeHex_encodeHex hash.hash rest
    rwa [hash.size] at this
  cases hash
  simp only [TextToHash, hdecode]

theorem decimal_length_le {n k : Nat} (hn : n < 10 ^ (k + 1)) : (decimal n).length ≤ k + 1 := by
  rw [decimal, List.length_map, List.length_reverse, digits]
  split
  · simp
  · exact (Nat.digits_length_le_iff (by decide) n).mpr hn

theorem timeText_length_le (t : time_t) : (timeText t).length ≤ 20 := by
  have hlt := t.toUInt64.toNat_lt
  exact decimal_length_le (by omega)

theorem timeText_length_le_of_pos {t : time_t} (hpositive : ¬t ≤ 0) : (timeText t).length ≤ 19 := by
  have hpos : 0 < t := Int64.not_le.mp hpositive
  have hvalue := Int64.toNat_toUInt64_of_le (Int64.le_of_lt hpos)
  have hlt := t.toInt_lt
  refine decimal_length_le ?_
  rw [hvalue, Int64.toNatClampNeg]
  omega

theorem formatline_isSome (fields : Fields) :
    formatline fields = some (lineText fields ++ [LF]) := by
  rw [formatline, if_neg]
  have hhash : (HashToText fields.hash).length = 32 := by
    rw [HashToText, encodeHex_length, fields.hash.size]
  have harrived := timeText_length_le fields.arrived
  have hposted := timeText_length_le fields.posted
  rw [HISV6_MAXLINE, lineText]
  cases fields.token with
  | none =>
    dsimp only
    split
    · simp only [length_append, length_cons, length_nil, hhash]
      omega
    · simp only [length_append, length_cons, length_nil, hhash]
      omega
  | some token =>
    have htoken : (TokenToText token).length = 38 := by
      rw [TokenToText, length_append, length_cons, encodeHex_length, token.size]
      rfl
    dsimp only
    split
    · simp only [length_append, length_cons, length_nil, hhash, htoken]
      omega
    next hexpires =>
      have hexpires := timeText_length_le_of_pos hexpires
      simp only [length_append, length_cons, length_nil, hhash, htoken]
      omega

def Fields.written (fields : Fields) : Fields :=
  { fields with
    expires := if fields.token.isSome ∧ ¬fields.expires ≤ 0 then fields.expires else 0
    posted := if fields.token = none ∧ fields.posted ≤ 0 then 0 else fields.posted }

/-- No date of a line is the one that reads as an error. -/
structure Readable (fields : Fields) : Prop where
  arrived : fields.arrived ≠ -1
  posted : fields.token.isSome → fields.posted ≠ -1

theorem isdigit_ne_zero {c : UInt8} (hdigit : isdigit c) : c ≠ 0 := by
  rintro rfl
  exact absurd hdigit (by decide)

theorem upperHex_ne_zero {c : UInt8} (hhex : upperHex c) : c ≠ 0 := by
  rintro rfl
  exact absurd hhex (by decide)

theorem lineText_octets (fields : Fields) : ∀ c ∈ lineText fields, c ≠ 0 ∧ c ≠ LF := by
  have htime : ∀ t : time_t, ∀ c ∈ timeText t, c ≠ 0 ∧ c ≠ LF := by
    intro t c hc
    have hdigit := decimal_isdigit _ c hc
    refine ⟨isdigit_ne_zero hdigit, ?_⟩
    rintro rfl
    exact absurd hdigit (by decide)
  have hhex : ∀ data : Octets, ∀ c ∈ encodeHex data, c ≠ 0 ∧ c ≠ LF := by
    intro data c hc
    have hupper := encodeHex_upperHex data c hc
    refine ⟨upperHex_ne_zero hupper, ?_⟩
    rintro rfl
    exact absurd hupper (by decide)
  have hfixed : ∀ text : Octets, text.all (fun c => c ≠ 0 && c ≠ LF) →
      ∀ c ∈ text, c ≠ 0 ∧ c ≠ LF := by
    intro text hall c hc
    simpa using List.all_eq_true.mp hall c hc
  have happend : ∀ front back : Octets, (∀ c ∈ front, c ≠ 0 ∧ c ≠ LF) →
      (∀ c ∈ back, c ≠ 0 ∧ c ≠ LF) →
      ∀ c ∈ front ++ back, c ≠ 0 ∧ c ≠ LF := fun front back hfront hback c hc =>
    (List.mem_append.mp hc).elim (hfront c) (hback c)
  rw [lineText]
  refine happend _ _ (happend _ _
    (happend _ _ (happend _ _ (happend _ _ (hfixed _ (by decide)) (hhex _))
    (hfixed _ (by decide))) (htime _)) (hfixed _ (by decide))) ?_
  cases fields.token with
  | none =>
    dsimp only
    split
    · exact hfixed _ (by decide)
    · exact happend _ _ (hfixed _ (by decide)) (htime _)
  | some token =>
    refine happend _ _ ?_ (happend _ _ (happend _ _ (happend _ _ (hfixed _ (by decide)) (htime _))
      (hfixed _ (by decide))) (happend _ _ ?_ (hfixed _ (by decide))))
    · split
      · exact hfixed _ (by decide)
      · exact htime _
    · intro c hc
      rcases List.mem_cons.mp hc with rfl | hc
      · decide
      · exact hhex _ c hc

def lineTail (fields : Fields) : Octets :=
  [HISV6_SUBFIELDSEP] ++
    match fields.token with
    | none =>
      if fields.posted ≤ 0 then [HISV6_NOEXP]
      else [HISV6_NOEXP, HISV6_SUBFIELDSEP] ++ timeText fields.posted
    | some token =>
      (if fields.expires ≤ 0 then [HISV6_NOEXP] else timeText fields.expires) ++
        ([HISV6_SUBFIELDSEP] ++ timeText fields.posted ++ [HISV6_FIELDSEP] ++ TokenToText token)

def tokenTail (fields : Fields) : Octets :=
  match fields.token with
  | none => []
  | some token => HISV6_FIELDSEP :: TokenToText token

theorem ne_of_positive {t : time_t} (hpositive : ¬t ≤ 0) : t ≠ -1 := by
  rintro rfl
  exact hpositive (by decide)

theorem splitPosted_time {posted : time_t} {rest : Octets} (hposted : posted ≠ -1)
    (hrest : ∀ c ∈ rest.head?, isdigit c = false) :
    splitPosted (HISV6_SUBFIELDSEP :: (timeText posted ++ rest)) = .ok (posted, rest) := by
  rw [splitPosted, if_neg (by simp), tail_cons, strtoul_timeText posted hrest]
  dsimp only
  rw [if_neg (mt (toUInt64_eq_iff posted).mp hposted), toInt64_toUInt64]

theorem splitTimes_lineTail {fields : Fields} (hreadable : Readable fields) :
    splitTimes (lineTail fields) = .ok (fields.written.expires, fields.written.posted,
      tokenTail fields) := by
  rw [lineTail, splitTimes, List.singleton_append, if_neg (by simp), tail_cons,
    Fields.written, tokenTail]
  cases htoken : fields.token with
  | none =>
    by_cases hposted : fields.posted ≤ 0
    · rw [if_pos hposted, if_pos (by rfl)]
      simp [splitPosted, hposted, HISV6_SUBFIELDSEP]
    · rw [if_neg hposted, if_pos (by rfl)]
      have hsplit := @splitPosted_time _ [] (ne_of_positive hposted) (by simp)
      rw [List.append_nil] at hsplit
      simp only [cons_append, List.nil_append, tail_cons]
      rw [hsplit]
      simp [hposted]
  | some token =>
    have hposted := hreadable.posted (by rw [htoken]; rfl)
    have hsplit := @splitPosted_time _ (HISV6_FIELDSEP :: TokenToText token) hposted
      (by intro c hc; cases hc; decide)
    have htail :
        [HISV6_SUBFIELDSEP] ++ timeText fields.posted ++ [HISV6_FIELDSEP] ++ TokenToText token =
        HISV6_SUBFIELDSEP :: (timeText fields.posted ++ HISV6_FIELDSEP :: TokenToText token) := by
      simp
    simp only [htail]
    by_cases hexpires : fields.expires ≤ 0
    · rw [if_pos hexpires, if_pos (by rfl), List.singleton_append, tail_cons, hsplit]
      simp [hexpires]
    · have hdigit := headD_timeText fields.expires
        (HISV6_SUBFIELDSEP :: (timeText fields.posted ++ HISV6_FIELDSEP :: TokenToText token))
      rw [if_neg hexpires, if_neg,
        strtoul_timeText fields.expires (by intro c hc; cases hc; decide)]
      · dsimp only
        rw [if_neg (mt (toUInt64_eq_iff _).mp (ne_of_positive hexpires)), hsplit, toInt64_toUInt64]
        simp [hexpires]
      · intro hdash
        rw [hdash] at hdigit
        exact absurd hdigit (by decide)

theorem decodeHex_append (n : Nat) {text : Octets} (hlength : 2 * n ≤ text.length) (rest : Octets) :
    decodeHex n (text ++ rest) = decodeHex n text := by
  induction n generalizing text with
  | zero => rfl
  | succ n ih =>
    match text, hlength with
    | high :: low :: text, hlength =>
      have htext : 2 * n ≤ text.length := by
        simp only [length_cons] at hlength
        omega
      have hrest := ih htext
      simp only [decodeHex, cons_append, List.headD_cons, tail_cons, hrest]

/-- A line whose hash is whole is split as if nothing stood behind it. -/
theorem splitline_behind {line : Octets} (hwhole : line.headD 0 = 91 → 33 ≤ line.length)
    (behind : Octets) :
    splitline (line ++ 0 :: behind) = splitline line := by
  cases line with
  | nil => rfl
  | cons c text =>
    rw [splitline, splitline, cons_append, List.headD_cons, List.headD_cons, tail_cons, tail_cons]
    split
    · rfl
    next hbracket =>
      have hlength : 32 ≤ text.length := by
        have := hwhole (not_not.mp hbracket)
        rw [length_cons] at this
        omega
      have hhash : TextToHash (text ++ 0 :: behind) = TextToHash text := by
        simp only [TextToHash, decodeHex_append 16 hlength]
      have hrest :
          ((text ++ 0 :: behind).drop 32).takeWhile (· ≠ 0) = (text.drop 32).takeWhile (· ≠ 0) := by
        rw [List.drop_append_of_le_length hlength, List.takeWhile_append]
        split
        next hall =>
          have hself := (List.takeWhile_prefix fun c : UInt8 => decide (c ≠ 0)).eq_of_length hall
          rw [List.takeWhile_cons_of_neg (by simp), List.append_nil, hself]
        · rfl
      rw [hhash, hrest]

theorem splitline_hash {hash : HASH} {rest : Octets} (hrest : ∀ c ∈ rest, c ≠ 0) :
    splitline (91 :: (HashToText hash ++ rest)) = splitRest hash rest := by
  have hhash : (HashToText hash).length = 32 := by
    rw [HashToText, encodeHex_length, hash.size]
  rw [splitline, List.headD_cons, if_neg (by simp), tail_cons, TextToHash_HashToText,
    List.drop_left' hhash,
    List.takeWhile_eq_self_iff.mpr fun c hc => decide_eq_true (hrest c hc)]

theorem splitline_lineText {fields : Fields} (hreadable : Readable fields) :
    splitline (lineText fields) = .ok fields.written := by
  have htext : lineText fields = 91 :: (HashToText fields.hash ++
      93 :: HISV6_FIELDSEP :: (timeText fields.arrived ++ lineTail fields)) := by
    cases htoken : fields.token <;> simp [lineText, lineTail, htoken]
  have harrived := @strtoul_timeText fields.arrived (lineTail fields) (by
    intro c hc
    rw [lineTail, List.singleton_append] at hc
    cases hc
    decide)
  have hrest :
      ∀ c ∈ 93 :: HISV6_FIELDSEP :: (timeText fields.arrived ++ lineTail fields), c ≠ 0 := by
    intro c hc
    refine (lineText_octets fields c ?_).1
    rw [htext]
    exact List.mem_cons_of_mem _ (List.mem_append_right _ hc)
  rw [htext, splitline_hash hrest, splitRest]
  simp only [List.headD_cons, tail_cons, ne_eq, not_true_eq_false, if_false, harrived]
  rw [if_neg (mt (toUInt64_eq_iff _).mp hreadable.arrived), splitTimes_lineTail hreadable]
  rw [toInt64_toUInt64, Fields.written, tokenTail]
  cases htoken : fields.token with
  | none => simp [IsToken]
  | some token => simp [IsToken_TokenToText, TextToToken_TokenToText, HISV6_FIELDSEP]

theorem readable_of_nonneg {fields : Fields} (harrived : 0 ≤ fields.arrived)
    (hposted : 0 ≤ fields.posted) : Readable fields where
  arrived h := absurd (h ▸ harrived) (by decide)
  posted _ h := absurd (h ▸ hposted) (by decide)

/-- What is written, and read without the line feed, is what it was made of, but a line without a
token does not keep the expires time. Tokens and their texts are the same thing. -/
theorem splitline_formatline :
    (∀ fields : Fields, 0 ≤ fields.arrived → 0 ≤ fields.posted → 0 ≤ fields.expires →
      ∃ line, formatline fields = some (line ++ [LF]) ∧ LF ∉ line ∧
        splitline line = .ok { fields
          with expires := if fields.token.isSome then fields.expires else 0 }) ∧
      (∀ token, IsToken (TokenToText token) ∧ TextToToken (TokenToText token) = token) ∧
      ∀ text, IsToken text → TokenToText (TextToToken text) = text := by
  refine ⟨fun fields harrived hposted hexpires => ?_,
    fun token => ⟨IsToken_TokenToText token, TextToToken_TokenToText token⟩,
      fun _ => TokenToText_TextToToken⟩
  refine ⟨lineText fields, formatline_isSome fields,
    fun hmem => (lineText_octets fields LF hmem).2 rfl, ?_⟩
  have hzero {t : time_t} (ht : 0 ≤ t) (hle : t ≤ 0) : t = 0 := Int64.le_antisymm hle ht
  rw [splitline_lineText (readable_of_nonneg harrived hposted), Fields.written]
  congr 2
  · split
    next h => exact (hzero hposted h.2).symm
    · rfl
  · cases fields.token with
    | none => rfl
    | some token =>
      by_cases hle : fields.expires ≤ 0
      · simp [hzero hexpires hle]
      · simp [hle]

theorem splitline_formatline_hash : ∃ line,
    formatline ⟨⟨List.replicate 16 7, rfl⟩, 5, 3, 9, some ⟨List.replicate 18 1, rfl⟩⟩ =
      some (line ++ [LF]) ∧
      splitline line = .ok ⟨⟨List.replicate 16 7, rfl⟩, 5, 3, 9,
        some ⟨List.replicate 18 1, rfl⟩⟩ := by
  obtain ⟨line, hline, -, hsplit⟩ := splitline_formatline.1
    ⟨⟨List.replicate 16 7, rfl⟩, 5, 3, 9, some ⟨List.replicate 18 1, rfl⟩⟩ (by decide)
      (by decide) (by decide)
  exact ⟨line, hline, hsplit⟩

/-- A line that only remembers an article says nothing of when it expires. -/
theorem not_splitline_formatline :
    ¬∀ fields : Fields, 0 ≤ fields.arrived → 0 ≤ fields.posted → 0 ≤ fields.expires →
      ∃ line, formatline fields = some (line ++ [LF]) ∧ splitline line = .ok fields := by
  intro hall
  obtain ⟨line, hline, hsplit⟩ :=
    hall ⟨⟨List.replicate 16 7, rfl⟩, 5, 3, 9, none⟩ (by decide) (by decide) (by decide)
  rw [formatline_isSome] at hline
  rw [← List.append_cancel_right (Option.some.inj hline),
    splitline_lineText (readable_of_nonneg (by decide) (by decide))] at hsplit
  cases congrArg Fields.expires (Except.ok.inj hsplit)

end Inn.History
