import Inn.History.Offsets

/-!
# Replacing a history line

The new line is written over the old one, and spaces fill what is left of it.
They follow the token, which is then not taken for one.
-/

namespace Inn.History

open Foundation.Files Foundation.Words
open List (length_append length_cons tail_cons)

section Lines

variable {disk old : Octets} {offset : Nat}

/-- A line of the file with what is around it. -/
structure LineIn (disk : Octets) (offset : Nat) (old front back : Octets) : Prop where
  text : disk = front ++ old ++ LF :: back
  place : front.length = offset
  short : old.length < HISV6_MAXLINE
  long : HISV6_MINLINE ≤ (old ++ LF :: back).length
  octets : ∀ c ∈ old, c ≠ 0 ∧ c ≠ LF

theorem takeWhile_line {back : Octets} (hold : ∀ c ∈ old, c ≠ 0 ∧ c ≠ LF) :
    (old ++ LF :: back).takeWhile (· ≠ LF) = old ∧ LF ∈ (old ++ LF :: back).takeWhile (· ≠ 0) := by
  refine ⟨?_, ?_⟩
  · rw [List.takeWhile_append_of_pos fun c hc => decide_eq_true (hold c hc).2,
      List.takeWhile_cons_of_neg (by simp),
      List.append_nil]
  · rw [List.takeWhile_append_of_pos fun c hc => decide_eq_true (hold c hc).1,
      List.takeWhile_cons_of_pos (by decide)]
    exact List.mem_append_right old List.mem_cons_self

theorem LineIn.pread {front back : Octets} (hline : LineIn disk offset old front back) :
    let buf := pread disk offset HISV6_MAXLINE
    HISV6_MINLINE ≤ buf.length ∧ LF ∈ buf.takeWhile (· ≠ 0) ∧
      ∃ behind, Hisv6.terminated buf = old ++ 0 :: behind := by
  have hbuf : Foundation.Files.pread disk offset HISV6_MAXLINE =
      old ++ LF :: back.take (HISV6_MAXLINE - old.length - 1) := by
    obtain ⟨n, hn⟩ := Nat.exists_eq_add_of_lt hline.short
    rw [Foundation.Files.pread, hline.text, List.append_assoc, List.drop_left' hline.place,
      List.take_append,
      List.take_of_length_le (Nat.le_of_lt hline.short), hn, show old.length + n + 1 - old.length =
        n + 1 by omega,
      List.take_succ_cons, Nat.add_sub_cancel]
  rw [hbuf]
  refine ⟨?_, (takeWhile_line hline.octets).2, _, terminated_line fun c hc => (hline.octets c hc).2⟩
  have hlong := hline.long
  have hmax : HISV6_MAXLINE = 137 := rfl
  have hmin : HISV6_MINLINE = 37 := rfl
  simp only [length_append, length_cons, List.length_take] at hlong ⊢
  omega

theorem lineIn_of_pread (hlong : HISV6_MINLINE ≤ (pread disk offset HISV6_MAXLINE).length)
    (hend : LF ∈ (pread disk offset HISV6_MAXLINE).takeWhile (· ≠ 0)) :
    ∃ old behind front back, Hisv6.terminated (pread disk offset HISV6_MAXLINE) =
      old ++ 0 :: behind ∧
      LineIn disk offset old front back := by
  obtain ⟨old, behind, hbuf, hfirst⟩ := List.eq_append_cons_of_mem (List.takeWhile_subset _ hend)
  have hplain : ∀ c ∈ old, c ≠ LF := fun c hc heq => hfirst (heq ▸ hc)
  have hlength : (old ++ LF :: behind).length ≤ HISV6_MAXLINE := by
    rw [← hbuf, pread]
    exact List.length_take_le ..
  obtain ⟨more, hmore⟩ : ∃ more, disk.drop offset = old ++ LF :: behind ++ more :=
    ⟨(disk.drop offset).drop HISV6_MAXLINE, by rw [← hbuf, pread, List.take_append_drop]⟩
  have hoffset : offset ≤ disk.length := by
    by_contra hgt
    rw [List.drop_of_length_le (by omega)] at hmore
    simp at hmore
  refine ⟨old, behind, disk.take offset, behind ++ more, ?_, ?_,
    List.length_take_of_le hoffset, ?_, ?_, ?_⟩
  · rw [hbuf, terminated_line hplain]
  · conv_lhs => rw [← List.take_append_drop offset disk, hmore]
    simp
  · simp only [length_append, length_cons] at hlength
    omega
  · rw [hbuf] at hlong
    simp only [length_append, length_cons] at hlong ⊢
    omega
  · intro c hc
    refine ⟨?_, hplain c hc⟩
    rintro rfl
    -- a nul would end the text before the line feed
    have hbefore : LF ∈ old.takeWhile (· ≠ 0) := by
      rw [hbuf, List.takeWhile_append, if_neg] at hend
      · exact hend
      · intro hall
        have := List.mem_takeWhile_imp
          ((List.IsPrefix.eq_of_length (List.takeWhile_prefix _) hall).symm ▸ hc)
        simp at this
    exact hfirst (List.takeWhile_subset _ hbefore)

theorem LineIn.overwrite {front back new : Octets} (hline : LineIn disk offset old front back)
    (hlength : new.length = old.length) (hnew : ∀ c ∈ new, c ≠ 0 ∧ c ≠ LF) :
    LineIn (Foundation.Files.overwrite 0 disk offset new) offset new front back := by
  have hoffset : offset ≤ disk.length := by
    rw [hline.text, ← hline.place, List.append_assoc, length_append]
    omega
  refine ⟨?_, hline.place, hlength ▸ hline.short, ?_, hnew⟩
  · rw [overwrite_eq new hoffset, hline.text, List.append_assoc front,
      List.take_left' hline.place, hlength,
      ← List.drop_drop, List.drop_left' hline.place, List.drop_left]
  · have hlong := hline.long
    simp only [length_append, length_cons] at hlong ⊢
    omega

end Lines

section Padding

variable {fields : Fields} {token : TOKEN}

def padded (fields : Fields) (n : Nat) : Octets := lineText fields ++ List.replicate n 32

theorem padded_octets (fields : Fields) (n : Nat) : ∀ c ∈ padded fields n, c ≠ 0 ∧ c ≠ LF := by
  intro c hc
  rcases List.mem_append.mp hc with hc | hc
  · exact lineText_octets fields c hc
  · obtain rfl := List.eq_of_mem_replicate hc
    decide

theorem isToken_padded (token : TOKEN) (n : Nat) :
    IsToken (TokenToText token ++ List.replicate n 32) = (n = 0 : Bool) := by
  cases n with
  | zero => rw [List.replicate_zero, List.append_nil, IsToken_TokenToText]; rfl
  | succ n =>
    have hlength : (TokenToText token).length = 38 := by
      rw [TokenToText, length_append, length_cons, encodeHex_length, token.size]
      rfl
    have hne : (decide ((TokenToText token ++ List.replicate (n + 1) 32).length = 38)) = false := by
      rw [length_append, hlength, List.length_replicate]
      exact decide_eq_false (by omega)
    rw [IsToken, hne]
    rfl

theorem splitTimes_padded (htoken : fields.token = some token) (rest : Octets) :
    splitTimes (lineTail fields ++ rest) =
      if fields.posted = -1 then .error "posted timestamp out of range"
      else .ok (if fields.expires ≤ 0 then 0 else fields.expires, fields.posted,
        HISV6_FIELDSEP :: (TokenToText token ++ rest)) := by
  have hposted : splitPosted (HISV6_SUBFIELDSEP :: (timeText fields.posted ++
      HISV6_FIELDSEP :: (TokenToText token ++ rest))) =
        if fields.posted = -1 then .error "posted timestamp out of range"
        else .ok (fields.posted, HISV6_FIELDSEP :: (TokenToText token ++ rest)) := by
    split
    next hminus =>
      rw [splitPosted, if_neg (by simp), tail_cons,
        strtoul_timeText _ (by intro c hc; cases hc; decide)]
      dsimp only
      rw [if_pos ((toUInt64_eq_iff _).mpr hminus)]
    next hminus => exact splitPosted_time hminus (by intro c hc; cases hc; decide)
  have htail : lineTail fields ++ rest = HISV6_SUBFIELDSEP ::
      ((if fields.expires ≤ 0 then [HISV6_NOEXP] else timeText fields.expires) ++
        HISV6_SUBFIELDSEP :: (timeText fields.posted ++ HISV6_FIELDSEP ::
          (TokenToText token ++ rest))) := by
    simp [lineTail, htoken]
  rw [htail, splitTimes, if_neg (by simp), tail_cons]
  by_cases hexpires : fields.expires ≤ 0
  · rw [if_pos hexpires, if_pos (by rfl), List.singleton_append, tail_cons, hposted,
      if_pos hexpires]
    by_cases hminus : fields.posted = -1
    · rw [if_pos hminus, if_pos hminus]
    · rw [if_neg hminus, if_neg hminus]
  · have hdigit := headD_timeText fields.expires
      (HISV6_SUBFIELDSEP ::
        (timeText fields.posted ++ HISV6_FIELDSEP :: (TokenToText token ++ rest)))
    rw [if_neg hexpires, if_neg, strtoul_timeText fields.expires (by intro c hc; cases hc; decide)]
    · dsimp only
      rw [if_neg (mt (toUInt64_eq_iff _).mp (ne_of_positive hexpires)), hposted, toInt64_toUInt64,
        if_neg hexpires]
      by_cases hminus : fields.posted = -1
      · rw [if_pos hminus, if_pos hminus]
      · rw [if_neg hminus, if_neg hminus]
    · intro hdash
      rw [hdash] at hdigit
      exact absurd hdigit (by decide)

theorem splitline_padded (htoken : fields.token = some token) (n : Nat) :
    splitline (padded fields n) =
      if fields.arrived = -1 then .error "arrived timestamp out of range"
      else if fields.posted = -1 then .error "posted timestamp out of range"
      else .ok
        { fields with
          expires := if fields.expires ≤ 0 then 0 else fields.expires
          token := if n = 0 then some token else none } := by
  have htext : padded fields n = 91 :: (HashToText fields.hash ++
      93 :: HISV6_FIELDSEP ::
        (timeText fields.arrived ++ (lineTail fields ++ List.replicate n 32))) := by
    simp [padded, lineText, lineTail, htoken]
  have harrived := @strtoul_timeText fields.arrived (lineTail fields ++ List.replicate n 32) (by
    intro c hc
    rw [lineTail, List.append_assoc, List.singleton_append] at hc
    cases hc
    decide)
  have hrest : ∀ c ∈ 93 :: HISV6_FIELDSEP ::
      (timeText fields.arrived ++ (lineTail fields ++ List.replicate n 32)), c ≠ 0 := by
    intro c hc
    refine (padded_octets fields n c ?_).1
    rw [htext]
    exact List.mem_cons_of_mem _ (List.mem_append_right _ hc)
  rw [htext, splitline_hash hrest, splitRest]
  simp only [List.headD_cons, tail_cons, ne_eq, not_true_eq_false, if_false, harrived]
  by_cases hminus : fields.arrived = -1
  · rw [if_pos ((toUInt64_eq_iff _).mpr hminus), if_pos hminus]
  · rw [if_neg (mt (toUInt64_eq_iff _).mp hminus), if_neg hminus, splitTimes_padded htoken]
    by_cases hposted : fields.posted = -1
    · rw [if_pos hposted, if_pos hposted]
    · rw [if_neg hposted, if_neg hposted]
      rw [toInt64_toUInt64]
      simp only [HISV6_FIELDSEP, List.headD_cons, tail_cons, not_true_eq_false, false_and, if_false,
        isToken_padded, decide_eq_true_eq]
      by_cases hn : n = 0
      · subst hn
        rw [if_pos rfl, if_pos rfl, List.replicate_zero, List.append_nil, TextToToken_TokenToText]
      · rw [if_neg hn, if_neg hn]

end Padding

namespace Hisv6

def strlen (buf : Octets) : Nat := (buf.takeWhile (· ≠ 0)).length

def replace (h : Hisv6) (fields : Fields) (works : Bool) (reached : Nat) (n : Nat) : Bool × Hisv6 :=
  if !h.rdwr then (false, h)
  else
    match h.fetchline fields.hash works reached with
    | (none, h) => (false, h)
    | (some (old, offset), h) =>
      match formatline fields with
      | none => (false, h)
      | some new =>
        let new := if new.getLast? = some LF then new.dropLast else new
        if strlen old < new.length then (false, h)
        else
          let text := (new ++ List.replicate (strlen old - new.length) 32).take n
          (text.length = strlen old, { h with disk := overwrite 0 h.disk offset text })

/-- The line that is fetched, without the nul that ends it. -/
def oldline (h : Hisv6) (hash : HASH) (works : Bool) (reached : Nat) : Option Octets :=
  (h.fetchline hash works reached).1.map fun found => found.1.takeWhile (· ≠ 0)

variable {h : Hisv6}

def Drained (h : Hisv6) : Prop := (h.rdwr && h.incore) = true → h.pending = []

theorem fflush_drained (h : Hisv6) (works : Bool) (reached : Nat) :
    (h.fflush works reached).2.pending = [] := by
  rw [fflush]
  split
  next hpending => exact hpending
  · split
    · exact List.drop_of_length_le le_rfl
    · rfl

theorem fflush_eq (h : Hisv6) (works : Bool) (reached : Nat) :
    ∃ disk position pending, (h.fflush works reached).2 =
      { h with disk := disk, position := position, pending := pending } := by
  rw [fflush]
  split
  · exact ⟨_, _, _, rfl⟩
  · split <;> exact ⟨_, _, _, rfl⟩

theorem fetchline_some {hash : HASH} {works : Bool} {reached : Nat} {buf : Octets}
    {offset : Nat} {h' : Hisv6}
    (hfetch : h.fetchline hash works reached = (some (buf, offset), h')) :
    h'.dbzowner = true ∧ h'.Drained ∧ (h'.dbz.dbzfetch hash).1 = some (offset : Int) ∧
      ∃ old behind front back, buf = old ++ 0 :: behind ∧ LineIn h'.disk offset old front back := by
  obtain ⟨r, flushed, hflushed, howner, hdrained⟩ : ∃ r flushed,
      (if h.rdwr && h.incore then h.fflush works reached else (true, h)) = (r, flushed) ∧
        flushed.dbzowner = h.dbzowner ∧ flushed.Drained := by
    split
    · obtain ⟨disk, position, pending, heq⟩ := fflush_eq h works reached
      refine ⟨(h.fflush works reached).1, (h.fflush works reached).2, rfl, ?_,
        fun _ => fflush_drained h works reached⟩
      rw [heq]
    next hnot => exact ⟨true, h, rfl, rfl, fun hincore => absurd hincore hnot⟩
  rw [fetchline] at hfetch
  rw [hflushed] at hfetch
  dsimp only at hfetch
  split at hfetch
  · cases hfetch
  next howned =>
    split at hfetch
    · cases hfetch
    · have hagain := Dbz.Opened.dbzfetch_of_keeps (Dbz.Opened.keeps_dbzfetch flushed.dbz hash) hash
      cases hoffset : (flushed.dbz.dbzfetch hash).1 with
      | none =>
        rw [hoffset] at hfetch
        cases hfetch
      | some found =>
        rw [hoffset] at hfetch hagain
        dsimp only at hfetch
        split at hfetch
        · cases hfetch
        next hpositive =>
          split at hfetch
          · cases hfetch
          next hlong =>
            split at hfetch
            next hend =>
              cases hfetch
              obtain ⟨old, behind, front, back, hbuf, hline⟩ :=
                lineIn_of_pread (Nat.le_of_not_lt hlong) hend
              refine ⟨?_, hdrained, ?_, old, behind, front, back, hbuf, hline⟩
              · rw [howner]
                simpa using howned
              · rw [hagain, Int.toNat_of_nonneg (Int.not_lt.mp hpositive)]
            · cases hfetch

theorem lookup_lineIn {hash : HASH} (howner : h.dbzowner = true) (hdrained : h.Drained)
    {offset : Nat}
    (hoffset : (h.dbz.dbzfetch hash).1 = some (offset : Int)) {line front back : Octets}
    (hline : LineIn h.disk offset line front back) (hwhole : 33 ≤ line.length) (works : Bool)
    (reached : Nat) :
    h.lookup hash works reached = answer line := by
  have hflushed :
      (if (h.rdwr && h.incore) = true then h.fflush works reached else (true, h)) = (true, h) := by
    split
    next hincore => rw [fflush, if_pos (hdrained hincore)]
    · rfl
  obtain ⟨hlong, hend, behind, hbuf⟩ := hline.pread
  have hfetch : (h.fetchline hash works reached).1 = some (line ++ 0 :: behind, offset) := by
    rw [fetchline, howner, hflushed]
    dsimp only
    rw [if_neg (by simp), if_neg (by simp), hoffset]
    dsimp only
    rw [Int.toNat_natCast, if_neg (by omega), if_neg (Nat.not_lt.mpr hlong), if_pos hend, hbuf]
  rw [lookup, hfetch]
  dsimp only
  rw [answer, answer, splitline_behind fun _ => hwhole]

theorem strlen_line {line behind : Octets} (hline : ∀ c ∈ line, c ≠ 0) :
    (line ++ 0 :: behind).takeWhile (· ≠ 0) = line := by
  rw [List.takeWhile_append_of_pos fun c hc => decide_eq_true (hline c hc),
    List.takeWhile_cons_of_neg (by simp),
    List.append_nil]

theorem replace_ok {fields : Fields} {works : Bool} {reached n : Nat} {h' : Hisv6}
    (hreplaced : h.replace fields works reached n = (true, h')) :
    ∃ old offset front back spaces, h.oldline fields.hash works reached = some old ∧
      LineIn (h.fetchline fields.hash works reached).2.disk offset old front back ∧
      (lineText fields).length + spaces = old.length ∧
      h'.dbzowner = true ∧ h'.Drained ∧ (h'.dbz.dbzfetch fields.hash).1 = some (offset : Int) ∧
      LineIn h'.disk offset (padded fields spaces) front back := by
  rw [replace, formatline_isSome] at hreplaced
  split at hreplaced
  · cases hreplaced
  · cases hfetch : h.fetchline fields.hash works reached with
    | mk found h₁ =>
      rw [hfetch] at hreplaced
      cases found with
      | none => cases hreplaced
      | some found =>
        obtain ⟨buf, offset⟩ := found
        obtain ⟨howner, hdrained, hoffset, old, behind, front, back, rfl, hline⟩ :=
          fetchline_some hfetch
        have hold : (old ++ 0 :: behind).takeWhile (· ≠ 0) = old :=
          strlen_line fun c hc => (hline.octets c hc).1
        dsimp only at hreplaced
        rw [List.getLast?_append, List.getLast?_singleton, Option.some_or, if_pos rfl,
          List.dropLast_concat,
          strlen, hold] at hreplaced
        split at hreplaced
        · cases hreplaced
        next hfits =>
          have hlength : (lineText fields).length + (old.length - (lineText fields).length) =
              old.length := by omega
          have hpadded :
              (padded fields (old.length - (lineText fields).length)).length = old.length := by
            rw [padded, length_append, List.length_replicate, hlength]
          obtain ⟨hwhole, hdisk⟩ := Prod.mk.inj hreplaced
          have htake : (padded fields (old.length - (lineText fields).length)).take n =
              padded fields (old.length - (lineText fields).length) := by
            have hle := of_decide_eq_true hwhole
            rw [List.length_take, ← padded, hpadded] at hle
            exact List.take_of_length_le (by omega)
          rw [← padded, htake] at hdisk
          subst hdisk
          refine ⟨old, offset, front, back, _, ?_, hline, hlength, howner, hdrained, hoffset,
            hline.overwrite hpadded (padded_octets fields _)⟩
          rw [oldline, hfetch, Option.map_some, hold]

/-- The line has the new fields, and nothing else is changed. -/
def ProperlyReplaced (h : Hisv6) (fields : Fields) (works : Bool) (reached : Nat)
    (h' : Hisv6) : Prop :=
  (∀ works reached, h'.lookup fields.hash works reached = (true, some fields)) ∧
    ∃ front old new back, (h.fetchline fields.hash works reached).2.disk =
      front ++ old ++ LF :: back ∧
      h.oldline fields.hash works reached = some old ∧ h'.disk = front ++ new ++ LF :: back ∧
      new.length = old.length ∧ LF ∉ new

structure Replaceable (h : Hisv6) (fields : Fields) (works : Bool) (reached : Nat) : Prop where
  token : fields.token.isSome
  arrived : fields.arrived ≠ -1
  posted : fields.posted ≠ -1
  expires : ¬fields.expires < 0
  length : ∀ old, h.oldline fields.hash works reached = some old →
    (lineText fields).length = old.length

/-- A line that fills the place of the old one is found again, one that does not is not. -/
theorem replaced_iff {fields : Fields} {works : Bool} {reached n : Nat} {h' : Hisv6}
    (hreplaced : h.replace fields works reached n = (true, h')) :
    h.ProperlyReplaced fields works reached h' ↔ h.Replaceable fields works reached := by
  obtain ⟨old, offset, front, back, spaces, hfetch, hold, hlength, howner, hdrained,
      hoffset, hnew⟩ :=
    replace_ok hreplaced
  have hwhole : 33 ≤ (padded fields spaces).length := by
    have hge := line_length_ge fields
    rw [length_append, HISV6_MINLINE] at hge
    simp only [length_cons, List.length_nil] at hge
    rw [padded, length_append]
    omega
  have hlookup := lookup_lineIn howner hdrained hoffset hnew hwhole
  constructor
  · rintro ⟨hfound, -⟩
    have hsays : ∃ said, splitline (padded fields spaces) = .ok said ∧ said = fields ∧
        said.token.isSome = true := by
      have := (hlookup true 0).symm.trans (hfound true 0)
      rw [answer] at this
      cases hsplit : splitline (padded fields spaces) with
      | error error =>
        rw [hsplit] at this
        cases this
      | ok said =>
        rw [hsplit] at this
        obtain ⟨htoken, hsaid⟩ := Prod.mk.inj this
        exact ⟨said, rfl, Option.some.inj hsaid, htoken⟩
    obtain ⟨said, hsplit, rfl, htoken⟩ := hsays
    obtain ⟨token, hsome⟩ := Option.isSome_iff_exists.mp htoken
    rw [splitline_padded hsome] at hsplit
    split at hsplit
    · cases hsplit
    next harrived =>
      split at hsplit
      · cases hsplit
      next hposted =>
        have hsaid := Except.ok.inj hsplit
        have hexpires := congrArg Fields.expires hsaid
        have hspaces := congrArg Fields.token hsaid
        dsimp only at hexpires hspaces
        refine ⟨htoken, harrived, hposted, ?_, ?_⟩
        · intro hnegative
          rw [if_pos (Int64.le_of_lt hnegative)] at hexpires
          rw [← hexpires] at hnegative
          exact absurd hnegative (by decide)
        · intro old' hold'
          obtain rfl := Option.some.inj (hfetch.symm.trans hold')
          by_cases hzero : spaces = 0
          · omega
          · rw [if_neg hzero, hsome] at hspaces
            cases hspaces
  · intro hreplaceable
    obtain ⟨token, hsome⟩ := Option.isSome_iff_exists.mp hreplaceable.token
    have hzero : spaces = 0 := by
      have := hreplaceable.length old hfetch
      omega
    refine ⟨fun works reached => ?_, front, old, padded fields spaces, back, hold.text, hfetch,
      hnew.text, ?_,
      fun hmem => (padded_octets fields spaces LF hmem).2 rfl⟩
    · have hexpires : (if fields.expires ≤ 0 then 0 else fields.expires) = fields.expires := by
        split
        next hle => exact (Int64.le_antisymm hle (Int64.not_lt.mp hreplaceable.expires)).symm
        · rfl
      rw [hlookup, answer, splitline_padded hsome, if_neg hreplaceable.arrived,
        if_neg hreplaceable.posted, hexpires, hzero,
        if_pos rfl, ← hsome]
      dsimp only
      rw [hreplaceable.token]
    · rw [padded, length_append, List.length_replicate, hlength]

/-- Three articles, the second one with the given time of arrival. -/
def articles (arrived : time_t) : Hisv6 :=
  (writelines [(article 1 5, smooth), (article 2 arrived, smooth), (article 3 6, smooth)]
    (reopen false 0 [] newdbz)).2

theorem replaced_between :
    ∃ h', (articles 7).replace (article 2 8) true 0 HISV6_MAXLINE = (true, h') ∧
      (articles 7).ProperlyReplaced (article 2 8) true 0 h' := by
  have hworks : ((articles 7).replace (article 2 8) true 0 HISV6_MAXLINE).1 = true := by
    decide +kernel
  obtain ⟨h', hreplaced⟩ : ∃ h', (articles 7).replace (article 2 8) true 0 HISV6_MAXLINE =
      (true, h') := by
    generalize (articles 7).replace (article 2 8) true 0 HISV6_MAXLINE = replaced at hworks ⊢
    exact ⟨replaced.2, Prod.ext hworks rfl⟩
  refine ⟨h', hreplaced, (replaced_iff hreplaced).mpr
    ⟨rfl, by decide, by decide, by decide, ?_⟩⟩
  intro old hold
  have hlength : ((articles 7).oldline (article 2 8).hash true 0).map List.length =
      some (lineText (article 2 8)).length := by decide +kernel
  rw [hold, Option.map_some, Option.some.injEq] at hlength
  exact hlength.symm

/-- A shorter line is filled with spaces, and the article is not found any more. -/
theorem not_replaced_shorter :
    ((articles 70).replace (article 2 8) true 0 HISV6_MAXLINE).1 = true ∧
      ¬(articles 70).ProperlyReplaced (article 2 8) true 0
        ((articles 70).replace (article 2 8) true 0 HISV6_MAXLINE).2 := by
  refine ⟨by decide +kernel, fun hproper => ?_⟩
  have hlost : (((articles 70).replace (article 2 8) true 0 HISV6_MAXLINE).2.lookup
      (article 2 8).hash true 0).1 = false := by decide +kernel
  rw [hproper.1] at hlost
  cases hlost

end Hisv6

end Inn.History
