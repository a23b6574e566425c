import Inn.Lib.Date
import Inn.Wildmat.Utf8

/-!
# The time zone of a date

The name of a time zone is compared as far as the word in the date goes, and then gone on by the
length of the name.
-/

namespace Inn.Lib.Date

open Wildmat (CString cstring deref forall_octet)

section Advancing

variable {p : Octets}

theorem advance_eq {n : Nat} (hle : n ≤ p.length) : advance p n = .ok (p.drop n) := if_pos hle

theorem advance_eq_error {n : Nat} : advance p n = .error () ↔ p.length < n := by
  rw [advance]
  split
  next hle => exact ⟨nofun, fun hlt => absurd hle (Nat.not_le_of_lt hlt)⟩
  next hle => exact ⟨fun _ => Nat.lt_of_not_le hle, fun _ => rfl⟩

theorem strncasecmp_length {name : Octets} {n : Nat} (hsame : strncasecmp name p n)
    (hname : n ≤ name.length) :
    n ≤ p.length := by
  have hlength := congrArg List.length (of_decide_eq_true hsame)
  rw [List.length_map, List.length_map, List.length_take, List.length_take] at hlength
  omega

theorem deref_ne_zero (hne : deref p ≠ 0) : p ≠ [] := by
  rintro rfl
  exact hne rfl

theorem skipNested_length (nesting : Nat) (p : Octets) :
    (skipNested nesting p).length ≤ p.length := by
  fun_induction skipNested nesting p
  all_goals first
    | exact Nat.le_refl _
    | exact Nat.le_succ_of_le (by assumption)
    | exact Nat.le_succ_of_le (Nat.le_succ_of_le (by assumption))

theorem skipCfws_length (p : Octets) : (skipCfws p).length ≤ p.length := skipNested_length 0 p

end Advancing

section Rules

variable {p : Octets}

def Rule.Safe : Rule → Prop
  | .lookup table max => ∀ name ∈ table, max ≤ name.length
  | .delim delimiter => delimiter ≠ 0
  | .number _ _ => True
  | .obsMonth => True

theorem parseLookup_ok {table : List Octets} {max : Nat}
    (htable : ∀ name ∈ table, max ≤ name.length) :
    ∃ found, parseLookup p table max = .ok found := by
  rw [parseLookup]
  cases hfound : table.findIdx? fun name => strncasecmp name p max with
  | none => exact ⟨none, rfl⟩
  | some i =>
    obtain ⟨hi, hsame, -⟩ := List.findIdx?_eq_some_iff_getElem.mp hfound
    have hlength := strncasecmp_length hsame (htable _ (List.getElem_mem hi))
    exact ⟨some (p.drop max, i), by rw [advance_eq hlength]; rfl⟩

theorem parseLegacyMonth_ok : ∃ found, parseLegacyMonth p = .ok found := by
  rw [parseLegacyMonth]
  have hletters : (p.takeWhile isalpha).length ≤ p.length := (List.takeWhile_prefix _).length_le
  have hsize :
      (if deref (p.drop (p.takeWhile isalpha).length) = 46 then (p.takeWhile isalpha).length + 1
      else (p.takeWhile isalpha).length) ≤ p.length := by
    split
    next hdot =>
      have hne : p.drop (p.takeWhile isalpha).length ≠ [] := deref_ne_zero (by rw [hdot]; decide)
      have hlt := List.length_pos_iff.mpr hne
      rw [List.length_drop] at hlt
      omega
    · exact hletters
  split
  · exact ⟨none, rfl⟩
  next i _ => exact ⟨some (_, i), by rw [advance_eq hsize]; rfl⟩

theorem Rule.parse_ok {rule : Rule} (hsafe : rule.Safe) : ∃ found, rule.parse p = .ok found := by
  cases rule with
  | number min max => exact ⟨_, rfl⟩
  | lookup table max =>
    obtain ⟨found, hfound⟩ := parseLookup_ok (p := p) hsafe
    exact ⟨_, by rw [Rule.parse, hfound]; rfl⟩
  | obsMonth =>
    obtain ⟨found, hfound⟩ := parseLegacyMonth_ok (p := p)
    exact ⟨_, by rw [Rule.parse, hfound]; rfl⟩
  | delim delimiter =>
    rw [Rule.parse]
    split
    · exact ⟨none, rfl⟩
    next hsame =>
      rw [not_not] at hsame
      have hne : p ≠ [] := deref_ne_zero (hsame ▸ hsafe)
      exact ⟨_, by rw [advance_eq (List.length_pos_iff.mpr hne)]; rfl⟩

theorem parseByRule_ok {rules : List Rule} (hsafe : ∀ rule ∈ rules, rule.Safe)
    (i : Nat) (p : Octets)
    (values : Nat → Nat) : ∃ found, parseByRule rules i p values = .ok found := by
  induction rules generalizing i p values with
  | nil => exact ⟨_, rfl⟩
  | cons rule rules ih =>
    obtain ⟨found, hfound⟩ := Rule.parse_ok (p := p) (hsafe rule List.mem_cons_self)
    rw [parseByRule, hfound]
    cases found with
    | none => exact ⟨none, rfl⟩
    | some found => exact ih (fun rule hrule => hsafe rule (List.mem_cons_of_mem _ hrule)) _ _ _

instance (rule : Rule) : Decidable rule.Safe :=
  match rule with
  | .lookup table max => inferInstanceAs (Decidable (∀ name ∈ table, max ≤ name.length))
  | .delim delimiter => inferInstanceAs (Decidable (delimiter ≠ 0))
  | .number _ _ => isTrue trivial
  | .obsMonth => isTrue trivial

theorem length_drop_le (p : Octets) (n : Nat) : (p.drop n).length ≤ p.length := by
  rw [List.length_drop]
  exact Nat.sub_le ..

theorem advance_some {α : Type} {n : Nat} {x y : α} {q : Octets}
    (hfound : (do let p ← advance p n; return some (p, x) : Except Unit (Option (Octets × α))) =
      .ok (some (q, y))) :
    n ≤ p.length ∧ q = p.drop n ∧ y = x := by
  rcases Nat.lt_or_ge p.length n with hlt | hle
  · rw [advance_eq_error.mpr hlt] at hfound
    cases hfound
  · rw [advance_eq hle] at hfound
    cases hfound
    exact ⟨hle, rfl, rfl⟩

theorem Rule.parse_length {rule : Rule} {q : Octets} {value : Option Nat}
    (hparse : rule.parse p = .ok (some (q, value))) :
    q.length ≤ p.length := by
  cases rule with
  | number min max =>
    rw [Rule.parse, parseNumber] at hparse
    dsimp only at hparse
    split at hparse
    · cases hparse
    · obtain ⟨rfl, -⟩ := Prod.mk.inj (Option.some.inj (Except.ok.inj hparse))
      exact length_drop_le ..
  | delim delimiter =>
    rw [Rule.parse] at hparse
    split at hparse
    · cases hparse
    · obtain ⟨-, rfl, -⟩ := advance_some hparse
      exact length_drop_le ..
  | lookup table max =>
    rw [Rule.parse, parseLookup] at hparse
    split at hparse
    · cases hparse
    · rcases Nat.lt_or_ge p.length max with hlt | hle
      · rw [advance_eq_error.mpr hlt] at hparse
        cases hparse
      · rw [advance_eq hle] at hparse
        obtain ⟨rfl, -⟩ := Prod.mk.inj (Option.some.inj (Except.ok.inj hparse))
        exact length_drop_le ..
  | obsMonth =>
    obtain ⟨found, hfound⟩ := parseLegacyMonth_ok (p := p)
    rw [Rule.parse, hfound] at hparse
    cases found with
    | none => cases hparse
    | some found =>
      obtain ⟨rfl, -⟩ := Prod.mk.inj (Option.some.inj (Except.ok.inj hparse))
      rw [parseLegacyMonth] at hfound
      split at hfound
      · cases hfound
      · obtain ⟨-, hq, -⟩ := advance_some hfound
        rw [hq]
        exact length_drop_le ..

theorem parseByRule_length {rules : List Rule} {i : Nat} {p q : Octets} {values values' : Nat → Nat}
    (hparse : parseByRule rules i p values = .ok (some (q, values'))) : q.length ≤ p.length := by
  induction rules generalizing i p values with
  | nil =>
    obtain ⟨rfl, -⟩ := Prod.mk.inj (Option.some.inj (Except.ok.inj hparse))
    exact Nat.le_refl _
  | cons rule rules ih =>
    rw [parseByRule] at hparse
    cases hrule : rule.parse p with
    | error _ =>
      rw [hrule] at hparse
      cases hparse
    | ok found =>
      rw [hrule] at hparse
      cases found with
      | none => cases hparse
      | some found => exact (ih hparse).trans ((skipCfws_length _).trans (Rule.parse_length hrule))

end Rules

section Zones

variable {p : Octets}

def zoneWord (p : Octets) : Octets := p.takeWhile isalpha

def Abbreviates (p : Octets) : Prop :=
  zoneWord p ≠ [] ∧
    ∃ zone ∈ ZONE_OFFSET, (zoneWord p).length < zone.name.length ∧
      strncasecmp zone.name p (zoneWord p).length

def Overruns (p : Octets) : Prop :=
  zoneWord p ≠ [] ∧ ∃ zone ∈ ZONE_OFFSET, p.length < zone.name.length ∧
    strncasecmp zone.name p (zoneWord p).length

def legacyZone (word : Octets) : Option Int :=
  match ZONE_OFFSET.find? fun zone => zone.name.map tolower = word.map tolower with
  | some zone => some zone.offset
  | none => if word.length = 1 ∧ word.map tolower ≠ octets "j" then some 0 else none

def specifiedZone (p : Octets) : Option (Octets × Int) :=
  if zoneWord p = [] then none else (legacyZone (zoneWord p)).map fun offset =>
    (p.drop (zoneWord p).length, offset)

theorem zoneWord_length (p : Octets) : (zoneWord p).length ≤ p.length :=
    (List.takeWhile_prefix _).length_le

theorem Overruns.abbreviates (hoverruns : Overruns p) : Abbreviates p := by
  obtain ⟨hword, zone, hzone, hlength, hsame⟩ := hoverruns
  exact ⟨hword, zone, hzone, Nat.lt_of_le_of_lt (zoneWord_length p) hlength, hsame⟩

theorem take_zoneWord (p : Octets) : p.take (zoneWord p).length = zoneWord p :=
  (List.prefix_iff_eq_take.mp (List.takeWhile_prefix _)).symm

theorem strncasecmp_zoneWord {name : Octets} (hwhole : name.length ≤ (zoneWord p).length) :
    strncasecmp name p (zoneWord p).length =
      decide (name.map tolower = (zoneWord p).map tolower) := by
  rw [strncasecmp, take_zoneWord, List.take_of_length_le hwhole]

theorem zone_names_length : ∀ zone ∈ ZONE_OFFSET, ∀ other ∈ ZONE_OFFSET,
    (zone.name.take 1).map tolower = (other.name.take 1).map tolower →
      zone.name.length = other.name.length := by
  decide +kernel

theorem zoneWord_singleton {c : UInt8} (hc : isalpha c) : tolower c ≠ 106 ↔ c ≠ 74 ∧ c ≠ 106 := by
  revert hc
  exact forall_octet (P := fun c => isalpha c = true →
    (tolower c ≠ 106 ↔ c ≠ 74 ∧ c ≠ 106)) (by decide +kernel) c

theorem parseLegacyTimezone_eq (hwhole : ¬Abbreviates p) :
    parseLegacyTimezone p false = .ok (specifiedZone p) := by
  rw [parseLegacyTimezone, specifiedZone, show p.takeWhile isalpha = zoneWord p from rfl]
  by_cases hword : zoneWord p = []
  · rw [if_pos hword, if_pos (List.length_eq_zero_iff.mpr hword)]
  rw [if_neg hword, if_neg fun h => hword (List.length_eq_zero_iff.mp h)]
  have hsame : ∀ zone ∈ ZONE_OFFSET, strncasecmp zone.name p (zoneWord p).length =
      decide (zone.name.map tolower = (zoneWord p).map tolower) := by
    intro zone hzone
    rcases Nat.lt_or_ge (zoneWord p).length zone.name.length with hlt | hle
    · have hno : strncasecmp zone.name p (zoneWord p).length = false :=
        Bool.eq_false_iff.mpr fun hsame => hwhole ⟨hword, zone, hzone, hlt, hsame⟩
      rw [hno]
      symm
      refine decide_eq_false fun heq => ?_
      have hlength := congrArg List.length heq
      rw [List.length_map, List.length_map] at hlength
      omega
    · exact strncasecmp_zoneWord hle
  rw [List.find?_congr hsame, legacyZone]
  cases hfound :
    ZONE_OFFSET.find? fun zone => decide (zone.name.map tolower = (zoneWord p).map tolower) with
  | some zone =>
    have hname := List.find?_some hfound
    have hlength := congrArg List.length (of_decide_eq_true hname)
    rw [List.length_map, List.length_map] at hlength
    dsimp only
    rw [hlength, advance_eq (zoneWord_length p)]
    rfl
  | none =>
    dsimp only
    have hmilitary : ((zoneWord p).length = 1 ∧ isalpha (deref p) ∧ deref p ≠ 74 ∧ deref p ≠ 106) ↔
        (zoneWord p).length = 1 ∧ (zoneWord p).map tolower ≠ octets "j" := by
      refine and_congr_right fun hone => ?_
      obtain ⟨c, hc⟩ := List.length_eq_one_iff.mp hone
      obtain ⟨rest, hrest⟩ := List.takeWhile_prefix isalpha (l := p)
      have hp : deref p = c := by
        rw [← hrest]
        exact congrArg (fun word => (word ++ rest).headD 0) hc
      have halpha : isalpha c :=
        List.mem_takeWhile_imp (show c ∈ zoneWord p by rw [hc]; exact List.mem_singleton_self c)
      have hletter : [tolower c] ≠ octets "j" ↔ tolower c ≠ 106 := not_congr (by
        rw [show octets "j" = [106] from rfl, List.cons.injEq, and_iff_left rfl])
      rw [hc, hp, List.map_singleton, hletter, zoneWord_singleton halpha]
      exact and_iff_right halpha
    by_cases hone : (zoneWord p).length = 1 ∧ (zoneWord p).map tolower ≠ octets "j"
    · rw [if_pos (hmilitary.mpr hone), if_pos hone, advance_eq (hone.1 ▸ zoneWord_length p), hone.1]
      rfl
    · rw [if_neg fun h => hone (hmilitary.mp h), if_neg hone]
      rfl

theorem parseLegacyTimezone_named (obsolete : Bool) (hword : zoneWord p ≠ []) {zone : Zone}
    (hzone : zone ∈ ZONE_OFFSET) (hsame : strncasecmp zone.name p (zoneWord p).length) :
    ∃ offset, parseLegacyTimezone p obsolete = do
      let p ← advance p zone.name.length
      return some (p, offset) := by
  have hpositive : 1 ≤ (zoneWord p).length := List.length_pos_iff.mpr hword
  have hletter : ∀ name : Octets, strncasecmp name p (zoneWord p).length →
      (name.take 1).map tolower = (p.take 1).map tolower := by
    intro name hname
    have htake := congrArg (List.take 1) (of_decide_eq_true hname)
    rwa [← List.map_take, ← List.map_take, List.take_take, List.take_take,
      Nat.min_eq_left hpositive] at htake
  rw [parseLegacyTimezone, show p.takeWhile isalpha = zoneWord p from rfl,
    if_neg (Nat.ne_of_gt hpositive)]
  cases hfound : ZONE_OFFSET.find? fun zone => strncasecmp zone.name p (zoneWord p).length with
  | none => exact absurd hsame (by simpa using List.find?_eq_none.mp hfound zone hzone)
  | some found =>
    have hname := List.find?_some hfound
    have hlength := zone_names_length found (List.mem_of_find?_eq_some hfound) zone hzone
      ((hletter _ hname).trans (hletter _ hsame).symm)
    refine ⟨found.offset, ?_⟩
    dsimp only
    rw [hlength]

theorem parseLegacyTimezone_eq_iff : parseLegacyTimezone p false = .ok (specifiedZone p) ↔
    ¬Abbreviates p := by
  refine ⟨?_, parseLegacyTimezone_eq⟩
  rintro hparse ⟨hword, zone, hzone, hlength, hsame⟩
  obtain ⟨offset, hnamed⟩ := parseLegacyTimezone_named false hword hzone hsame
  rw [hnamed, specifiedZone, if_neg hword] at hparse
  cases hspecified : legacyZone (zoneWord p) with
  | none =>
    rw [hspecified] at hparse
    rcases Nat.lt_or_ge p.length zone.name.length with hlt | hle
    · rw [advance_eq_error.mpr hlt] at hparse
      cases hparse
    · rw [advance_eq hle] at hparse
      cases hparse
  | some offset' =>
    rw [hspecified, Option.map_some] at hparse
    obtain ⟨hle, hdrop, -⟩ := advance_some hparse
    have hleft := congrArg List.length hdrop
    rw [List.length_drop, List.length_drop] at hleft
    omega

theorem parseLegacyTimezone_error {obsolete : Bool} : parseLegacyTimezone p obsolete = .error () ↔
    Overruns p := by
  constructor
  · intro herror
    rw [parseLegacyTimezone, show p.takeWhile isalpha = zoneWord p from rfl] at herror
    split at herror
    · cases herror
    next hword =>
      have hgone : ∀ {α : Type} {n : Nat} {x : α},
          (do let p ← advance p n; return some (p, x) : Except Unit (Option (Octets × α))) =
            .error () → p.length < n := by
        intro α n x herror
        by_contra hle
        rw [advance_eq (Nat.le_of_not_lt hle)] at herror
        cases herror
      split at herror
      next zone hfound =>
        have hsame := List.find?_some hfound
        exact ⟨fun h => hword (List.length_eq_zero_iff.mpr h), zone,
          List.mem_of_find?_eq_some hfound, hgone herror, hsame⟩
      · have hlength := zoneWord_length p
        split at herror
        next hone =>
          have := hgone herror
          omega
        · split at herror
          · split at herror
            next zone hfound =>
              have hfits := List.find?_some hfound
              rw [Bool.and_eq_true, decide_eq_true_eq] at hfits
              have := hgone herror
              omega
            · cases herror
          · cases herror
  · rintro ⟨hword, zone, hzone, hlength, hsame⟩
    obtain ⟨offset, hnamed⟩ := parseLegacyTimezone_named obsolete hword hzone hsame
    rw [hnamed, advance_eq_error.mpr hlength]
    rfl

theorem parseLegacyTimezone_length {obsolete : Bool} {q : Octets} {offset : Int}
    (hparse : parseLegacyTimezone p obsolete = .ok (some (q, offset))) : q.length < p.length := by
  have hshorter : ∀ {n : Nat} {x : Int}, n ≠ 0 →
      (do let p ← advance p n; return some (p, x) : Except Unit (Option (Octets × Int))) =
        .ok (some (q, offset)) →
      q.length < p.length := by
    intro n x hn hgone
    obtain ⟨hle, rfl, -⟩ := advance_some hgone
    rw [List.length_drop]
    omega
  have hnames : ∀ zone ∈ ZONE_OFFSET ++ OBS_ZONE_OFFSET, zone.name.length ≠ 0 := by decide +kernel
  rw [parseLegacyTimezone, show p.takeWhile isalpha = zoneWord p from rfl] at hparse
  split at hparse
  · cases hparse
  split at hparse
  next zone hfound =>
    exact hshorter (hnames zone (List.mem_append_left _ (List.mem_of_find?_eq_some hfound))) hparse
  · split at hparse
    · exact hshorter Nat.one_ne_zero hparse
    · split at hparse
      · split at hparse
        next zone hfound =>
          exact hshorter (hnames zone (List.mem_append_right _ (List.mem_of_find?_eq_some hfound)))
            hparse
        · cases hparse
      · cases hparse

end Zones

section Dates

variable {date : CString} {p : Octets} {values : Nat → Nat}

theorem parseTime_ok {base : Octets → Except Unit (Option (Octets × (Nat → Nat)))}
    {seconds : List Rule} {stash : (Nat → Nat) → tm} (hbase : ∃ found, base p = .ok found)
    (hsafe : ∀ rule ∈ seconds, rule.Safe) :
    ∃ found, parseTime base seconds stash p = .ok found := by
  obtain ⟨found, hfound⟩ := hbase
  rw [parseTime, hfound]
  cases found with
  | none => exact ⟨none, rfl⟩
  | some found =>
    obtain ⟨q, values⟩ := found
    simp only [bind, Except.bind]
    split
    · obtain ⟨found, hfound⟩ := parseByRule_ok hsafe 0 q values
      rw [hfound]
      cases found with
      | none => exact ⟨none, rfl⟩
      | some found => exact ⟨_, rfl⟩
    · exact ⟨_, rfl⟩

theorem rules_safe : (∀ rule ∈ baseRule, rule.Safe) ∧ (∀ rule ∈ secondsRule, rule.Safe) ∧
    (∀ rule ∈ zoneRule, rule.Safe) ∧ (∀ rule ∈ laxBaseRule, rule.Safe) ∧
      (∀ rule ∈ laxSecondsRule, rule.Safe) ∧
    ∀ rule ∈ laxZoneRule, rule.Safe := by
  decide +kernel

theorem dateAndTime_ok (date : CString) : ∃ found, dateAndTime date = .ok found := by
  obtain ⟨hbase, hseconds, -⟩ := rules_safe
  rw [dateAndTime]
  refine parseTime_ok ?_ hseconds
  split
  · exact parseByRule_ok hbase ..
  · exact parseByRule_ok (fun rule hrule => hbase rule (List.mem_of_mem_drop hrule)) ..

theorem laxDateAndTime_ok (date : CString) : ∃ found, laxDateAndTime date = .ok found := by
  obtain ⟨-, -, -, hbase, hseconds, -⟩ := rules_safe
  rw [laxDateAndTime]
  exact parseTime_ok (parseByRule_ok hbase ..) hseconds

def ZonePlace (date : CString) (p : Octets) : Prop :=
  ∃ values tm, dateAndTime date = .ok (some (p, values, tm)) ∧ ¬(deref p = 45 ∨ deref p = 43)

inductive LaxPlace (date : CString) : Octets → (Nat → Nat) → Prop
  | first {p values tm} : laxDateAndTime date = .ok (some (p, values, tm)) → LaxPlace date p values
  | next {p values p' values' offset} : LaxPlace date p values → deref p ≠ 0 →
      laxZone p values = .ok (some (some p', values', offset)) → LaxPlace date p' values'

theorem not_overruns_of_sign (hsign : deref p = 45 ∨ deref p = 43) : ¬Overruns p := by
  rintro ⟨hword, -⟩
  refine hword ?_
  cases p with
  | nil => rfl
  | cons c rest =>
    have hletter : isalpha c = false := by
      rcases hsign with hc | hc
      · rw [show c = 45 from hc]
        rfl
      · rw [show c = 43 from hc]
        rfl
    rw [zoneWord, List.takeWhile_cons_of_neg (by rw [hletter]; decide)]

theorem timeZone_error : timeZone p values = .error () ↔ ¬(deref p = 45 ∨ deref p = 43) ∧
    Overruns p := by
  rw [timeZone]
  split
  next hsign =>
    obtain ⟨found, hfound⟩ := parseByRule_ok rules_safe.2.2.1 0 p.tail values
    rw [hfound]
    refine ⟨fun herror => ?_, fun h => absurd hsign h.1⟩
    cases found <;> cases herror
  next hsign =>
    rw [parseLegacyTimezone_error]
    exact (and_iff_right hsign).symm

theorem parsedateRfc5322_error : parsedateRfc5322 date = .error () ↔
    ∃ p, ZonePlace date p ∧ Overruns p := by
  obtain ⟨found, hfound⟩ := dateAndTime_ok date
  have hplace : (∃ p, ZonePlace date p ∧ Overruns p) ↔
      ∃ p values tm, found = some (p, values, tm) ∧ timeZone p values = .error () := by
    constructor
    · rintro ⟨p, ⟨values, tm, hplace, hsign⟩, hoverruns⟩
      exact ⟨p, values, tm, Except.ok.inj (hfound.symm.trans hplace),
        timeZone_error.mpr ⟨hsign, hoverruns⟩⟩
    · rintro ⟨p, values, tm, rfl, herror⟩
      obtain ⟨hsign, hoverruns⟩ := timeZone_error.mp herror
      exact ⟨p, ⟨values, tm, hfound, hsign⟩, hoverruns⟩
  rw [hplace, parsedateRfc5322, hfound]
  cases found with
  | none => exact ⟨nofun, nofun⟩
  | some found =>
    obtain ⟨p, values, tm⟩ := found
    simp only [bind, Except.bind]
    constructor
    · intro herror
      refine ⟨p, values, tm, rfl, ?_⟩
      cases hzone : timeZone p values with
      | error _ => rfl
      | ok zone =>
        rw [hzone] at herror
        cases zone with
        | none => cases herror
        | some zone =>
          dsimp only at herror
          split at herror
          · cases herror
          split at herror
          · cases herror
          · cases herror
    · rintro ⟨p', values', tm', heq, herror⟩
      obtain ⟨rfl, rfl, rfl⟩ := Prod.mk.inj (Option.some.inj heq) |>.imp_right Prod.mk.inj
      rw [herror]

theorem laxZone_error : laxZone p values = .error () ↔ Overruns p := by
  rw [laxZone]
  split
  next hsign =>
    obtain ⟨found, hfound⟩ := parseByRule_ok rules_safe.2.2.2.2.2 0 p.tail values
    simp only [hfound, bind, Except.bind]
    refine ⟨fun herror => ?_, fun h => absurd h (not_overruns_of_sign hsign)⟩
    cases found <;> cases herror
  next hsign =>
    rw [← @parseLegacyTimezone_error p true]
    cases hparse : parseLegacyTimezone p true with
    | error _ => exact ⟨fun _ => rfl, fun _ => rfl⟩
    | ok found => cases found <;> exact ⟨nofun, nofun⟩

theorem laxZone_length {q : Octets} {values' : Nat → Nat} {offset : Int} (hp : p ≠ [])
    (hzone : laxZone p values = .ok (some (some q, values', offset))) : q.length < p.length := by
  have htail : p.tail.length < p.length := by
    have := List.length_pos_iff.mpr hp
    rw [List.length_tail]
    omega
  rw [laxZone] at hzone
  split at hzone
  · obtain ⟨found, hfound⟩ := parseByRule_ok rules_safe.2.2.2.2.2 0 p.tail values
    simp only [hfound, bind, Except.bind] at hzone
    cases found with
    | none => cases hzone
    | some found =>
      obtain ⟨hq, -⟩ := Prod.mk.inj (Option.some.inj (Except.ok.inj hzone))
      cases hq
      exact ((skipCfws_length _).trans (parseByRule_length hfound)).trans_lt htail
  · cases hparse : parseLegacyTimezone p true with
    | error _ =>
      rw [hparse] at hzone
      cases hzone
    | ok found =>
      rw [hparse] at hzone
      cases found with
      | none => cases hzone
      | some found =>
        obtain ⟨hq, -⟩ := Prod.mk.inj (Option.some.inj (Except.ok.inj hzone))
        cases hq
        exact (skipCfws_length _).trans_lt (parseLegacyTimezone_length hparse)

theorem laxZones_ok (hsafe : ∀ p values, LaxPlace date p values → ¬Overruns p) (turns : Nat)
    (hplace : LaxPlace date p values) (found : Bool × Int) :
    ∃ result, laxZones turns p values found = .ok result := by
  induction turns generalizing p values found with
  | zero => exact ⟨_, rfl⟩
  | succ turns ih =>
    rw [laxZones]
    split
    · exact ⟨_, rfl⟩
    next hne =>
      cases hzone : laxZone p values with
      | error _ => exact absurd (laxZone_error.mp hzone) (hsafe p values hplace)
      | ok zone =>
        match zone with
        | none => exact ⟨_, rfl⟩
        | some (none, _, _) => exact ⟨_, rfl⟩
        | some (some q, values', offset) => exact ih (.next hplace hne hzone) (true, offset)

theorem LaxPlace.run (hplace : LaxPlace date p values) :
    ∃ p₀ values₀ tm turns found, laxDateAndTime date = .ok (some (p₀, values₀, tm)) ∧
      p.length ≤ turns ∧
      laxZones p₀.length p₀ values₀ (false, 0) = laxZones turns p values found := by
  induction hplace with
  | first hbegin => exact ⟨_, _, _, _, _, hbegin, Nat.le_refl _, rfl⟩
  | @next p values q values' offset _ hne hzone ih =>
    obtain ⟨p₀, values₀, tm, turns, found, hbegin, hle, hrun⟩ := ih
    have hlength := laxZone_length (deref_ne_zero hne) hzone
    obtain ⟨turns, rfl⟩ : ∃ n, turns = n + 1 := ⟨turns - 1, by omega⟩
    refine ⟨p₀, values₀, tm, turns, (true, offset), hbegin, by omega, hrun.trans ?_⟩
    rw [laxZones, if_neg hne, hzone]
    rfl

theorem parsedateRfc5322Lax_ok_iff (mktime : tm → Int) :
    (∃ result, parsedateRfc5322Lax mktime date = .ok result) ↔ ∀ p values, LaxPlace date p values →
      ¬Overruns p := by
  constructor
  · rintro ⟨result, hresult⟩ p values hplace hoverruns
    obtain ⟨p₀, values₀, tm, turns, found, hbegin, hle, hrun⟩ := hplace.run
    have hne : deref p ≠ 0 := by
      obtain ⟨c, hc⟩ := List.exists_mem_of_ne_nil _ hoverruns.1
      cases p with
      | nil => cases hc
      | cons d rest =>
        intro hzero
        refine hoverruns.1 ?_
        rw [zoneWord, List.takeWhile_cons_of_neg]
        rw [show d = 0 from hzero]
        decide
    obtain ⟨turns, rfl⟩ : ∃ n, turns = n + 1 := by
      have hpositive := List.length_pos_iff.mpr (deref_ne_zero hne)
      exact ⟨turns - 1, by omega⟩
    have herror : laxZones (turns + 1) p values found = .error () := by
      rw [laxZones, if_neg hne, laxZone_error.mpr hoverruns]
      rfl
    rw [parsedateRfc5322Lax, hbegin] at hresult
    simp only [bind, Except.bind, hrun, herror] at hresult
    cases hresult
  · intro hsafe
    obtain ⟨begun, hbegin⟩ := laxDateAndTime_ok date
    rw [parsedateRfc5322Lax, hbegin]
    match begun with
    | none => exact ⟨_, rfl⟩
    | some (p, values, tm) =>
      obtain ⟨found, hfound⟩ := laxZones_ok hsafe p.length (.first hbegin) (false, 0)
      simp only [bind, Except.bind, hfound]
      cases found with
      | none => exact ⟨_, rfl⟩
      | some found =>
        dsimp only
        split
        · exact ⟨_, rfl⟩
        · exact ⟨_, rfl⟩

/-- The parser comes to an end, and gives each zone its offset. -/
structure Interprets (date : CString) : Prop where
  reads : ∃ result, parsedateRfc5322 date = .ok result
  readsLax : ∀ mktime, ∃ result, parsedateRfc5322Lax mktime date = .ok result
  zone : ∀ p, ZonePlace date p → parseLegacyTimezone p false = .ok (specifiedZone p)

/-- A date is interpreted as it should be exactly if it does not abbreviate the name of a time zone,
in lax mode one that is longer than the rest of the date. -/
theorem interprets_iff (date : CString) :
    Interprets date ↔
      (∀ p, ZonePlace date p → ¬Abbreviates p) ∧ ∀ p values, LaxPlace date p values →
        ¬Overruns p := by
  constructor
  · intro hinterprets
    refine ⟨fun p hplace => parseLegacyTimezone_eq_iff.mp (hinterprets.zone p hplace), ?_⟩
    exact (parsedateRfc5322Lax_ok_iff mktimeUtc).mp (hinterprets.readsLax mktimeUtc)
  · rintro ⟨hwhole, hfits⟩
    refine ⟨?_, fun mktime => (parsedateRfc5322Lax_ok_iff mktime).mpr hfits,
      fun p hplace => parseLegacyTimezone_eq_iff.mpr (hwhole p hplace)⟩
    cases hresult : parsedateRfc5322 date with
    | ok result => exact ⟨result, rfl⟩
    | error _ =>
      obtain ⟨p, hplace, hoverruns⟩ := parsedateRfc5322_error.mp hresult
      exact absurd hoverruns.abbreviates (hwhole p hplace)

/-- The military time zone E is taken for EDT, and the parser goes on behind the nul. -/
theorem not_interprets : ¬∀ date : CString, Interprets date := by
  intro hall
  obtain ⟨result, hresult⟩ := (hall (cstring (octets "1 Jan 2000 00:00 E"))).reads
  have herror : (parsedateRfc5322 (cstring (octets "1 Jan 2000 00:00 E"))).toOption = none := by
    decide +kernel
  rw [hresult] at herror
  cases herror

end Dates

end Inn.Lib.Date
