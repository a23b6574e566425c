import Inn.History.Expiry
import Inn.Storage.Ov

/-!
# The groups of an Xref field

The field of an article lists groups with the number of the article in each. Both ways of
taking the list apart give the groups and the numbers that it was written from.
-/

namespace Inn.Storage.Ov

open Inn.Foundation.Words
open Inn.History (strtoul)
open Inn.Wildmat (CString cstring uwildmatPoison)
open List (cons_append append_assoc length_cons length_append append_nil mem_cons_self mem_cons
    mem_append cons_ne_nil)

def Plain (c : UInt8) : Prop := isspace c = false ∧ c ≠ 58 ∧ c ≠ 0

instance (c : UInt8) : Decidable (Plain c) := inferInstanceAs (Decidable (_ ∧ _))

structure Pair where
  group : Octets
  number : Nat
  nonempty : group ≠ []
  plain : ∀ c ∈ group, Plain c
  positive : 0 < number
  small : number < 2 ^ 31

def Pair.entry (pair : Pair) : Octets := pair.group ++ 58 :: decimal pair.number

def spaced (pairs : List Pair) : Octets := pairs.flatMap fun pair => 32 :: pair.entry

variable {pair : Pair} {pairs : List Pair} {lead rest : Octets}

theorem spaced_cons :
    spaced (pair :: pairs) = 32 :: (pair.group ++ 58 :: (decimal pair.number ++ spaced pairs)) := by
  rw [spaced, List.flatMap_cons, Pair.entry, cons_append, append_assoc, cons_append]
  rfl

theorem spaced_head : ∀ c ∈ (spaced pairs).head?, c = 32 := by
  intro c hc
  cases pairs with
  | nil => cases hc
  | cons pair pairs =>
    rw [spaced_cons] at hc
    exact (Option.some.inj hc).symm

theorem length_le_spaced (pairs : List Pair) : pairs.length ≤ (spaced pairs).length := by
  induction pairs with
  | nil => exact Nat.le_refl 0
  | cons pair pairs ih =>
    rw [spaced_cons, length_cons, length_cons, length_append, length_cons, length_append]
    omega

theorem takeWhile_dropWhile_append {p : UInt8 → Bool} {word : Octets} (hword : ∀ c ∈ word, p c)
    (hrest : ∀ c ∈ rest.head?, p c = false) :
    (word ++ rest).takeWhile p = word ∧ (word ++ rest).dropWhile p = rest := by
  rw [List.takeWhile_append_of_pos hword, List.dropWhile_append_of_pos hword]
  cases rest with
  | nil => exact ⟨append_nil word, rfl⟩
  | cons c rest =>
    have hc := hrest c rfl
    rw [List.takeWhile_cons_of_neg (by simp [hc]),
      List.dropWhile_cons_of_neg (by simp [hc]), append_nil]
    exact ⟨rfl, rfl⟩

theorem decimal_ne {n : Nat} {c d : UInt8} (hc : c ∈ decimal n)
    (hd : isdigit d = false) : c ≠ d := by
  rintro rfl
  rw [decimal_isdigit n c hc] at hd
  cases hd

theorem Pair.dropWhile_group : (pair.group ++ rest).dropWhile isspace = pair.group ++ rest := by
  obtain ⟨c, group, hgroup⟩ := List.exists_cons_of_ne_nil pair.nonempty
  have hc := (pair.plain c (by rw [hgroup]; exact mem_cons_self)).1
  rw [hgroup, cons_append, List.dropWhile_cons_of_neg (by simp [hc])]

theorem Pair.group_colon : ∀ c ∈ pair.group, decide (c ≠ 58) = true := by
  intro c hc
  exact decide_eq_true (pair.plain c hc).2.1

theorem atoi_number (hrest : ∀ c ∈ rest.head?, isdigit c = false) :
    atoi (decimal pair.number ++ rest) = pair.number := by
  have hsmall := pair.small
  unfold atoi
  rw [Inn.Innd.Numbering.atol_append pair.number hrest]
  have hmin : min (2 ^ 63 - 1) (pair.number : Int) = pair.number := by omega
  rw [hmin, Int.bmod_eq_of_le_mul_two] <;> omega

section Walking

variable {σ : Type*}

def eachPair (visit : Octets → Octets → σ → σ × Option OVADDRESULT) :
    List Pair → σ → σ × Option OVADDRESULT
  | [], s => (s, none)
  | pair :: pairs, s =>
    match visit pair.group (decimal pair.number ++ spaced pairs) s with
    | (s, some result) => (s, some result)
    | (s, none) => eachPair visit pairs s

variable {visit : Octets → Octets → σ → σ × Option OVADDRESULT} {bound : Nat} {s : σ}

theorem eachGroup_entry (hlead : lead = [] ∨ lead = [32]) :
    eachGroup visit (bound + 1)
      (lead ++ (pair.group ++ 58 :: (decimal pair.number ++ spaced pairs))) s =
      match visit pair.group (decimal pair.number ++ spaced pairs) s with
      | (s, some result) => (s, some result)
      | (s, none) => eachGroup visit bound (spaced pairs) s := by
  have hdrop :
      (lead ++ (pair.group ++ 58 :: (decimal pair.number ++ spaced pairs))).dropWhile isspace =
      pair.group ++ 58 :: (decimal pair.number ++ spaced pairs) := by
    rcases hlead with rfl | rfl
    · exact Pair.dropWhile_group
    · rw [List.singleton_append, List.dropWhile_cons_of_pos (by decide)]
      exact Pair.dropWhile_group
  have hhead :
      (lead ++ (pair.group ++ 58 :: (decimal pair.number ++ spaced pairs))).headD 0 ≠ 0 := by
    rcases hlead with rfl | rfl
    · obtain ⟨c, group, hgroup⟩ := List.exists_cons_of_ne_nil pair.nonempty
      have hc := (pair.plain c (by rw [hgroup]; exact mem_cons_self)).2.2
      rw [hgroup]
      exact hc
    · exact (by decide : (32 : UInt8) ≠ 0)
  have hend : ∀ c ∈ (58 :: (decimal pair.number ++ spaced pairs) : Octets).head?,
      decide (c ≠ 58) = false := by
    intro c hc
    obtain rfl := Option.some.inj hc
    rfl
  obtain ⟨htake, hcolon⟩ := takeWhile_dropWhile_append pair.group_colon hend
  have hnext : (decimal pair.number ++ spaced pairs).dropWhile (· ≠ 32) = spaced pairs := by
    refine (takeWhile_dropWhile_append (fun c hc => decide_eq_true (decimal_ne hc rfl))
      fun c hc => ?_).2
    rw [spaced_head c hc]
    rfl
  rw [eachGroup, if_neg hhead]
  dsimp only
  rw [hdrop, hcolon, htake]
  dsimp only
  cases visit pair.group (decimal pair.number ++ spaced pairs) s with
  | mk s result =>
    cases result with
    | some result => rfl
    | none => exact congrArg (fun next => eachGroup visit bound next s) hnext

theorem eachGroup_spaced (hbound : pairs.length ≤ bound) :
    eachGroup visit bound (spaced pairs) s = eachPair visit pairs s := by
  induction pairs generalizing bound s with
  | nil => cases bound <;> rfl
  | cons pair pairs ih =>
    cases bound with
    | zero => exact absurd hbound (Nat.not_succ_le_zero _)
    | succ bound =>
      have hentry :
          eachGroup visit (bound + 1)
          ([32] ++ (pair.group ++ 58 :: (decimal pair.number ++ spaced pairs))) s = _ :=
        eachGroup_entry (.inr rfl)
      rw [spaced_cons]
      refine hentry.trans ?_
      rw [eachPair]
      cases visit pair.group (decimal pair.number ++ spaced pairs) s with
      | mk s result =>
        cases result with
        | some result => rfl
        | none => exact ih (Nat.le_of_succ_le_succ hbound)

theorem eachGroup_pairs (hbound : pairs.length < bound) :
    eachGroup visit bound (spaced pairs).tail s = eachPair visit pairs s := by
  cases pairs with
  | nil => cases bound <;> rfl
  | cons pair pairs =>
    obtain ⟨bound, rfl⟩ := Nat.exists_eq_add_of_lt hbound
    rw [spaced_cons, List.tail_cons]
    have hentry : eachGroup visit ((pair :: pairs).length + bound + 1)
        (pair.group ++ 58 :: (decimal pair.number ++ spaced pairs)) s = _ :=
          eachGroup_entry (.inl rfl)
    refine hentry.trans ?_
    rw [eachPair]
    cases visit pair.group (decimal pair.number ++ spaced pairs) s with
    | mk s result =>
      cases result with
      | some result => rfl
      | none =>
        refine eachGroup_spaced ?_
        rw [length_cons]
        omega

end Walking

section Adding

variable {cfg : Config} {add : Record → Bool} {data : Octets}

def Config.bars (cfg : Config) (group : Octets) : Bool :=
  match cfg.ovgrouppat with
  | none => false
  | some ovgrouppat =>
    match uwildmatPoison (cstring group) ovgrouppat with
    | .poison => true
    | .fail => !cfg.selfexpire && cfg.groupbaseexpiry
    | .match => false

def handed (add : Record → Bool) : List Record → List Record
  | [] => []
  | record :: records => record :: if add record then handed add records else []

def recordOf (data : Octets) (pair : Pair) : Record :=
  ⟨pair.group, pair.number, decimal pair.number ++ 9 :: (data ++ [13, 10])⟩

theorem checkGroup_none {group next : Octets} : (checkGroup cfg group next ()).2 = none ↔
    cfg.bars group = false := by
  unfold checkGroup Config.bars
  cases cfg.ovgrouppat with
  | none => exact ⟨fun _ => rfl, fun _ => rfl⟩
  | some ovgrouppat =>
    dsimp only
    cases uwildmatPoison (cstring group) ovgrouppat with
    | poison => exact ⟨nofun, nofun⟩
    | «match» => exact ⟨fun _ => rfl, fun _ => rfl⟩
    | fail => cases cfg.selfexpire <;> cases cfg.groupbaseexpiry <;> decide

theorem eachPair_check : (eachPair (checkGroup cfg) pairs ()).2 = none ↔
    ∀ pair ∈ pairs, cfg.bars pair.group = false := by
  induction pairs with
  | nil => exact ⟨fun _ => nofun, fun _ => rfl⟩
  | cons pair pairs ih =>
    rw [eachPair, List.forall_mem_cons, ← checkGroup_none, ← ih]
    cases hcheck : checkGroup cfg pair.group (decimal pair.number ++ spaced pairs) () with
    | mk s result =>
      cases result with
      | some result => exact ⟨nofun, fun h => h.1⟩
      | none => exact ⟨fun h => ⟨rfl, h⟩, fun h => h.2⟩

theorem printLong_number : printLong pair.number = decimal pair.number := by
  unfold printLong
  rw [if_neg (Int.not_lt.mpr (Int.natCast_nonneg _)), Int.natAbs_natCast]

theorem addGroup_pair (records : List Record) (hrest : ∀ c ∈ rest.head?, c = 32) :
    addGroup cfg add data pair.group (decimal pair.number ++ rest) records =
      if cfg.selects pair.group = false then (records, none)
      else (records ++ [recordOf data pair],
        if add (recordOf data pair) then none else some .OVADDFAILED) := by
  have hsmall := pair.small
  have hpositive := pair.positive
  have hvalue : atoi (decimal pair.number ++ rest) = pair.number := by
    refine atoi_number fun c hc => ?_
    rw [hrest c hc]
    rfl
  have hnumber : ((pair.number : Int) % 2 ^ 64).toNat = pair.number := by
    rw [Int.emod_eq_of_lt] <;> omega
  unfold addGroup
  rw [hvalue, if_neg (by omega), printLong_number, hnumber]
  rfl

theorem eachPair_add (records : List Record) :
    (eachPair (addGroup cfg add data) pairs records).1 =
      records ++ handed add
        ((pairs.filter fun pair => cfg.selects pair.group).map (recordOf data)) := by
  induction pairs generalizing records with
  | nil => exact (append_nil records).symm
  | cons pair pairs ih =>
    rw [eachPair, addGroup_pair records spaced_head]
    cases hselects : cfg.selects pair.group with
    | false =>
      rw [if_pos rfl, List.filter_cons_of_neg (by simp [hselects])]
      exact ih records
    | true =>
      rw [if_neg nofun, List.filter_cons, if_pos hselects, List.map_cons, handed]
      cases add (recordOf data pair) with
      | false => rfl
      | true =>
        refine (ih (records ++ [recordOf data pair])).trans ?_
        rw [append_assoc]
        rfl

end Adding

section Fields

variable {host data : Octets}

/-- The overview data ends with an Xref field of these pairs. -/
def LastXref (data host : Octets) (pairs : List Pair) : Prop :=
  ∃ front tail, data = front ++ 9 :: (xrefName ++ (host ++ 32 :: ((spaced pairs).tail ++ tail))) ∧
    (∀ c ∈ host, Plain c) ∧ (∀ c ∈ tail.head?, c = 9) ∧ ¬(9 :: xrefName) <:+: tail

theorem findXref_occurs {prev : UInt8} {text found : Octets}
    (hfind : findXref prev text = some found) :
    (9 :: xrefName) <:+: prev :: text := by
  induction text generalizing prev with
  | nil => cases hfind
  | cons c rest ih =>
    unfold findXref at hfind
    split at hfind
    next hlater =>
      cases hfind
      exact (ih hlater).trans (List.suffix_cons prev _).isInfix
    next =>
      split at hfind
      next hhere =>
        obtain ⟨hname, rfl⟩ := hhere
        refine ⟨[], (c :: rest).drop 6, ?_⟩
        rw [← hname, List.nil_append, cons_append, List.take_append_drop]
      next => cases hfind

theorem findXref_append {front : Octets} {prev c : UInt8} {text found : Octets}
    (hfind : findXref c text = some found) :
    findXref prev (front ++ c :: text) = some found := by
  induction front generalizing prev with
  | nil =>
    rw [List.nil_append, findXref, hfind]
  | cons d front ih =>
    rw [cons_append, findXref, ih]

theorem findXref_none {prev : UInt8} {text tail : Octets} (hprev : prev ≠ 9)
    (htext : ∀ c ∈ text, c ≠ 9)
    (htail : ∀ c ∈ tail.head?, c = 9) (hlast : ¬(9 :: xrefName) <:+: tail) :
    findXref prev (text ++ tail) = none := by
  induction text generalizing prev with
  | nil =>
    rw [List.nil_append]
    cases tail with
    | nil => rfl
    | cons c tail =>
      obtain rfl := htail c rfl
      have hnone : findXref 9 tail = none := by
        cases hfind : findXref 9 tail with
        | none => rfl
        | some found => exact absurd (findXref_occurs hfind) hlast
      rw [findXref, hnone]
      exact if_neg fun h => hprev h.2
  | cons c text ih =>
    rw [cons_append, findXref, ih (htext c mem_cons_self) fun d hd =>
      htext d (List.mem_cons_of_mem _ hd)]
    exact if_neg fun h => hprev h.2

theorem afterSpace_append {word : Octets} (hword : ∀ c ∈ word, c ≠ 32) :
    afterSpace (word ++ 32 :: rest) = some rest := by
  have hend : ∀ c ∈ (32 :: rest : Octets).head?, decide (c ≠ 32) = false := by
    intro c hc
    cases hc
    rfl
  unfold afterSpace
  rw [(takeWhile_dropWhile_append (fun c hc => decide_eq_true (hword c hc)) hend).2]

theorem Plain.ne_space {c : UInt8} (hplain : Plain c) : c ≠ 32 ∧ c ≠ 9 := by
  constructor
  · rintro rfl
    exact absurd hplain.1 (by decide)
  · rintro rfl
    exact absurd hplain.1 (by decide)

theorem spaced_ne {d : UInt8} (hdigit : isdigit d = false) (hplain : ¬Plain d) (hspace : d ≠ 32)
    (hcolon : d ≠ 58) :
    ∀ c ∈ spaced pairs, c ≠ d := by
  rintro c hc rfl
  obtain ⟨pair, _, hpair⟩ := List.mem_flatMap.mp hc
  rcases mem_cons.mp hpair with h | h
  · exact hspace h
  · rcases mem_append.mp h with h | h
    · exact hplain (pair.plain c h)
    · rcases mem_cons.mp h with h | h
      · exact hcolon h
      · exact decimal_ne h hdigit rfl

theorem xrefGroups_pairs (hlast : LastXref data host pairs) :
    xrefGroups data = some (spaced pairs).tail := by
  obtain ⟨front, tail, rfl, hhost, htail, hnone⟩ := hlast
  have htab : ∀ c ∈ (spaced pairs).tail, c ≠ 9 := fun c hc =>
    spaced_ne rfl (by decide) (by decide) (by decide) c (List.mem_of_mem_tail hc)
  have hfield :
      ∀ c ∈ [114, 101, 102, 58, 32] ++ (host ++ 32 :: (spaced pairs).tail), c ≠ (9 : UInt8) := by
    intro c hc
    rcases mem_append.mp hc with h | h
    · rintro rfl
      exact absurd h (by decide)
    · rcases mem_append.mp h with h | h
      · exact (hhost c h).ne_space.2
      · rcases mem_cons.mp h with rfl | h
        · decide
        · exact htab c h
  have hstart : findXref 9 (xrefName ++ (host ++ 32 :: ((spaced pairs).tail ++ tail))) =
      some (xrefName ++ (host ++ 32 :: ((spaced pairs).tail ++ tail))) := by
    have hlater :
        findXref 88 ([114, 101, 102, 58, 32] ++ (host ++ 32 :: (spaced pairs).tail) ++ tail) =
        none :=
      findXref_none (by decide) hfield htail hnone
    rw [append_assoc, append_assoc] at hlater
    change findXref 9 (88 ::
      ([114, 101, 102, 58, 32] ++ (host ++ 32 :: ((spaced pairs).tail ++ tail)))) = _
    rw [findXref]
    rw [show host ++ (32 :: (spaced pairs).tail ++ tail) =
      host ++ 32 :: ((spaced pairs).tail ++ tail) from rfl] at hlater
    rw [hlater]
    exact if_pos ⟨rfl, rfl⟩
  have hname :
      afterSpace ([88, 114, 101, 102, 58] ++ 32 :: (host ++ 32 :: ((spaced pairs).tail ++ tail))) =
      some (host ++ 32 :: ((spaced pairs).tail ++ tail)) := afterSpace_append (by decide +kernel)
  have hspace : afterSpace (xrefName ++ (host ++ 32 :: ((spaced pairs).tail ++ tail))) =
      some (host ++ 32 :: ((spaced pairs).tail ++ tail)) := hname
  have hsecond : afterSpace (host ++ 32 :: ((spaced pairs).tail ++ tail)) =
      some ((spaced pairs).tail ++ tail) :=
    afterSpace_append fun c hc => (hhost c hc).ne_space.1
  have hcut : ((spaced pairs).tail ++ tail).takeWhile (· ≠ 9) = (spaced pairs).tail := by
    refine (takeWhile_dropWhile_append (fun c hc => decide_eq_true (htab c hc)) fun c hc => ?_).1
    rw [htail c hc]
    rfl
  unfold xrefGroups
  rw [findXref_append hstart]
  dsimp only
  rw [hspace]
  dsimp only
  rw [if_neg (List.append_ne_nil_of_right_ne_nil _ (cons_ne_nil _ _)), hsecond]
  exact congrArg some hcut

end Fields

section Records

variable {cfg : Config} {add : Record → Bool} {buffers : Buffers} {data host : Octets}

theorem checkGroups_eq (hbound : pairs.length < (spaced pairs).tail.length + 1) :
    checkGroups cfg (spaced pairs).tail = (eachPair (checkGroup cfg) pairs ()).2 := by
  unfold checkGroups
  split
  next hunset =>
    refine (eachPair_check.mpr fun pair _ => ?_).symm
    rw [Config.bars, hunset]
  · rw [eachGroup_pairs hbound]

theorem OVadd_records (hlast : LastXref data host pairs) :
    (OVadd cfg add buffers data).records =
      if pairs.any (fun pair => cfg.bars pair.group) then []
      else handed add ((pairs.filter fun pair => cfg.selects pair.group).map (recordOf data)) := by
  have hbound : pairs.length < (spaced pairs).tail.length + 1 := by
    cases pairs with
    | nil => exact Nat.zero_lt_one
    | cons pair pairs =>
      have hle := length_le_spaced pairs
      rw [spaced_cons, List.tail_cons, length_append, length_cons, length_cons, length_append]
      omega
  unfold OVadd
  rw [xrefGroups_pairs hlast]
  dsimp only
  rw [checkGroups_eq hbound]
  cases hcheck : (eachPair (checkGroup cfg) pairs ()).2 with
  | some result =>
    have hbar : pairs.any (fun pair => cfg.bars pair.group) = true := by
      by_contra hno
      rw [List.any_eq_true] at hno
      have hnone : (eachPair (checkGroup cfg) pairs ()).2 = none :=
        eachPair_check.mpr fun pair hpair =>
        Bool.eq_false_iff.mpr fun h => hno ⟨pair, hpair, h⟩
      exact nomatch hnone.symm.trans hcheck
    rw [if_pos hbar]
  | none =>
    have hbar : ¬pairs.any (fun pair => cfg.bars pair.group) = true := by
      rw [List.any_eq_true]
      rintro ⟨pair, hpair, hbars⟩
      rw [eachPair_check.mp hcheck pair hpair] at hbars
      cases hbars
    rw [if_neg hbar, eachGroup_pairs hbound]
    exact eachPair_add []

theorem OVadd_buffers (hlast : LastXref data host pairs) :
    (OVadd cfg add buffers data).buffers =
    (buffers.forXref (spaced pairs).tail.length).forLine data.length := by
  unfold OVadd
  rw [xrefGroups_pairs hlast]
  dsimp only
  split <;> rfl

theorem forXref_room {xreflen : Nat} (hxreflen : xreflen ≠ BIG_BUFFER) :
    xreflen < (buffers.forXref xreflen).allocated := by
  unfold Buffers.forXref
  split
  · exact Nat.lt_succ_self xreflen
  next hshort =>
    have hfirst := buffers.first_le
    have hbig : 0 < BIG_BUFFER := by decide
    rcases buffers.first.fits with hzero | ⟨hlen, hallocated⟩ | ⟨hlen, hallocated⟩ <;> omega

theorem handed_mem {records : List Record} {record : Record} (hmem : record ∈ handed add records) :
    record ∈ records := by
  induction records with
  | nil => cases hmem
  | cons first records ih =>
    rw [handed] at hmem
    rcases mem_cons.mp hmem with rfl | hmem
    · exact mem_cons_self
    · split at hmem
      · exact List.mem_cons_of_mem _ (ih hmem)
      · cases hmem

theorem recordOf_room (buffers : Buffers) (data : Octets) (pair : Pair) :
    (recordOf data pair).overdata.length ≤ (buffers.forLine data.length).overdatalen := by
  have hdigits : (decimal pair.number).length ≤ 9 + 1 :=
    Inn.History.decimal_length_le (Nat.lt_trans pair.small (by decide))
  have hroom : data.length + 16 ≤ (buffers.forLine data.length).overdatalen := by
    unfold Buffers.forLine
    dsimp only
    split
    · split
      · exact Nat.le_refl _
      next hshort => exact Nat.not_lt.mp hshort
    · split
      · exact Nat.le_refl _
      next hshort => exact Nat.not_lt.mp hshort
  rw [recordOf, length_append, length_cons, length_append]
  change _ + (_ + 2 + 1) ≤ _
  omega

end Records

section Cancelling

variable {head host : Octets}

theorem decimal_first {n : Nat} {c : UInt8} (hc : c ∈ (decimal n ++ rest).head?) :
    isdigit c = true := by
  obtain ⟨d, text, hdecimal⟩ := List.exists_cons_of_ne_nil (decimal_ne_nil n)
  have hd := decimal_isdigit n d (by rw [hdecimal]; exact mem_cons_self)
  rw [hdecimal] at hc
  cases hc
  exact hd

theorem isdigit_not_space {c : UInt8} (hc : isdigit c) : isspace c = false := by
  have hbounds := Inn.History.isdigit_bounds hc
  rw [isspace, Bool.or_eq_false_iff, decide_eq_false_iff_not, Bool.and_eq_false_iff,
    decide_eq_false_iff_not,
    decide_eq_false_iff_not, UInt8.le_iff_toNat_le]
  refine ⟨?_, .inr ?_⟩
  · rintro rfl
    exact absurd hbounds.1 (by decide)
  · have h13 : (13 : UInt8).toNat = 13 := rfl
    rw [UInt8.le_iff_toNat_le]
    omega

theorem cancelGroup_entry (hrest : ∀ c ∈ rest.head?, isdigit c = false) :
    cancelGroup (pair.entry ++ rest) = some (pair.group, pair.number) := by
  have hsmall := pair.small
  have hpositive := pair.positive
  have hentry : pair.entry ++ rest = pair.group ++ 58 :: (decimal pair.number ++ rest) := by
    rw [Pair.entry, append_assoc, cons_append]
  have hend :
      ∀ c ∈ (58 :: (decimal pair.number ++ rest) : Octets).head?, decide (c ≠ 58) = false := by
    intro c hc
    obtain rfl := Option.some.inj hc
    rfl
  obtain ⟨htake, hdrop⟩ := takeWhile_dropWhile_append pair.group_colon hend
  have hspace : (decimal pair.number ++ rest).dropWhile isspace = decimal pair.number ++ rest :=
    List.dropWhile_eq_self_iff.mpr fun hpos => by
      simpa using isdigit_not_space
        (decimal_first (List.head?_eq_getElem? ▸ List.getElem?_eq_getElem hpos))
  have hsign : (decimal pair.number ++ rest).dropWhile (fun c => c = 43 || c = 45) =
      decimal pair.number ++ rest :=
    List.dropWhile_eq_self_iff.mpr fun hpos hc => by
      have hdigit := decimal_first (List.head?_eq_getElem? ▸ List.getElem?_eq_getElem hpos)
      rcases Bool.or_eq_true_iff.mp hc with h | h
      · rw [of_decide_eq_true h] at hdigit
        cases hdigit
      · rw [of_decide_eq_true h] at hdigit
        cases hdigit
  have hdigits := (takeWhile_dropWhile_append (decimal_isdigit pair.number) hrest).1
  have hnumber : (UInt64.ofNat pair.number).toNat = pair.number :=
    UInt64.toNat_ofNat_of_lt' (Nat.lt_trans pair.small (by decide))
  have hread : strtoul (decimal pair.number ++ rest) = (UInt64.ofNat pair.number, rest) := by
    have hread := Inn.History.strtoul_decimal (UInt64.ofNat pair.number) hrest
    rwa [hnumber] at hread
  have hhyphen : (decimal pair.number ++ rest).headD 0 ≠ 45 := by
    obtain ⟨c, text, hcons⟩ := List.exists_cons_of_ne_nil (decimal_ne_nil pair.number)
    have hc := decimal_isdigit pair.number c (by rw [hcons]; exact mem_cons_self)
    rw [hcons]
    rintro heq
    change c = 45 at heq
    rw [heq] at hc
    cases hc
  have hzero : UInt64.ofNat pair.number ≠ 0 := by
    intro heq
    rw [heq] at hnumber
    exact absurd hnumber.symm (Nat.pos_iff_ne_zero.mp hpositive)
  unfold cancelGroup
  dsimp only
  rw [hentry, htake, hdrop]
  dsimp only
  rw [if_neg (fun h => h.elim pair.nonempty hhyphen), hspace, hsign, hdigits, readDigits_decimal,
    if_neg (by omega), hread]
  dsimp only
  rw [if_neg hzero, hnumber]

theorem entry_word (pair : Pair) : ∀ c ∈ pair.entry, c ≠ 0 ∧ ISWHITE c = false := by
  intro c hc
  rcases mem_append.mp hc with h | h
  · have hplain := pair.plain c h
    refine ⟨hplain.2.2, ?_⟩
    rw [ISWHITE, Bool.or_eq_false_iff, decide_eq_false_iff_not, decide_eq_false_iff_not]
    exact hplain.ne_space
  · rcases mem_cons.mp h with rfl | h
    · decide
    · refine ⟨decimal_ne h rfl, ?_⟩
      rw [ISWHITE, Bool.or_eq_false_iff, decide_eq_false_iff_not, decide_eq_false_iff_not]
      exact ⟨decimal_ne h rfl, decimal_ne h rfl⟩

theorem xref_words (init : List Pair) (last : Pair) (hne : host ≠ [])
    (hhost : ∀ c ∈ host, Plain c) {bound : Nat}
    (hbound : (host ++ spaced (init ++ [last]) ++ [13, 10]).length < bound) :
    words ISWHITE bound ((host ++ spaced (init ++ [last]) ++ [13, 10]).dropWhile ISWHITE) =
      host :: (init.map Pair.entry ++ [last.entry ++ [13, 10]]) := by
  have hspace : ∀ c ∈ ([32] : Octets), ISWHITE c := by decide +kernel
  have hentries :
      ∀ entry ∈ (([32], host) :: (init.map (fun pair => (([32] : Octets), pair.entry)) ++
      [([32], last.entry ++ [13, 10])]) : List (Octets × Octets)), Entry ISWHITE entry := by
    intro entry hentry
    rcases mem_cons.mp hentry with rfl | hentry
    · refine ⟨cons_ne_nil _ _, hspace, hne, fun c hc => ?_⟩
      have hplain := (hhost c hc).ne_space
      rw [Bool.not_eq_true', ISWHITE, Bool.or_eq_false_iff, decide_eq_false_iff_not,
        decide_eq_false_iff_not]
      exact hplain
    · have hnonempty (pair : Pair) (rest : Octets) : pair.entry ++ rest ≠ [] := by
        rw [Pair.entry, append_assoc]
        exact List.append_ne_nil_of_left_ne_nil pair.nonempty _
      rcases mem_append.mp hentry with hentry | hentry
      · obtain ⟨pair, _, rfl⟩ := List.mem_map.mp hentry
        refine ⟨cons_ne_nil _ _, hspace, ?_, fun c hc => ?_⟩
        · have h := hnonempty pair []
          rwa [append_nil] at h
        · rw [Bool.not_eq_true']
          exact (entry_word pair c hc).2
      · obtain rfl := List.mem_singleton.mp hentry
        refine ⟨cons_ne_nil _ _, hspace, hnonempty last _, fun c hc => ?_⟩
        rw [Bool.not_eq_true']
        rcases mem_append.mp hc with h | h
        · exact (entry_word last c h).2
        · have hline : ∀ c ∈ ([13, 10] : Octets), ISWHITE c = false := by decide +kernel
          exact hline c h
  have hjoined : joined (([32], host) :: (init.map (fun pair => (([32] : Octets), pair.entry)) ++
      [([32], last.entry ++ [13, 10])])) = 32 :: (host ++ spaced (init ++ [last]) ++ [13, 10]) := by
    unfold joined spaced
    rw [List.flatMap_cons, List.flatMap_append, List.flatMap_append, List.flatMap_map,
      List.flatMap_singleton,
      List.flatMap_singleton]
    simp only [append_assoc, cons_append, List.nil_append]
  have hlength := length_le_joined fun entry hentry => (hentries entry hentry).nonempty
  rw [hjoined] at hlength
  have hwords : words ISWHITE bound (List.dropWhile ISWHITE (joined _)) = _ :=
    words_joined hentries (hlength.trans hbound)
  rw [hjoined, List.dropWhile_cons_of_pos (by decide)] at hwords
  rw [hwords, List.map_cons, List.map_append, List.map_map]
  rfl

theorem OVcancel_pairs (hne : host ≠ []) (hhost : ∀ c ∈ host, Plain c) (hpairs : pairs ≠ [])
    (hhead : xrefHeader head = some (host ++ spaced pairs ++ [13, 10])) :
    OVcancel head = some (pairs.map fun pair => (pair.group, pair.number)) := by
  obtain ⟨init, last, rfl⟩ : ∃ init last, pairs = init ++ [last] :=
    ⟨pairs.dropLast, pairs.getLast hpairs, (List.dropLast_append_getLast hpairs).symm⟩
  have htext : (host ++ spaced (init ++ [last]) ++ [13, 10]).takeWhile (· ≠ 0) =
      host ++ spaced (init ++ [last]) ++ [13, 10] := by
    refine List.takeWhile_eq_self_iff.mpr fun c hc => decide_eq_true ?_
    rcases mem_append.mp hc with h | h
    · rcases mem_append.mp h with h | h
      · exact (hhost c h).2.2
      · exact spaced_ne rfl (by decide) (by decide) (by decide) c h
    · rintro rfl
      exact absurd h (by decide)
  have hhostNone : cancelGroup host = none := by
    have hcolon : host.dropWhile (· ≠ 58) = [] :=
      List.dropWhile_eq_nil_iff.mpr fun c hc => decide_eq_true (hhost c hc).2.1
    unfold cancelGroup
    rw [hcolon]
  have hinit : (init.map Pair.entry).filterMap cancelGroup = init.map fun pair =>
      (pair.group, pair.number) := by
    rw [List.filterMap_map]
    refine Eq.trans (List.filterMap_congr fun pair _ => ?_)
      (congrFun (List.filterMap_eq_map' (f := fun pair : Pair => (pair.group, pair.number))) init)
    have hentry : cancelGroup (pair.entry ++ []) = some (pair.group, pair.number) :=
      cancelGroup_entry nofun
    rwa [append_nil] at hentry
  have hlast : cancelGroup (last.entry ++ [13, 10]) = some (last.group, last.number) := by
    refine cancelGroup_entry fun c hc => ?_
    cases hc
    rfl
  unfold OVcancel
  rw [hhead]
  change some ((words ISWHITE _ _).filterMap cancelGroup) = _
  rw [htext, xref_words init last hne hhost (Nat.lt_succ_self _), List.filterMap_cons, hhostNone,
    List.filterMap_append, hinit, List.filterMap_cons, hlast, List.map_append]
  rfl

end Cancelling

section Agreement

variable {data host head : Octets}

/-- A line whose last Xref field lists some pairs gives a record for each pair whose group is
selected, unless a group keeps the article out. The buffers hold what is written, but for a field
that fills the first of them. An article with the same Xref is cancelled in all of its groups,
selected or not. -/
theorem OVadd_OVcancel (cfg : Config) (add : Record → Bool) (buffers : Buffers)
    (hlast : LastXref data host pairs) (hpairs : pairs ≠ []) (hne : host ≠ [])
    (hhead : xrefHeader head = some (host ++ spaced pairs ++ [13, 10])) :
    ((OVadd cfg add buffers data).records =
      if pairs.any (fun pair => cfg.bars pair.group) then []
      else handed add ((pairs.filter fun pair => cfg.selects pair.group).map (recordOf data))) ∧
    ((spaced pairs).tail.length ≠ BIG_BUFFER →
      (spaced pairs).tail.length < (OVadd cfg add buffers data).buffers.allocated) ∧
    (∀ record ∈ (OVadd cfg add buffers data).records,
      record.overdata.length ≤ (OVadd cfg add buffers data).buffers.overdatalen) ∧
    OVcancel head = some (pairs.map fun pair => (pair.group, pair.number)) := by
  have hrecords : (OVadd cfg add buffers data).records = _ := OVadd_records hlast
  obtain ⟨_, _, _, hhost, _⟩ := id hlast
  refine ⟨hrecords, fun hlength => ?_, fun record hrecord => ?_,
    OVcancel_pairs hne hhost hpairs hhead⟩
  · rw [OVadd_buffers hlast]
    exact forXref_room hlength
  · rw [hrecords] at hrecord
    rw [OVadd_buffers hlast]
    split at hrecord
    · cases hrecord
    · obtain ⟨pair, _, rfl⟩ := List.mem_map.mp (handed_mem hrecord)
      exact recordOf_room _ data pair

def twoPairs : List Pair :=
  [⟨[97, 46, 120], 1, by decide +kernel, by decide +kernel, by decide +kernel, by decide +kernel⟩,
    ⟨[98, 46, 121], 2, by decide +kernel, by decide +kernel, by decide +kernel, by decide +kernel⟩]

def twoLine : Octets := [49, 9] ++ (xrefName ++ ([104] ++ spaced twoPairs))

def twoHead : Octets := xrefName ++ ([104] ++ spaced twoPairs) ++ [13, 10]

theorem twoLine_lastXref : LastXref twoLine [104] twoPairs :=
  ⟨[49], [], by decide +kernel, by decide +kernel, nofun, fun h => absurd (List.eq_nil_of_infix_nil
    h) (cons_ne_nil _ _)⟩

theorem OVadd_OVcancel_twoLine :
    (OVadd ⟨none, true, false⟩ (fun _ => true) Buffers.start twoLine).records = twoPairs.map
    (recordOf twoLine) ∧
      OVcancel twoHead = some [([97, 46, 120], 1), ([98, 46, 121], 2)] := by
  have h :=
    OVadd_OVcancel ⟨none, true, false⟩ (fun _ => true) Buffers.start twoLine_lastXref
    (by decide) (by decide)
    (by decide : xrefHeader twoHead = some ([104] ++ spaced twoPairs ++ [13, 10]))
  exact ⟨h.1, h.2.2.2⟩

/-- With group based expiry a group that is not selected keeps the article out of a group that is,
and without it the group is cancelled in spite of having no record. -/
theorem not_OVadd_OVcancel_twoLine :
    let cfg : Config := ⟨some ⟨[97, 46, 42], by decide⟩, true, false⟩
    LastXref twoLine [104] twoPairs ∧ cfg.selects [97, 46, 120] = true ∧
      uwildmatPoison (cstring [98, 46, 121]) ⟨[97, 46, 42], by decide⟩ = .fail ∧
      (OVadd cfg (fun _ => true) Buffers.start twoLine).records = [] ∧
      (OVadd { cfg with groupbaseexpiry := false } (fun _ =>
        true) Buffers.start twoLine).records.map Record.artnum = [1] ∧
      OVcancel twoHead = some [([97, 46, 120], 1), ([98, 46, 121], 2)] :=
  ⟨twoLine_lastXref, by decide, by decide, by decide, by decide, by decide⟩

end Agreement

end Inn.Storage.Ov
