import Inn.Foundation.Runs
import Inn.Innd.Numbering

/-!
# A slave assigns the numbers of its master

The entries of the Xref are the groups that the master has numbered, each once.
A slave reads every entry on its own, so that it agrees with the master exactly
if it can represent the numbers.
-/

namespace Inn.Innd.Numbering

open Foundation.Words
open List (append_nil mem_append mem_singleton)
open Function (update update_of_ne)

theorem formatDigits_snd (width value : Nat) :
    (formatDigits width value).2 = value / 10 ^ width := by
  induction width generalizing value with
  | zero => simp [formatDigits]
  | succ width ih => rw [formatDigits, ih, Nat.div_div_eq_div_mul, pow_succ']

theorem FormatLong_snd (value : UInt64) (width : Nat) :
    (FormatLong value width).2 = decide (value.toNat < 10 ^ width) := by
  rw [FormatLong, formatDigits_snd]
  refine decide_eq_decide.mpr ?_
  rw [Nat.div_eq_zero_iff]
  have := Nat.pow_pos (n := width) (show 0 < 10 by decide)
  omega

def reread (number : UInt64) : UInt64 := articleNumber (atol (decimal number.toNat))

theorem atol_append (n : Nat) {rest : Octets} (hrest : ∀ c ∈ rest.head?, isdigit c = false) :
    atol (decimal n ++ rest) = min (2 ^ 63 - 1) (n : Int) := by
  rw [atol_digits (decimal_isdigit n) (decimal_ne_nil n) hrest, readDigits_decimal]

theorem atol_decimal (n : Nat) : atol (decimal n) = min (2 ^ 63 - 1) (n : Int) := by
  have hread : atol (decimal n ++ []) = min (2 ^ 63 - 1) (n : Int) := atol_append n nofun
  rwa [append_nil] at hread

theorem reread_toNat (number : UInt64) : (reread number).toNat = min (2 ^ 63 - 1) number.toNat := by
  have hlt := number.toNat_lt
  rw [reread, atol_decimal, articleNumber]
  have hvalue :
      (min (2 ^ 63 - 1) (number.toNat : Int) % 2 ^ 64).toNat = min (2 ^ 63 - 1) number.toNat := by
    omega
  rw [hvalue, UInt64.toNat_ofNat']
  exact Nat.mod_eq_of_lt (by omega)

theorem reread_eq_iff (number : UInt64) : reread number = number ↔ number.toNat < 2 ^ 63 := by
  rw [← UInt64.toNat_inj, reread_toNat]
  omega

section Master

variable {Path : Host} {active : Active} {groups done : List Name} {st : Assigning} {name : Name}

/-- The next number has room in the active file. -/
def Fits (ngp : NEWSGROUP) : Prop := (ngp.Last + 1).toNat < 10 ^ ngp.Lastwidth

def Written (Path : Host) (pairs : List (Name × UInt64)) (Xref : Octets) : Prop :=
  ∃ entries, Xref = Path.1 ++ joined entries ∧ (∀ entry ∈ entries, Entry isblank entry) ∧
    entries.map Prod.snd = pairs.map fun pair => xrefEntry pair.1 pair.2

structure Numbered (Path : Host) (active : Active) (groups done : List Name)
    (st : Assigning) : Prop where
  untouched : ∀ g, g ∉ done → st.active g = clearPostCounts active groups g
  bumped : ∀ g ∈ done, ∀ ngp, active g = some ngp → ∃ ngp', st.active g = some ngp' ∧
    ngp'.Last = ngp.Last + 1 ∧ ngp'.Lastwidth = ngp.Lastwidth ∧ 0 < ngp'.PostCount
  absent : ∀ g, active g = none → st.active g = none
  pairs : ∀ g n, (g, n) ∈ st.pairs ↔ g ∈ done ∧ ∃ ngp, active g = some ngp ∧ Fits ngp ∧
    n = ngp.Last + 1
  once : (st.pairs.map Prod.fst).Nodup
  written : Written Path st.pairs st.Xref

theorem separator_blanks (linelen : Nat) (name : Name) :
    separator linelen name ≠ [] ∧ ∀ c ∈ separator linelen name, isblank c := by
  rw [separator]
  split <;> decide +kernel

theorem isdigit_not_isblank {c : UInt8} (hdigit : isdigit c) : !isblank c := by
  rw [isdigit, Bool.and_eq_true, decide_eq_true_eq, decide_eq_true_eq] at hdigit
  rw [isblank, Bool.not_eq_true', Bool.or_eq_false_iff, Bool.or_eq_false_iff, Bool.or_eq_false_iff]
  simp only [decide_eq_false_iff_not]
  refine ⟨⟨⟨?_, ?_⟩, ?_⟩, ?_⟩ <;> rintro rfl <;> exact absurd hdigit.1 (by decide)

theorem xrefEntry_word (name : Name) (number : UInt64) :
    xrefEntry name number ≠ [] ∧ ∀ c ∈ xrefEntry name number, !isblank c := by
  rw [xrefEntry]
  refine ⟨by simp [octets], fun c hc => ?_⟩
  rcases mem_append.mp hc with hc | hc
  · rcases mem_append.mp hc with hc | hc
    · exact (name.2 c hc).2
    · obtain rfl : c = 58 := by simpa [octets] using hc
      decide
  · exact isdigit_not_isblank (decimal_isdigit _ c hc)

theorem Written.append {pairs : List (Name × UInt64)} {Xref : Octets}
    (hwritten : Written Path pairs Xref) (linelen : Nat) (name : Name) (number : UInt64) :
    Written Path (pairs ++ [(name, number)])
      (Xref ++ (separator linelen name ++ xrefEntry name number)) := by
  obtain ⟨entries, rfl, hentries, hwords⟩ := hwritten
  obtain ⟨hseparated, hblanks⟩ := separator_blanks linelen name
  obtain ⟨hnonempty, hword⟩ := xrefEntry_word name number
  refine ⟨entries ++ [(separator linelen name, xrefEntry name number)], ?_,
    fun entry hentry => ?_, ?_⟩
  · simp [joined]
  · rcases mem_append.mp hentry with hold | hnew
    · exact hentries entry hold
    · obtain rfl := mem_singleton.mp hnew
      exact ⟨hseparated, hblanks, hnonempty, hword⟩
  · rw [List.map_append, List.map_append, hwords]
    rfl

theorem numbered_start (Path : Host) (active : Active) (groups : List Name) :
    Numbered Path active groups []
      { active := clearPostCounts active groups, Xref := Path.1, linelen := 0, pairs := [] } where
  untouched _ _ := rfl
  bumped _ hmem := absurd hmem List.not_mem_nil
  absent g hnone := by
    show clearPostCounts active groups g = none
    rw [clearPostCounts, hnone]
    split <;> rfl
  pairs _ _ := ⟨fun h => absurd h List.not_mem_nil, fun h => absurd h.1 List.not_mem_nil⟩
  once := List.nodup_nil
  written := ⟨[], (append_nil _).symm, nofun, rfl⟩

theorem Numbered.skip (hnumbered : Numbered Path active groups done st)
    (hskip : active name = none ∨ name ∈ done) :
    Numbered Path active groups (done ++ [name]) st where
  untouched g hg := hnumbered.untouched g fun hmem => hg (List.mem_append_left _ hmem)
  bumped g hg ngp hngp := by
    rcases mem_append.mp hg with hold | hnew
    · exact hnumbered.bumped g hold ngp hngp
    · obtain rfl := mem_singleton.mp hnew
      rcases hskip with hnone | hdone
      · exact absurd (hnone.symm.trans hngp) nofun
      · exact hnumbered.bumped g hdone ngp hngp
  absent := hnumbered.absent
  pairs g n := by
    rw [hnumbered.pairs, mem_append, mem_singleton]
    refine and_congr_left fun ⟨ngp, hngp, _⟩ => ⟨Or.inl, fun hmem => ?_⟩
    rcases hmem with hold | rfl
    · exact hold
    · rcases hskip with hnone | hdone
      · exact absurd (hnone.symm.trans hngp) nofun
      · exact hdone
  once := hnumbered.once
  written := hnumbered.written

theorem Numbered.bump {ngp ngp' : NEWSGROUP} {st' : Assigning}
    (hnumbered : Numbered Path active groups done st)
    (hnew : name ∉ done) (hgroup : active name = some ngp)
    (hactive : st'.active = update st.active name (some ngp'))
    (hlast : ngp'.Last = ngp.Last + 1 ∧ ngp'.Lastwidth = ngp.Lastwidth ∧ 0 < ngp'.PostCount)
    (hpairs : ∀ g n, (g, n) ∈ st'.pairs ↔ (g, n) ∈ st.pairs ∨ g = name ∧ Fits ngp ∧
      n = ngp.Last + 1)
    (honce : (st'.pairs.map Prod.fst).Nodup) (hwritten : Written Path st'.pairs st'.Xref) :
    Numbered Path active groups (done ++ [name]) st' where
  untouched g hg := by
    rw [mem_append, mem_singleton, not_or] at hg
    rw [hactive, update_of_ne hg.2, hnumbered.untouched g hg.1]
  bumped g hg ngp₀ hngp := by
    by_cases hsame : g = name
    · subst hsame
      cases hgroup.symm.trans hngp
      exact ⟨ngp', by rw [hactive, Function.update_self], hlast⟩
    · rw [hactive, update_of_ne hsame]
      refine hnumbered.bumped g ?_ ngp₀ hngp
      exact (mem_append.mp hg).resolve_right fun h => hsame (mem_singleton.mp h)
  absent g hnone := by
    have hother : g ≠ name := by
      rintro rfl
      exact absurd (hnone.symm.trans hgroup) nofun
    rw [hactive, update_of_ne hother, hnumbered.absent g hnone]
  pairs g n := by
    rw [hpairs, hnumbered.pairs, mem_append, mem_singleton]
    constructor
    · rintro (⟨hold, hpair⟩ | ⟨rfl, hfits, rfl⟩)
      · exact ⟨Or.inl hold, hpair⟩
      · exact ⟨Or.inr rfl, ngp, hgroup, hfits, rfl⟩
    · rintro ⟨hold | rfl, ngp₀, hngp, hfits, rfl⟩
      · exact Or.inl ⟨hold, ngp₀, hngp, hfits, rfl⟩
      · cases hgroup.symm.trans hngp
        exact Or.inr ⟨rfl, hfits, rfl⟩
  once := honce
  written := hwritten

theorem numbered_assignNumber (hmem : name ∈ groups)
    (hnumbered : Numbered Path active groups done st) :
    Numbered Path active groups (done ++ [name]) (assignNumber st name) := by
  rw [assignNumber]
  cases hfind : active name with
  | none =>
    rw [hnumbered.absent name hfind]
    exact hnumbered.skip (Or.inl hfind)
  | some ngp =>
    by_cases hdone : name ∈ done
    · obtain ⟨ngp', hngp', -, -, hposted⟩ := hnumbered.bumped name hdone ngp hfind
      rw [hngp']
      dsimp only
      rw [if_pos hposted]
      exact hnumbered.skip (Or.inr hdone)
    · have hclear : st.active name = some { ngp with PostCount := 0 } := by
        rw [hnumbered.untouched name hdone, clearPostCounts, if_pos hmem, hfind]
        rfl
      rw [hclear]
      dsimp only
      rw [if_neg (Nat.lt_irrefl 0), FormatLong_snd]
      have hfresh : name ∉ st.pairs.map Prod.fst := by
        intro h
        obtain ⟨⟨g, n⟩, hpair, rfl⟩ := List.mem_map.mp h
        exact hdone ((hnumbered.pairs _ _).mp hpair).1
      split
      next hwide =>
        refine hnumbered.bump hdone hfind rfl ⟨rfl, rfl, Nat.succ_pos _⟩ (fun g n =>
          ?_) hnumbered.once
          hnumbered.written
        refine ⟨Or.inl, fun h => h.resolve_right fun ⟨_, hfits, _⟩ => ?_⟩
        exact (of_decide_eq_false hwide) hfits
      next hwide =>
        have hfits : (ngp.Last + 1).toNat < 10 ^ ngp.Lastwidth :=
          of_decide_eq_true ((Bool.not_eq_false _).mp hwide)
        refine hnumbered.bump hdone hfind rfl ⟨rfl, rfl, Nat.succ_pos _⟩ (fun g n => ?_) ?_
          (hnumbered.written.append _ _ _)
        · dsimp only
          rw [mem_append, mem_singleton, Prod.mk.injEq]
          exact or_congr_right ⟨fun h => ⟨h.1, hfits, h.2⟩, fun h => ⟨h.1, h.2.2⟩⟩
        · dsimp only
          rw [List.map_append, List.nodup_append]
          refine ⟨hnumbered.once, by simp, fun g hg g' hg' => ?_⟩
          obtain rfl := mem_singleton.mp hg'
          rintro rfl
          exact hfresh hg

theorem numbered_foldl (rest : List Name) (hrest : rest ⊆ groups)
    (hnumbered : Numbered Path active groups done st) :
    Numbered Path active groups (done ++ rest) (rest.foldl assignNumber st) := by
  induction rest generalizing done st with
  | nil => rwa [append_nil]
  | cons name rest ih =>
    have hstep := numbered_assignNumber (hrest List.mem_cons_self) hnumbered
    have := ih (fun g hg => hrest (List.mem_cons_of_mem _ hg)) hstep
    rwa [List.append_assoc] at this

theorem numbered_master (Path : Host) (active : Active) (groups : List Name) :
    ∃ st, Numbered Path active groups groups st ∧
      master Path active groups = { st with Xref := st.Xref ++ [CR, LF] } :=
  ⟨_, numbered_foldl groups (fun _ => id) (numbered_start Path active groups), rfl⟩

end Master

section Slave

variable {active : Active}

def slavePair (active : Active) (pair : Name × UInt64) : Option (Name × UInt64) :=
  match active pair.1 with
  | none => none
  | some ngp =>
    if ngp.Last < reread pair.2 ∧ ¬(reread pair.2).toNat < 10 ^ ngp.Lastwidth then none
    else some (pair.1, reread pair.2)

theorem NGfind_name (active : Active) (name : Name) :
    NGfind active name.1 = (active name).map fun ngp => (name, ngp) := by
  rw [NGfind, dif_pos name.2]

theorem xrefEntry_split (name : Name) (number : UInt64) :
    ((xrefEntry name number).all fun c => c ≠ 58) = false ∧
      ((xrefEntry name number).takeWhile fun c => c ≠ 58) = name.1 ∧
      ((xrefEntry name number).dropWhile fun c => c ≠ 58).drop 1 = decimal number.toNat := by
  have hname : ∀ c ∈ name.1, (decide (c ≠ 58)) = true := fun c hc => decide_eq_true (name.2 c hc).1
  have hcolon : xrefEntry name number = name.1 ++ 58 :: decimal number.toNat := by
    rw [xrefEntry, List.append_assoc]
    rfl
  rw [hcolon, List.takeWhile_append_of_pos hname, List.dropWhile_append_of_pos hname]
  refine ⟨?_, ?_, ?_⟩
  · simp
  · rw [List.takeWhile_cons_of_neg (by decide), append_nil]
  · rw [List.dropWhile_cons_of_neg (by decide)]
    rfl

theorem assignEntry_xrefEntry (active : Active) (pairs : List (Name × UInt64))
    (pair : Name × UInt64) :
    (assignEntry (active, pairs) (xrefEntry pair.1 pair.2)).2 = pairs ++
    (slavePair active pair).toList ∧
      ∀ g, g ≠ pair.1 → (assignEntry (active, pairs) (xrefEntry pair.1 pair.2)).1 g = active g := by
  obtain ⟨hcolon, htake, hdrop⟩ := xrefEntry_split pair.1 pair.2
  rw [assignEntry, hcolon, if_neg (by decide), htake, NGfind_name, slavePair]
  dsimp only
  cases hgroup : active pair.1 with
  | none => exact ⟨(append_nil pairs).symm, fun _ _ => rfl⟩
  | some ngp =>
    simp only [Option.map_some, hdrop, FormatLong_snd]
    rw [← reread]
    by_cases hnew : ngp.Last < reread pair.2
    · rw [if_pos hnew]
      by_cases hfits : (reread pair.2).toNat < 10 ^ ngp.Lastwidth
      · rw [if_neg (by simpa using hfits), if_neg fun h => h.2 hfits]
        exact ⟨rfl, fun g hg => update_of_ne hg _ _⟩
      · rw [if_pos (by simpa using hfits), if_pos ⟨hnew, hfits⟩]
        exact ⟨(append_nil pairs).symm, fun g hg => update_of_ne hg _ _⟩
    · rw [if_neg hnew, if_neg fun h => hnew h.1]
      exact ⟨rfl, fun g hg => update_of_ne hg _ _⟩

theorem assignEntries (entries : List (Name × UInt64)) (hnodup : (entries.map Prod.fst).Nodup)
    (active : Active) (pairs : List (Name × UInt64)) :
    ((entries.map fun pair => xrefEntry pair.1 pair.2).foldl assignEntry (active, pairs)).2 =
      pairs ++ entries.filterMap (slavePair active) := by
  induction entries generalizing active pairs with
  | nil => exact (append_nil pairs).symm
  | cons pair entries ih =>
    rw [List.map_cons, List.nodup_cons] at hnodup
    obtain ⟨hpairs, hothers⟩ := assignEntry_xrefEntry active pairs pair
    rw [List.map_cons, List.foldl_cons]
    revert hpairs hothers
    generalize assignEntry (active, pairs) (xrefEntry pair.1 pair.2) = st
    obtain ⟨active', pairs'⟩ := st
    intro hpairs hothers
    dsimp only at hpairs hothers
    rw [ih hnodup.2, hpairs, List.append_assoc]
    have hsame : entries.filterMap (slavePair active') = entries.filterMap (slavePair active) := by
      refine List.filterMap_congr fun other hother => ?_
      rw [slavePair, slavePair, hothers]
      rintro hname
      exact hnodup.1 (List.mem_map.mpr ⟨other, hother, hname⟩)
    rw [hsame]
    cases hpair : slavePair active pair <;> simp [hpair]

def NotLower (active active' : Active) : Prop :=
  ∀ g, (active g = none → active' g = none) ∧
    ∀ ngp, active g = some ngp → ∃ ngp', active' g = some ngp' ∧ ngp.Last ≤ ngp'.Last

theorem NotLower.refl (active : Active) : NotLower active active :=
  fun _ => ⟨id, fun ngp hngp => ⟨ngp, hngp, UInt64.le_refl _⟩⟩

theorem NotLower.trans {active active' active'' : Active} (h : NotLower active active')
    (h' : NotLower active' active'') : NotLower active active'' := by
  intro g
  refine ⟨fun hnone => (h' g).1 ((h g).1 hnone), fun ngp hngp => ?_⟩
  obtain ⟨ngp', hngp', hle⟩ := (h g).2 ngp hngp
  obtain ⟨ngp'', hngp'', hle'⟩ := (h' g).2 ngp' hngp'
  exact ⟨ngp'', hngp'', UInt64.le_trans hle hle'⟩

theorem notLower_update {name : Name} {ngp ngp' : NEWSGROUP} (hgroup : active name = some ngp)
    (hle : ngp.Last ≤ ngp'.Last) : NotLower active (update active name (some ngp')) := by
  intro g
  by_cases hsame : g = name
  · subst hsame
    rw [Function.update_self]
    refine ⟨fun hnone => absurd (hnone.symm.trans hgroup) nofun, fun ngp₀ hngp => ?_⟩
    cases hgroup.symm.trans hngp
    exact ⟨ngp', rfl, hle⟩
  · rw [update_of_ne hsame]
    exact NotLower.refl active g

theorem notLower_assignEntry (st : Active × List (Name × UInt64)) (entry : Octets) :
    NotLower st.1 (assignEntry st entry).1 := by
  rw [assignEntry]
  split
  · exact .refl _
  split
  · exact .refl _
  next name ngp hfind =>
    have hgroup : st.1 name = some ngp := by
      rw [NGfind] at hfind
      split at hfind
      · obtain ⟨ngp', hngp', heq⟩ := Option.map_eq_some_iff.mp hfind
        cases heq
        exact hngp'
      · cases hfind
    dsimp only
    split
    next hnew =>
      split
      · exact notLower_update hgroup (UInt64.le_of_lt hnew)
      · exact notLower_update hgroup (UInt64.le_of_lt hnew)
    · exact notLower_update hgroup (UInt64.le_refl _)

theorem notLower_slave (active : Active) (Xref : Octets) :
    NotLower active (slave active Xref).1 := by
  rw [slave, ARTxrefslave]
  generalize words isblank _ _ = entries
  have hfold : ∀ st :
      Active × List (Name × UInt64), NotLower st.1 (entries.foldl assignEntry st).1 := by
    induction entries with
    | nil => exact fun st => .refl _
    | cons entry entries ih => exact fun st => (notLower_assignEntry st entry).trans (ih _)
  exact hfold (active, [])

end Slave

theorem receivedXref_eq {text : Octets} (hnonempty : text ≠ [])
    (hfirst : ∀ c ∈ text.head?, !isblank c)
    (hlast : ∀ c ∈ text.getLast?, !isblank c) : receivedXref (text ++ [CR, LF]) = text := by
  have hwhite : ∀ c : UInt8, (!isblank c) = true → ISWHITE c = false := by
    intro c hc
    rw [isblank, Bool.not_eq_true', Bool.or_eq_false_iff, Bool.or_eq_false_iff] at hc
    exact hc.1.1
  -- Neither the blanks before the value nor those after it reach into the text.
  have hkept : ∀ c rest, (!isblank c) = true → (c :: rest).dropWhile ISWHITE = c :: rest := by
    intro c rest hc
    rw [List.dropWhile_cons_of_neg (by simp [hwhite c hc])]
  have hstart : text.dropWhile ISWHITE = text := by
    obtain ⟨c, rest, rfl⟩ := List.exists_cons_of_ne_nil hnonempty
    exact hkept c rest (hfirst c rfl)
  have hend : text.reverse.dropWhile ISWHITE = text.reverse := by
    obtain ⟨c, rest, hreverse⟩ :=
      List.exists_cons_of_ne_nil (mt List.reverse_eq_nil_iff.mp hnonempty)
    have hc : (!isblank c) = true := by
      refine hlast c ?_
      rw [← List.head?_reverse, hreverse]
      rfl
    rw [hreverse]
    exact hkept c rest hc
  have hheader : octets "Xref: " ++ (text ++ [CR, LF]) = [88, 114, 101, 102, 58] ++ 32 :: text ++
      [CR, LF] := by
    simp [octets]
  have hvalue : headerValue true HDR_XREF 4 ([88, 114, 101, 102, 58] ++ 32 :: text ++ [CR, LF]) =
      (6, text.length) := by
    have hlength :
        ([88, 114, 101, 102, 58] ++ 32 :: text ++ [CR, LF]).length - 2 = text.length + 6 := by
      simp
    have hrest : ((([88, 114, 101, 102, 58] ++ 32 :: text ++ [CR, LF]).take (text.length + 6)).drop
        (4 + 1)).dropWhile ISWHITE = text := by
      rw [List.take_left' (by simp), List.drop_left' (by rfl),
        List.dropWhile_cons_of_pos (by decide), hstart]
    rw [headerValue, if_pos (Or.inr (Or.inr ⟨rfl, rfl⟩))]
    dsimp only
    rw [hlength, hrest, hend, List.length_reverse, Nat.add_sub_cancel_left]
  rw [receivedXref, hheader, hvalue]
  show (([88, 114, 101, 102, 58, 32] ++ text ++ [CR, LF]).drop 6).take text.length = text
  rw [List.append_assoc, List.drop_left' (by rfl), List.take_left' rfl]

end Inn.Innd.Numbering
