import Inn.Innd.Slave

/-!
# When a slave agrees with its master

The slave assigns what the master assigns exactly if the numbers are in the range
of `atol` and fit into the slave's active file where they are new to it. The high
marks never get lower on either side, unless the master's counter starts again.
-/

namespace Inn.Innd.Numbering

open Foundation.Words Foundation.Runs

def SameGroups (active active' : Active) : Prop := ∀ g, active g = none ↔ active' g = none

/-- Master and slave give the article the same new numbers. -/
structure Agrees (Path : Host) (active active' : Active) (groups : List Name) : Prop where
  same : (slave active' (master Path active groups).Xref).2 = (master Path active groups).pairs
  once : ((master Path active groups).pairs.map Prod.fst).Nodup
  masterMarks : NotLower active (master Path active groups).active
  slaveMarks : NotLower active' (slave active' (master Path active groups).Xref).1
  fresh : ∀ g n, (g, n) ∈ (master Path active groups).pairs →
    ∀ ngp, active g = some ngp → ngp.Last < n

/-- No number is too big for its type or for its field. -/
def Representable (active active' : Active) (groups : List Name) : Prop :=
  ∀ g ∈ groups, ∀ ngp, active g = some ngp → ngp.Last.toNat < 2 ^ 64 - 1 ∧
    (Fits ngp → (ngp.Last + 1).toNat < 2 ^ 63 ∧ ∀ ngp', active' g = some ngp' →
      ngp'.Last < ngp.Last + 1 → (ngp.Last + 1).toNat < 10 ^ ngp'.Lastwidth)

section Step

variable {Path : Host} {active active' : Active} {groups : List Name}

theorem getLast?_joined {host : Octets} (hhost : ∀ c ∈ host, !isblank c)
    {entries : List (Octets × Octets)} (hentries : ∀ entry ∈ entries, Entry isblank entry) :
    ∀ c ∈ (host ++ joined entries).getLast?, !isblank c := by
  intro c hc
  rcases List.eq_nil_or_concat entries with rfl | ⟨front, entry, rfl⟩
  · refine hhost c (List.mem_of_getLast? ?_)
    simpa [joined] using hc
  · have hentry := hentries entry (by simp)
    refine hentry.word c (List.mem_of_getLast? ?_)
    rw [List.concat_eq_append, joined, List.flatMap_append, List.flatMap_singleton,
      ← List.append_assoc,
      ← List.append_assoc, List.getLast?_append_of_ne_nil _ hentry.nonempty] at hc
    exact hc

theorem slave_master (Path : Host) (active active' : Active) (groups : List Name) :
    (slave active' (master Path active groups).Xref).2 =
      (master Path active groups).pairs.filterMap (slavePair active') := by
  obtain ⟨st, hnumbered, hmaster⟩ := numbered_master Path active groups
  obtain ⟨entries, hXref, hentries, hwords⟩ := hnumbered.written
  rw [hmaster, slave]
  obtain ⟨c, host, hhost⟩ := List.exists_cons_of_ne_nil Path.2.1
  have hreceived : receivedXref (st.Xref ++ [CR, LF]) = Path.1 ++ joined entries := by
    rw [hXref]
    refine receivedXref_eq (by simp [Path.2.1]) (fun c' hc' => ?_)
      (getLast?_joined Path.2.2 hentries)
    rw [hhost, List.cons_append, List.head?_cons] at hc'
    cases hc'
    exact Path.2.2 _ (by rw [hhost]; exact List.mem_cons_self)
  rw [hreceived, ARTxrefslave]
  have hlength := length_le_joined fun entry hentry => (hentries entry hentry).nonempty
  rw [(takeWhile_joined Path.2.2 hentries).2,
    words_joined hentries (hlength.trans (by simp)), hwords,
    assignEntries _ hnumbered.once, List.nil_append]

theorem filterMap_eq_self {α : Type*} {f : α → Option α} {l : List α} :
    l.filterMap f = l ↔ ∀ a ∈ l, f a = some a := by
  constructor
  · intro heq
    induction l with
    | nil => nofun
    | cons a l ih =>
      have hlength := List.length_filterMap_le f l
      rw [List.filterMap_cons] at heq
      split at heq
      · have := congrArg List.length heq
        simp only [List.length_cons] at this
        omega
      next b hb =>
        obtain ⟨rfl, htail⟩ := List.cons.inj heq
        intro a ha
        rcases List.mem_cons.mp ha with rfl | ha
        · exact hb
        · exact ih htail a ha
  · intro hall
    induction l with
    | nil => rfl
    | cons a l ih =>
      rw [List.filterMap_cons_some (hall a List.mem_cons_self),
        ih fun b hb => hall b (List.mem_cons_of_mem _ hb)]

theorem next_toNat {n : UInt64} (hlast : n.toNat < 2 ^ 64 - 1) : (n + 1).toNat = n.toNat + 1 := by
  rw [UInt64.toNat_add]
  exact Nat.mod_eq_of_lt (by have h1 : (1 : UInt64).toNat = 1 := rfl; omega)

theorem not_lower_of_full {n : UInt64} (hle : n ≤ n + 1) : n.toNat < 2 ^ 64 - 1 := by
  have hlt := n.toNat_lt
  rw [UInt64.le_iff_toNat_le, UInt64.toNat_add] at hle
  have h1 : (1 : UInt64).toNat = 1 := rfl
  omega

theorem master_active (Path : Host) (active : Active) (groups : List Name) (g : Name) :
    (∀ ngp, active g = some ngp → ∃ ngp', (master Path active groups).active g = some ngp' ∧
      ngp'.Lastwidth = ngp.Lastwidth ∧ ngp'.Last = if g ∈ groups then ngp.Last + 1 else ngp.Last) ∧
    (active g = none → (master Path active groups).active g = none) := by
  obtain ⟨st, hnumbered, hmaster⟩ := numbered_master Path active groups
  rw [hmaster]
  refine ⟨fun ngp hngp => ?_, hnumbered.absent g⟩
  by_cases hmem : g ∈ groups
  · obtain ⟨ngp', hngp', hlast, hwidth, -⟩ := hnumbered.bumped g hmem ngp hngp
    exact ⟨ngp', hngp', hwidth, by rw [if_pos hmem, hlast]⟩
  · refine ⟨ngp, ?_, rfl, by rw [if_neg hmem]⟩
    rw [hnumbered.untouched g hmem, clearPostCounts, if_neg hmem, hngp]

theorem mem_pairs_iff {g : Name} {n : UInt64} : (g, n) ∈ (master Path active groups).pairs ↔
    g ∈ groups ∧ ∃ ngp, active g = some ngp ∧ Fits ngp ∧ n = ngp.Last + 1 := by
  obtain ⟨st, hnumbered, hmaster⟩ := numbered_master Path active groups
  rw [hmaster]
  exact hnumbered.pairs g n

theorem master_once (Path : Host) (active : Active) (groups : List Name) :
    ((master Path active groups).pairs.map Prod.fst).Nodup := by
  obtain ⟨st, hnumbered, hmaster⟩ := numbered_master Path active groups
  rw [hmaster]
  exact hnumbered.once

theorem slavePair_eq_iff {g : Name} {n : UInt64} {ngp' : NEWSGROUP}
    (hgroup : active' g = some ngp') :
    slavePair active' (g, n) = some (g, n) ↔
      n.toNat < 2 ^ 63 ∧ (ngp'.Last < n → n.toNat < 10 ^ ngp'.Lastwidth) := by
  rw [slavePair]
  dsimp only
  rw [hgroup]
  dsimp only
  constructor
  · intro hpair
    split at hpair
    · cases hpair
    next hkept =>
      have heq : reread n = n := congrArg Prod.snd (Option.some.inj hpair)
      rw [heq] at hkept
      exact ⟨(reread_eq_iff n).mp heq, fun hnew => by_contra fun hwide => hkept ⟨hnew, hwide⟩⟩
  · rintro ⟨hrange, hfits⟩
    rw [(reread_eq_iff n).mpr hrange, if_neg fun h => h.2 (hfits h.1)]

theorem notLower_master
    (hroom : ∀ g ∈ groups, ∀ ngp, active g = some ngp → ngp.Last.toNat < 2 ^ 64 - 1) :
    NotLower active (master Path active groups).active := by
  intro g
  obtain ⟨hsome, hnone⟩ := master_active Path active groups g
  refine ⟨hnone, fun ngp hngp => ?_⟩
  obtain ⟨ngp', hngp', -, hlast⟩ := hsome ngp hngp
  refine ⟨ngp', hngp', ?_⟩
  rw [hlast, UInt64.le_iff_toNat_le]
  split
  next hmem =>
    rw [next_toNat (hroom g hmem ngp hngp)]
    omega
  · exact Nat.le_refl _

theorem agrees_iff (hsame : SameGroups active active') :
    Agrees Path active active' groups ↔ Representable active active' groups := by
  have hpresent : ∀ g ngp, active g = some ngp → ∃ ngp', active' g = some ngp' := fun g ngp hngp =>
    Option.ne_none_iff_exists'.mp fun hnone => by
      rw [(hsame g).mpr hnone] at hngp
      cases hngp
  constructor
  · intro hagrees g hmem ngp hngp
    have hroom : ngp.Last.toNat < 2 ^ 64 - 1 := by
      obtain ⟨ngp', hngp', -, hlast⟩ := (master_active Path active groups g).1 ngp hngp
      obtain ⟨ngp'', hngp'', hle⟩ := (hagrees.masterMarks g).2 ngp hngp
      cases hngp'.symm.trans hngp''
      rw [hlast, if_pos hmem] at hle
      exact not_lower_of_full hle
    refine ⟨hroom, fun hfits => ?_⟩
    obtain ⟨ngp', hngp'⟩ := hpresent g ngp hngp
    have hpair := filterMap_eq_self.mp ((slave_master ..).symm.trans hagrees.same) (g, ngp.Last + 1)
      (mem_pairs_iff.mpr ⟨hmem, ngp, hngp, hfits, rfl⟩)
    obtain ⟨hrange, hnew⟩ := (slavePair_eq_iff hngp').mp hpair
    refine ⟨hrange, fun ngp'' hngp'' => ?_⟩
    cases hngp'.symm.trans hngp''
    exact hnew
  · intro hrepresentable
    refine ⟨?_, master_once .., notLower_master fun g hmem ngp hngp =>
      (hrepresentable g hmem ngp hngp).1,
      notLower_slave _ _, ?_⟩
    · rw [slave_master]
      refine filterMap_eq_self.mpr fun pair hpair => ?_
      obtain ⟨hmem, ngp, hngp, hfits, hn⟩ := mem_pairs_iff.mp hpair
      obtain ⟨ngp', hngp'⟩ := hpresent _ ngp hngp
      obtain ⟨hrange, hnew⟩ := (hrepresentable _ hmem ngp hngp).2 hfits
      refine (slavePair_eq_iff hngp').mpr ?_
      rw [hn]
      exact ⟨hrange, hnew ngp' hngp'⟩
    · rintro g n hpair ngp hngp
      obtain ⟨hmem, ngp', hngp', -, rfl⟩ := mem_pairs_iff.mp hpair
      cases hngp.symm.trans hngp'
      rw [UInt64.lt_iff_toNat_lt, next_toNat (hrepresentable g hmem ngp hngp).1]
      exact Nat.lt_succ_self _

end Step

section Runs

structure Servers where
  master : Active
  slave : Active
  log : List (List (Name × UInt64) × List (Name × UInt64))

def publish (Path : Host) (s : Servers) (groups : List Name) : Except Unit Servers :=
  .ok
    { master := (master Path s.master groups).active
      slave := (slave s.slave (master Path s.master groups).Xref).1
      log := s.log ++
        [((master Path s.master groups).pairs,
          (slave s.slave (master Path s.master groups).Xref).2)] }

/-- What holds behind any articles: the servers agree on new numbers. -/
structure Published (start s : Servers) : Prop where
  groups : SameGroups s.master s.slave
  masterMarks : NotLower start.master s.master
  slaveMarks : NotLower start.slave s.slave
  agreed : ∀ assigned ∈ s.log, assigned.2 = assigned.1 ∧ (assigned.1.map Prod.fst).Nodup
  new : ∀ assigned ∈ s.log, ∀ g n, (g, n) ∈ assigned.1 →
    (∀ ngp, start.master g = some ngp → ngp.Last < n) ∧ ∃ ngp, s.master g = some ngp ∧ n ≤ ngp.Last
  growing : s.log.Pairwise fun before after => ∀ g n n', (g, n) ∈ before.1 →
    (g, n') ∈ after.1 → n < n'

variable {Path : Host} {start s : Servers}

theorem published_start (hgroups : SameGroups start.master start.slave) (hlog : start.log = []) :
    Published start start where
  groups := hgroups
  masterMarks := .refl _
  slaveMarks := .refl _
  agreed := by rw [hlog]; nofun
  new := by rw [hlog]; nofun
  growing := by rw [hlog]; exact .nil

theorem NotLower.same {active active' marks marks' : Active} (hsame : SameGroups active active')
    (h : NotLower active marks) (h' : NotLower active' marks') : SameGroups marks marks' := by
  have hboth : ∀ {before after : Active}, NotLower before after → ∀ g, before g = none ↔
      after g = none := by
    intro before after hmarks g
    refine ⟨(hmarks g).1, fun hnone => ?_⟩
    cases hgroup : before g with
    | none => rfl
    | some ngp =>
      obtain ⟨ngp', hngp', -⟩ := (hmarks g).2 ngp hgroup
      exact absurd (hnone.symm.trans hngp') nofun
  exact fun g => ((hboth h g).symm.trans (hsame g)).trans (hboth h' g)

theorem published_publish {groups : List Name} (hpublished : Published start s)
    (hrepresentable : Representable s.master s.slave groups) :
    ∃ s', publish Path s groups = .ok s' ∧ Published start s' := by
  have hagrees := (@agrees_iff Path _ _ groups hpublished.groups).mpr hrepresentable
  have hafter : ∀ g n, (g, n) ∈ (master Path s.master groups).pairs →
      ∃ ngp, s.master g = some ngp ∧ ngp.Last < n ∧
        ∃ ngp', (master Path s.master groups).active g = some ngp' ∧ n = ngp'.Last := by
    intro g n hpair
    obtain ⟨hmem, ngp, hngp, -, rfl⟩ := mem_pairs_iff.mp hpair
    obtain ⟨ngp', hngp', -, hlast⟩ := (master_active Path s.master groups g).1 ngp hngp
    rw [if_pos hmem] at hlast
    exact ⟨ngp, hngp, hagrees.fresh _ _ hpair ngp hngp, ngp', hngp', hlast.symm⟩
  refine ⟨_, rfl, ?_⟩
  constructor
  case groups => exact NotLower.same hpublished.groups hagrees.masterMarks hagrees.slaveMarks
  case masterMarks => exact hpublished.masterMarks.trans hagrees.masterMarks
  case slaveMarks => exact hpublished.slaveMarks.trans hagrees.slaveMarks
  case agreed =>
    intro assigned hassigned
    rcases List.mem_append.mp hassigned with hold | hnew
    · exact hpublished.agreed assigned hold
    · obtain rfl := List.mem_singleton.mp hnew
      exact ⟨hagrees.same, hagrees.once⟩
  case new =>
    intro assigned hassigned g n hpair
    rcases List.mem_append.mp hassigned with hold | hnew
    · obtain ⟨habove, ngp, hngp, hle⟩ := hpublished.new assigned hold g n hpair
      obtain ⟨ngp', hngp', hle'⟩ := (hagrees.masterMarks g).2 ngp hngp
      exact ⟨habove, ngp', hngp', UInt64.le_trans hle hle'⟩
    · obtain rfl := List.mem_singleton.mp hnew
      obtain ⟨ngp, hngp, hless, ngp', hngp', rfl⟩ := hafter g n hpair
      refine ⟨fun ngp₀ hngp₀ => ?_, ngp', hngp', UInt64.le_refl _⟩
      obtain ⟨ngp₁, hngp₁, hle⟩ := (hpublished.masterMarks g).2 ngp₀ hngp₀
      cases hngp.symm.trans hngp₁
      exact UInt64.lt_of_le_of_lt hle hless
  case growing =>
    refine List.pairwise_append.mpr ⟨hpublished.growing, List.pairwise_singleton _ _, ?_⟩
    intro before hbefore after hafter' g n n' hpair hpair'
    obtain rfl := List.mem_singleton.mp hafter'
    obtain ⟨-, ngp, hngp, hle⟩ := hpublished.new before hbefore g n hpair
    obtain ⟨ngp', hngp', hless, -⟩ := hafter g n' hpair'
    cases hngp.symm.trans hngp'
    exact UInt64.lt_of_le_of_lt hle hless

/-- On one article a slave agrees with its master exactly if the numbers are representable. In a run
of articles that are, both servers have assigned the same pairs to every article, no group twice,
their high marks have not got lower, and a number is larger than all before it in its group. -/
theorem slave_agrees_with_master (Path : Host) :
    (∀ active active' groups, SameGroups active active' →
      (Agrees Path active active' groups ↔ Representable active active' groups)) ∧
    ∀ (start : Servers) (articles : List (List Name)), SameGroups start.master start.slave →
      start.log = [] →
      Meets (publish Path) (fun s groups => Representable s.master s.slave groups) articles start →
      ∃ s, run (publish Path) articles start = .ok s ∧ Published start s :=
  ⟨fun _ _ _ hsame => agrees_iff hsame, fun start articles hgroups hlog hmeets =>
    @run_invariant _ _ _ (publish Path) (fun s groups => Representable s.master s.slave groups)
      (Published start) (fun _ _ hpublished hrepresentable =>
        published_publish hpublished hrepresentable)
      articles _ hmeets (published_start hgroups hlog)⟩

/-- A number beyond the range of `long`: the slave reads another one. -/
theorem not_agrees_beyond_long :
    let name : Name := ⟨octets "misc.test", by decide +kernel⟩
    let active : Active := fun g =>
      if g = name then
        some { Last := 9223372036854775807, Filenum := 0, Lastwidth := 19,
               LastString := octets "9223372036854775807", PostCount := 0 }
      else none
    ¬Agrees ⟨octets "news", by decide +kernel⟩ active active [name] := by
  intro name active hagrees
  exact absurd hagrees.same (by decide +kernel)

end Runs

end Inn.Innd.Numbering
