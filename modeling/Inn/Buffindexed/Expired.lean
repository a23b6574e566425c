import Inn.Buffindexed.Expire
import Inn.Buffindexed.Retrieved

/-!
# What an expiry leaves

The articles that are to be kept are in new blocks before an old one is freed. The old blocks are
all found again as long as each of the data blocks holds an article that the search delivers.
-/

namespace Inn.Buffindexed

open Foundation.Sorting
open Function (update)

variable {v v' : Volume} {allocated allocated' : List OV} {ge newge : GROUPENTRY}
    {blocks datas : List OV} {entries : List OVINDEX}
  {added kept : List Overview} {first : Nat × Nat} {keeps : Overview → Bool}

theorem freegroupblock_eq {s : State} {freed : List OV} (hinv : Inv ⟨s, allocated⟩)
    (honce : freed.Nodup) (hused : ∀ ov ∈ freed, ov ∈ allocated) :
    ∃ s' allocated', freegroupblock freed s = .ok s' ∧ Inv ⟨s', allocated'⟩ ∧
      ∀ ov, ov ∈ allocated' ↔ ov ∈ allocated ∧ ov ∉ freed := by
  induction freed generalizing s allocated with
  | nil => exact ⟨s, allocated, rfl, hinv, fun ov => ⟨fun h => ⟨h, List.not_mem_nil⟩, And.left⟩⟩
  | cons first rest ih =>
    obtain ⟨hfirst, hrest⟩ := List.nodup_cons.mp honce
    obtain ⟨s₁, hfree, hinv₁⟩ := hinv.ovblockfree (hused first List.mem_cons_self)
    have hused₁ (ov : OV) (hov : ov ∈ rest) : ov ∈ allocated.erase first :=
      hinv.once.mem_erase_iff.mpr ⟨fun heq => hfirst (heq ▸ hov),
        hused ov (List.mem_cons_of_mem _ hov)⟩
    obtain ⟨s', allocated', hfrees, hinv', hmem⟩ := ih hinv₁ hrest hused₁
    refine ⟨s', allocated', by rw [freegroupblock, hfree]; exact hfrees, hinv', fun ov => ?_⟩
    rw [hmem, hinv.once.mem_erase_iff, List.mem_cons, not_or]
    constructor
    · exact fun ⟨⟨hne, hov⟩, hnot⟩ => ⟨hov, hne, hnot⟩
    · exact fun ⟨hov, hne, hnot⟩ => ⟨⟨hne, hov⟩, hnot⟩

section Content

variable (h : Content v allocated ge first blocks datas entries added)

include h

theorem Content.freed_mine (sorter : Sorter INDEXcompare) (low high : Nat) :
    (blocks.reverse ++ groupdatablocks v.state low high
      (removeDuplicates (sorter.qsort entries))).Nodup ∧
      ∀ ov ∈ blocks.reverse ++ groupdatablocks v.state low high
        (removeDuplicates (sorter.qsort entries)), ov ∈ blocks ++ datas := by
  obtain ⟨hnodup, hmem⟩ :=
    groupdatablocks_spec v.state low high (removeDuplicates (sorter.qsort entries))
  have hdatas (ov : OV) (hov : ov ∈ groupdatablocks v.state low high
      (removeDuplicates (sorter.qsort entries))) : ov ∈ datas := by
    obtain ⟨ie, hie, hwithin, _, rfl⟩ := (hmem ov).mp hov
    obtain ⟨o, _, hstored⟩ := h.mem_entries sorter hie hwithin.1
    exact hstored.place
  constructor
  · refine List.nodup_append'.mpr ⟨List.nodup_reverse.mpr (List.nodup_append'.mp h.once).1, hnodup,
      fun ov hov hov' => ?_⟩
    exact h.not_data (List.mem_reverse.mp hov) (hdatas ov hov')
  · intro ov hov
    exact List.mem_append.mpr ((List.mem_append.mp hov).imp List.mem_reverse.mp (hdatas ov))

theorem Content.count_eq (hfew : added.length < 2 ^ 31) :
    ge.count = added.length := by
  rw [h.count, Int.bmod_eq_of_le_mul_two] <;> omega

theorem Content.turns_eq (hfew : added.length < 2 ^ 31) :
    ge.turns = added.length + 2 := by
  unfold GROUPENTRY.turns
  rw [h.count_eq hfew]
  rfl

end Content

theorem Content.cleanReserved (h : Content v allocated newge first blocks datas entries kept)
    (hfew : kept.length < 2 ^ 31) (sorter : Sorter INDEXcompare) (ge : GROUPENTRY) :
    ∃ freed s' allocated', cleanReserved sorter v ge newge =
      .ok ⟨false, [], freed, { v with state := s' }, ge⟩ ∧ Inv ⟨s', allocated'⟩ ∧
      (∀ ov ∈ freed, ov ∈ blocks ++ datas) ∧ ∀ ov, ov ∈ allocated' ↔
        ov ∈ allocated ∧ ov ∉ freed := by
  have hmapped : ∃ mapped, ovgroupmmap sorter newge.turns v newge newge.low newge.high true =
      .ok (some mapped) ∧
      (mapped.Giblist ++ mapped.groupdatablock).Nodup ∧
        ∀ ov ∈ mapped.Giblist ++ mapped.groupdatablock, ov ∈ blocks ++ datas := by
    by_cases hsome : kept = []
    · subst hsome
      exact ⟨_, h.ovgroupmmap_nil sorter _ _, List.nodup_nil, nofun⟩
    by_cases hrange : newge.low ≤ newge.high
    · refine ⟨_, h.ovgroupmmap_eq sorter hsome hfew hrange ?_ true,
        h.freed_mine sorter newge.low newge.high⟩
      rw [h.turns_eq hfew]
      exact Nat.lt_succ_self _
    · exact ⟨_, if_pos (Nat.not_le.mp hrange), List.nodup_nil, nofun⟩
  obtain ⟨mapped, hmap, honce, hmine⟩ := hmapped
  obtain ⟨s', allocated', hfree, hinv', hmem⟩ :=
    freegroupblock_eq h.inv honce fun ov hov => h.mine ov (hmine ov hov)
  refine ⟨_, s', allocated', ?_, hinv', hmine, hmem⟩
  unfold Buffindexed.cleanReserved
  rw [hmap]
  dsimp only
  rw [hfree]

section Loop

variable {v₀ : Volume} {allocated₀ gdbs old : List OV} {low high : Nat} {gib : List OVINDEX}

def survivors (disk : Disk) (keeps : Overview → Bool) (entries : List OVINDEX) : List Overview :=
  (entries.map fun ie => (ie.found disk).overview).filter fun o => o.data ≠ [] ∧ keeps o

theorem found_len {disk : Disk} {ie : OVINDEX} :
    (ie.found disk).len = 0 ↔ (ie.found disk).overview.data = [] := by
  unfold Found.overview
  rw [List.map_eq_nil_iff, List.range_eq_nil]

theorem addAgain_spec (keeps : Overview → Bool) (hold : ∀ ov ∈ old, ov ∈ allocated₀)
    (hplace : ∀ ie ∈ todo low high gib, ie.index ≠ NULLINDEX ∧ ie.datablk ∈ gdbs ∧ ie.datablk ∈ old)
    {turns : Nat} (hturns : (todo low high gib).length ≤ turns) (before : Found)
    (h : Content v allocated newge first blocks datas entries kept)
    (hgrown : Grown v₀ v allocated₀ allocated [] (blocks ++ datas))
    (hnone : entries = [] → blocks = []) :
    ∃ done kept' v' newge' allocated' blocks' datas' entries',
      addAgain keeps turns ⟨low, high, gib, true, gdbs⟩ before v newge kept =
        .ok (done, kept', v', newge') ∧
      Content v' allocated' newge' first blocks' datas' entries' kept' ∧
        Grown v₀ v' allocated₀ allocated' [] (blocks' ++ datas') ∧
      (entries' = [] → blocks' = []) ∧ kept'.length ≤ kept.length + (todo low high gib).length ∧
      (done = true → kept' = kept ++ survivors v₀.disk keeps (todo low high gib)) := by
  induction htodo :
    todo low high gib generalizing gib turns before v allocated newge blocks datas entries kept with
  | nil =>
    refine ⟨true, kept, v, newge, allocated, blocks, datas, entries, ?_, h, hgrown, hnone,
      Nat.le_refl _, fun _ => (List.append_nil _).symm⟩
    cases turns with
    | zero => rfl
    | succ turns =>
      have hend : (OVSEARCH.ovsearch v.disk ⟨low, high, gib, true, gdbs⟩ before).1 = false :=
        ovsearch_end htodo before
      rw [addAgain]
      split
      next => rfl
      next heq =>
        rw [heq] at hend
        cases hend
  | cons ie rest ih =>
    rw [htodo] at hplace hturns
    obtain ⟨turns, rfl⟩ : ∃ n, turns = n + 1 :=
      ⟨turns - 1, by rw [List.length_cons] at hturns; omega⟩
    obtain ⟨hindex, hblock, hie⟩ := hplace ie List.mem_cons_self
    obtain ⟨gib', hrest, hnext⟩ := ovsearch_next v.disk htodo hindex hblock before
    have hplace' (ie' : OVINDEX) (hie' : ie' ∈ todo low high gib') :
        ie'.index ≠ NULLINDEX ∧ ie'.datablk ∈ gdbs ∧ ie'.datablk ∈ old :=
      hplace ie' (List.mem_cons_of_mem _ (hrest ▸ hie'))
    have hturns' : (todo low high gib').length ≤ turns := by
      rw [hrest]
      exact Nat.le_of_succ_le_succ hturns
    -- the block is an old one, so it is as it was at first
    have hsame : ie.found v.disk = ie.found v₀.disk := by
      unfold OVINDEX.found
      rw [hgrown.frame ie.datablk fun hnew => (hgrown.fresh _ hnew).elim (nomatch ·) fun hfree =>
        hfree (hold _ hie)]
    have hsurvivors : survivors v₀.disk keeps (ie :: rest) =
        if (ie.found v.disk).overview.data ≠ [] ∧ keeps (ie.found v.disk).overview = true then
          (ie.found v.disk).overview :: survivors v₀.disk keeps rest
        else survivors v₀.disk keeps rest := by
      unfold survivors
      rw [List.map_cons, List.filter_cons, hsame]
      simp only [decide_eq_true_eq]
    rw [addAgain, hnext]
    dsimp only
    split
    next hskip =>
      have hnot :
          ¬((ie.found v.disk).overview.data ≠ [] ∧ keeps (ie.found v.disk).overview = true) := by
        rintro ⟨hdata, hkeeps⟩
        rcases hskip with hlen | hdrop
        · exact hdata (found_len.mp hlen)
        · rw [hkeeps] at hdrop
          cases hdrop
      obtain ⟨done, kept', v', newge', allocated', blocks', datas', entries', hrun, h', hgrown',
          hnone', hlength, hdone⟩ :=
        ih hplace' hturns' _ h hgrown hnone hrest
      refine ⟨done, kept', v', newge', allocated', blocks', datas', entries', hrun, h', hgrown',
        hnone', ?_, fun heq => ?_⟩
      · rw [List.length_cons]
        omega
      · rw [hsurvivors, if_neg hnot]
        exact hdone heq
    next hskip =>
      obtain ⟨hlen, hkeeps⟩ := not_or.mp hskip
      obtain ⟨done, v₁, newge₁, allocated₁, blocks₁, datas₁, entries₁, hadd, h₁, hgrown₁, hnone₁⟩ :=
        h.ovaddrec (ie.found v.disk).overview
      have hgrown₁ := hgrown.trans hgrown₁
      rw [hadd]
      cases done with
      | false =>
        exact ⟨false, kept, v₁, newge₁, allocated₁, blocks₁, datas₁, entries₁, rfl, h₁, hgrown₁,
          hnone₁ hnone, Nat.le_add_right _ _, nofun⟩
      | true =>
        obtain ⟨done, kept', v', newge', allocated', blocks', datas', entries', hrun, h', hgrown',
            hnone', hlength, hdone⟩ :=
          ih hplace' hturns' (ie.found v.disk) h₁ hgrown₁ (hnone₁ hnone) hrest
        refine ⟨done, kept', v', newge', allocated', blocks', datas', entries', hrun, h', hgrown',
          hnone', ?_, fun heq => ?_⟩
        · rw [if_pos rfl, List.length_append, List.length_singleton] at hlength
          rw [List.length_cons]
          omega
        · rw [hsurvivors, if_pos ⟨fun hnil => hlen (found_len.mpr hnil),
            (Bool.not_eq_false _).mp hkeeps⟩, hdone heq, if_pos rfl,
            List.append_assoc]
          rfl

end Loop

section Groups

variable {sorter : Sorter INDEXcompare} {o : Overview}

/-- Each data block holds an article that the search delivers. -/
structure Recoverable (ge : GROUPENTRY) (entries : List OVINDEX) : Prop where
  current : ge.curdata.index = NULLINDEX ∨ ∃ ie ∈ entries, ie.datablk = ge.curdata
  delivered : ∀ ie ∈ entries, ∃ found ∈ entries, found.datablk = ie.datablk ∧
    ∀ other ∈ entries, other.artnum = found.artnum → other.datablk = ie.datablk

/-- The articles, the count and the marks behind an expiry. -/
structure Leaves (ge : GROUPENTRY) (added : List Overview) (keeps : Overview → Bool)
    (expiry : Expiry) : Prop where
  articles : ∀ o, o ∈ expiry.kept ↔ o ∈ added ∧ keeps o = true
  increasing : expiry.kept.Pairwise fun a b => a.artnum < b.artnum
  count : expiry.ge.count = expiry.kept.length
  high : expiry.ge.high = ge.high
  low : ∀ o ∈ expiry.kept, expiry.ge.low ≤ o.artnum
  least : expiry.kept ≠ [] → ∃ o ∈ expiry.kept, o.artnum = expiry.ge.low
  none : expiry.kept = [] → expiry.ge.low = expiry.ge.high + 1

/-- Each old block is freed once, and no new one is. -/
structure Frees (own own' : List OV) (expiry : Expiry) : Prop where
  once : expiry.freed.Nodup
  old : ∀ ov, ov ∈ expiry.freed ↔ ov ∈ own
  new : ∀ ov ∈ own', ov ∉ expiry.freed

theorem Content.pos_of_mem (hordinary : Ordinary added) (ho : o ∈ added)
    (h : Content v allocated ge first blocks datas entries added) :
    0 < ge.low ∧ ge.low ≤ o.artnum ∧ o.artnum ≤ ge.high := by
  have hwithin := numbers_within first hordinary.positive ho
  rwa [← h.range] at hwithin

theorem numbers_new {high : Nat} (hpositive : ∀ o ∈ added, 0 < o.artnum)
    (hhigh : ∀ o ∈ added, o.artnum ≤ high) :
    (numbers (0, high) added).2 = high ∧ (added = [] → (numbers (0, high) added).1 = 0) ∧
      (added ≠ [] → ∃ o ∈ added, o.artnum = (numbers (0, high) added).1) := by
  induction added using List.reverseRecOn with
  | nil => exact ⟨rfl, fun _ => rfl, fun h => absurd rfl h⟩
  | append_singleton added last ih =>
    have hlast : last ∈ added ++ [last] := List.mem_append_right _ (List.mem_singleton.mpr rfl)
    obtain ⟨hhigh', hnil, hcons⟩ :=
      ih (fun o ho => hpositive o (List.mem_append_left _ ho)) fun o ho =>
      hhigh o (List.mem_append_left _ ho)
    have hpos := hpositive last hlast
    have hle := hhigh last hlast
    rw [numbers_append]
    refine ⟨?_, fun h => absurd h (List.append_ne_nil_of_right_ne_nil _ (List.cons_ne_nil _ _)),
      fun _ => ?_⟩
    · rw [hhigh']
      unfold raised
      rw [if_neg (by omega)]
    · unfold lowered
      split
      next => exact ⟨last, hlast, rfl⟩
      next hlow =>
        have hsome : added ≠ [] := fun h => hlow (.inl (Nat.le_of_eq (hnil h)))
        obtain ⟨o, ho, heq⟩ := hcons hsome
        exact ⟨o, List.mem_append_left _ ho, heq⟩

section Content2

variable (h : Content v allocated ge first blocks datas entries added)

include h

theorem Content.mapped_all (hordinary : Ordinary added)
    (hrecoverable : Recoverable ge entries) {ov : OV} (hov : ov ∈ blocks ++ datas) :
    ov ∈ blocks.reverse ++ groupdatablocks v.state ge.low ge.high
      (removeDuplicates (sorter.qsort entries)) := by
  rcases List.mem_append.mp hov with hblock | hdata
  · exact List.mem_append_left _ (List.mem_reverse.mpr hblock)
  -- an entry that refers to the block is left, or one of the same number that refers to it, too
  refine List.mem_append_right _ (((groupdatablocks_spec _ _ _ _).2 _).mpr ?_)
  have hrefers : ∃ ie ∈ entries, ie.datablk = ov := by
    rcases h.refers ov hdata with rfl | hrefers
    · exact hrecoverable.current.resolve_left (h.inv.index_ne (h.mine _ hov))
    · exact hrefers
  obtain ⟨ie, hie, rfl⟩ := hrefers
  obtain ⟨found, hfound, _, hall⟩ := hrecoverable.delivered ie hie
  obtain ⟨left, hleft, hnum⟩ :=
    exists_mem_removeDuplicates ((sorter.sorted entries).perm.mem_iff.mpr hfound)
  have hpos : left.artnum ≠ 0 := by
    obtain ⟨o, ho, hstored⟩ := h.exists_added hfound
    have hpositive := hordinary.positive o ho
    rw [hnum, hstored.entry]
    exact Nat.ne_of_gt hpositive
  have hblock :=
    hall left ((sorter.sorted entries).perm.mem_iff.mp
      (mem_of_mem_removeDuplicates hleft hpos)) hnum
  obtain ⟨o, ho, hstored⟩ := h.mem_entries sorter hleft hpos
  have hnumber : left.artnum = o.artnum := by rw [hstored.entry]
  obtain ⟨_, hlow, hhigh⟩ := h.pos_of_mem hordinary ho
  refine ⟨left, hleft, ⟨hpos, by omega, by omega⟩, ?_, hblock⟩
  rw [hblock]
  exact h.inv.getovbuff_ne (h.mine _ hov)

theorem Content.collect_eq (hfew : added.length < 2 ^ 31) :
    collect v ge ge.turns ge.baseindex = .ok (some (blocks.reverse, entries)) := by
  rw [h.turns_eq hfew]
  rcases h.index with ⟨hnull, rfl, rfl⟩ | ⟨hchain, _⟩
  · rw [collect, if_pos hnull]
    rfl
  · have hlength := hchain.length_le
    rw [h.stored.length_eq] at hlength
    exact hchain.collect_eq (fun b hb =>
      h.inv.getovbuff_ne (h.mine _ (List.mem_append_left _ hb))) (by omega)

theorem Content.ovopensearch_eq (hordinary : Ordinary added)
    (sorter : Sorter INDEXcompare) (hsome : added ≠ []) :
    ovopensearch sorter ge.turns v ge ge.low ge.high true =
      .ok (some (⟨ge.low, ge.high, removeDuplicates (sorter.qsort entries), true,
        groupdatablocks v.state ge.low ge.high (removeDuplicates (sorter.qsort entries))⟩,
        ⟨removeDuplicates (sorter.qsort entries), blocks.reverse,
          groupdatablocks v.state ge.low ge.high (removeDuplicates (sorter.qsort entries))⟩)) := by
  have hrange : ge.low ≤ ge.high := by
    obtain ⟨o, ho⟩ := List.exists_mem_of_ne_nil _ hsome
    obtain ⟨_, hlow, hhigh⟩ := h.pos_of_mem hordinary ho
    exact hlow.trans hhigh
  have hturns : added.length + 1 < ge.turns := by
    rw [h.turns_eq hordinary.few]
    exact Nat.lt_succ_self _
  unfold ovopensearch
  rw [if_neg (Nat.lt_irrefl _), if_neg (Nat.lt_irrefl _)]
  dsimp only
  rw [h.ovgroupmmap_eq sorter hsome hordinary.few hrange hturns]
  dsimp only
  rw [if_pos rfl]

end Content2

theorem Content.lower (h : Content v allocated ge first blocks datas entries []) (low : Nat) :
    Content v allocated { ge with low := low } (low, ge.high) blocks datas entries [] :=
  { h with
    range := rfl
    stored := h.stored.imp fun _ _ hie => hie.congr rfl (fun _ => id) hie.below }

theorem Ordinary.sub (h : Ordinary added) (hsub : ∀ o ∈ kept, o ∈ added)
    (hlength : kept.length ≤ added.length) : Ordinary kept where
  positive o ho := h.positive o (hsub o ho)
  comparable o ho o' ho' := h.comparable o (hsub o ho) o' (hsub o' ho')
  same o ho o' ho' := h.same o (hsub o ho) o' (hsub o' ho')
  few := hlength.trans_lt h.few

theorem Content.lowWater {high : Nat}
    (h : Content v allocated newge (0, high) blocks datas entries kept) (hordinary : Ordinary kept)
    (hhigh : ∀ o ∈ kept, o.artnum ≤ high) :
    (∃ first, Content v allocated (lowWater newge) first blocks datas entries kept) ∧
      (lowWater newge).count = kept.length ∧
      (lowWater newge).high = high ∧ (∀ o ∈ kept, (lowWater newge).low ≤ o.artnum) ∧
      (kept ≠ [] → ∃ o ∈ kept, o.artnum = (lowWater newge).low) ∧
        (kept = [] → (lowWater newge).low = (lowWater newge).high + 1) := by
  obtain ⟨hhigh', hnil, hcons⟩ := numbers_new hordinary.positive hhigh
  have hcount := h.count_eq hordinary.few
  rw [← h.range] at hhigh' hnil hcons
  dsimp only at hhigh' hnil hcons
  by_cases hnone : kept = []
  · subst hnone
    have hlow : Buffindexed.lowWater newge = { newge with low := newge.high + 1 } := by
      unfold Buffindexed.lowWater
      rw [if_pos (hnil rfl)]
      exact if_pos hcount
    rw [hlow]
    exact ⟨⟨_, h.lower _⟩, hcount, hhigh', nofun, fun hne => absurd rfl hne, fun _ => rfl⟩
  · have hpos : newge.low ≠ 0 := by
      obtain ⟨o, ho, heq⟩ := hcons hnone
      have := hordinary.positive o ho
      omega
    have hsome : newge.count ≠ 0 := by
      have := List.length_pos_of_ne_nil hnone
      omega
    have hlow : Buffindexed.lowWater newge = newge := by
      unfold Buffindexed.lowWater
      rw [if_neg hpos]
      exact if_neg hsome
    rw [hlow]
    exact ⟨⟨_, h⟩, hcount, hhigh', fun o ho => (h.pos_of_mem hordinary ho).2.1, hcons,
      fun heq => absurd heq hnone⟩

theorem mem_survivors (keeps : Overview → Bool) {disk : Disk} {datas : List OV} {low high : Nat}
    {gib : List OVINDEX} (hcovers : Covers disk ge datas added low high gib)
    (hwithin : ∀ o ∈ added, low ≤ o.artnum ∧ o.artnum ≤ high) (o : Overview) :
    o ∈ survivors disk keeps gib ↔ o ∈ added ∧ o.data ≠ [] ∧ keeps o = true := by
  unfold survivors
  rw [List.mem_filter, decide_eq_true_eq, List.mem_map]
  refine and_congr_left fun _ => ⟨?_, fun ho => ?_⟩
  · rintro ⟨ie, hie, rfl⟩
    obtain ⟨o, ho, hstored⟩ := hcovers.sound ie hie
    rw [hstored.overview]
    exact ho
  · obtain ⟨ie, hie, hstored⟩ := hcovers.complete o ho (hwithin o ho).1 (hwithin o ho).2
    exact ⟨ie, hie, hstored.overview⟩

theorem survivors_increasing {disk : Disk} {datas : List OV} {low high : Nat} {gib : List OVINDEX}
    (hcovers : Covers disk ge datas added low high gib) :
    (survivors disk keeps gib).Pairwise fun a b => a.artnum < b.artnum :=
  List.Pairwise.filter _ (List.pairwise_map.mpr hcovers.increasing)

end Groups

section Expiring

variable {sorter : Sorter INDEXcompare} {store : Store} {own : Nat → List OV} {g : Nat}

def Store.Recoverable (store : Store) (g : Nat) : Prop :=
  ∃ giblist gib, collect store.volume (store.GROUPentries g) (store.GROUPentries g).turns
    (store.GROUPentries g).baseindex =
    .ok (some (giblist, gib)) ∧ Buffindexed.Recoverable (store.GROUPentries g) gib

def Store.after (store : Store) (g : Nat) (expiry : Expiry) : Store where
  volume := expiry.volume
  GROUPentries := update store.GROUPentries g expiry.ge
  added := if expiry.done then update store.added g expiry.kept else store.added

structure Expires (store : Store) (own : Nat → List OV) (g : Nat) (keeps : Overview → Bool)
    (expiry : Expiry) (own' : List OV) : Prop where
  kept : ∃ allocated', (store.after g expiry).Kept allocated' (update own g own')
  sub : expiry.done = true → (∀ o ∈ expiry.kept, o ∈ store.added g) ∧
    expiry.kept.length ≤ (store.added g).length
  leaves : expiry.done = true → (∀ o ∈ store.added g, keeps o = true → o.data ≠ []) →
    Leaves (store.GROUPentries g) (store.added g) keeps expiry
  frees : expiry.done = true → store.Recoverable g → Frees (own g) own' expiry

theorem expires_empty (sorter : Sorter INDEXcompare) (keeps : Overview → Bool)
    (h : store.Kept allocated own) (hfew : (store.added g).length < 2 ^ 31)
    (hempty : store.added g = []) :
    ∃ expiry own', buffindexedExpiregroup sorter keeps store.volume
      (store.GROUPentries g) = .ok expiry ∧
      Expires store own g keeps expiry own' := by
  obtain ⟨first, blocks, datas, entries, hown, hnone, hcontent⟩ := h.groups g
  have hcollect := hcontent.collect_eq hfew
  have hcount : (store.GROUPentries g).count = 0 := by
    rw [hcontent.count_eq hfew, hempty]
    rfl
  have hentries : entries = [] :=
    List.length_eq_zero_iff.mp (by rw [hcontent.stored.length_eq, hempty]; rfl)
  refine ⟨_, blocks ++ datas, if_pos hcount, ⟨allocated, ?_⟩, fun _ => ?_, fun _ _ => ?_,
    fun _ hrecoverable => ?_⟩
  · have hlower := (hempty ▸ hcontent).lower ((store.GROUPentries g).high + 1)
    refine h.replace hlower hnone
      (h.others (.refl fun ov hov => hcontent.mine ov hov) fun ov hov => hown ▸ hov)
  · exact ⟨nofun, Nat.zero_le _⟩
  · rw [hempty]
    exact ⟨fun o => ⟨nofun, fun ho => nomatch ho.1⟩, .nil, hcount, rfl, nofun,
      fun hne => absurd rfl hne, fun _ => rfl⟩
  · obtain ⟨giblist, gib, hcollect', hall⟩ := hrecoverable
    cases hcollect.symm.trans hcollect'
    subst hentries
    have hdatas : datas = [] := by
      refine List.eq_nil_iff_forall_not_mem.mpr fun d hd => ?_
      rcases hcontent.refers d hd with rfl | ⟨_, hie, _⟩
      · rcases hall.current with hnull | ⟨_, hie, _⟩
        · exact hcontent.inv.index_ne (hcontent.mine _ (List.mem_append_right _ hd)) hnull
        · cases hie
      · cases hie
    have hnothing : own g = [] := by rw [hown, hnone rfl, hdatas]; rfl
    refine ⟨List.nodup_nil, fun ov => ?_, fun _ _ => List.not_mem_nil⟩
    rw [hnothing]

theorem Content.expiregroup_eq (h : Content v allocated ge first blocks datas entries added)
    (hordinary : Ordinary added)
    (sorter : Sorter INDEXcompare) (keeps : Overview → Bool) (hsome : added ≠ []) :
    ∃ done kept v' newge allocated' blocks' datas' entries',
      buffindexedExpiregroup sorter keeps v ge =
        takePlace sorter ge ⟨removeDuplicates (sorter.qsort entries), blocks.reverse,
          groupdatablocks v.state ge.low ge.high (removeDuplicates (sorter.qsort entries))⟩ (done,
            kept, v', newge) ∧
      Content v' allocated' newge (0, ge.high) blocks' datas' entries' kept ∧
      Grown v v' allocated allocated' [] (blocks' ++ datas') ∧ (entries' = [] → blocks' = []) ∧
        kept.length ≤ added.length ∧
      (done = true → kept = survivors v.disk keeps
        (todo ge.low ge.high (removeDuplicates (sorter.qsort entries)))) := by
  have hcount : ge.count ≠ 0 := by
    have := List.length_pos_of_ne_nil hsome
    rw [h.count_eq hordinary.few]
    omega
  have hplace (ie : OVINDEX) (hie : ie ∈ todo ge.low ge.high
      (removeDuplicates (sorter.qsort entries))) : ie.index ≠ NULLINDEX ∧
      ie.datablk ∈ groupdatablocks v.state ge.low ge.high
        (removeDuplicates (sorter.qsort entries)) ∧ ie.datablk ∈ datas := by
    obtain ⟨hindex, hblock⟩ := h.mapped sorter hie
    obtain ⟨o, _, hstored⟩ := (h.covers hordinary sorter ge.low ge.high).sound ie hie
    exact ⟨hindex, hblock, hstored.place⟩
  have hnew : (setinitialge { ge with low := 0 } 0 ge.high).Empty := ⟨rfl, rfl, rfl, rfl, rfl, rfl⟩
  obtain ⟨done, kept, v', newge, allocated', blocks', datas', entries', hrun, h', hgrown, hnone,
      hlength, hdone⟩ :=
    addAgain_spec keeps (fun ov hov => h.mine ov (List.mem_append_right _ hov)) hplace
      (todo_sublist _ _ _).length_le .initial
      (Content.empty h.inv hnew) (.refl nofun) fun _ => rfl
  refine ⟨done, kept, v', newge, allocated', blocks', datas', entries', ?_, h', hgrown,
    hnone, ?_, hdone⟩
  · unfold buffindexedExpiregroup
    rw [if_neg hcount, h.ovopensearch_eq hordinary sorter hsome]
    dsimp only
    rw [hrun]
  · have hsub := (todo_sublist ge.low ge.high (removeDuplicates (sorter.qsort entries))).length_le
    rw [removeDuplicates_length, (sorter.sorted entries).perm.length_eq, h.stored.length_eq] at hsub
    rw [List.length_nil] at hlength
    omega

theorem Store.Kept.undisturbed {new freed allocated'' : List OV} {s' : State}
    (h : store.Kept allocated own)
    (hgrown : Grown store.volume v' allocated allocated' [] new) (hmine : ∀ ov ∈ freed, ov ∈ new)
    (hinv : Inv ⟨s', allocated''⟩) (hmem : ∀ ov, ov ∈ allocated'' ↔ ov ∈ allocated' ∧ ov ∉ freed) :
    Store.Kept { store with volume := ⟨s', v'.disk⟩ } allocated'' own where
  groups g := by
    obtain ⟨first, blocks, datas, entries, hown, hnone, hcontent⟩ := h.groups g
    -- no new block has been one of the group's
    have hold {ov : OV} (hov : ov ∈ blocks ++ datas) : ov ∉ new := fun hnew =>
      (hgrown.fresh ov hnew).elim (nomatch ·) fun hfree => hfree (hcontent.mine ov hov)
    refine ⟨first, blocks, datas, entries, hown, hnone,
      hcontent.frame hinv (fun ov hov => ?_) fun ov hov => hgrown.frame ov (hold hov)⟩
    exact (hmem ov).mpr ⟨(hgrown.given ov).mpr (.inl (hcontent.mine ov hov)),
      fun hfreed => hold hov (hmine ov hfreed)⟩
  apart := h.apart

theorem Store.Kept.renewed {blocks' datas' freed allocated'' : List OV} {entries' : List OVINDEX}
    {s' : State} {newge : GROUPENTRY} (h : store.Kept allocated own)
    (hgrown : Grown store.volume v' allocated allocated' [] (blocks' ++ datas'))
    (hcontent : Content v' allocated' newge first blocks' datas' entries' kept)
    (hnone : entries' = [] → blocks' = [])
    (hfreed : ∀ ov ∈ freed, ov ∈ own g) (hinv : Inv ⟨s', allocated''⟩)
    (hmem : ∀ ov, ov ∈ allocated'' ↔ ov ∈ allocated' ∧ ov ∉ freed) :
    Store.Kept ⟨⟨s', v'.disk⟩, update store.GROUPentries g newge,
      update store.added g kept⟩ allocated''
      (update own g (blocks' ++ datas')) := by
  have hnew {ov : OV} (hov : ov ∈ blocks' ++ datas') : ov ∉ allocated :=
    (hgrown.fresh ov hov).elim (nomatch ·) id
  have hframe : Content ⟨s', v'.disk⟩ allocated'' newge first blocks' datas' entries' kept :=
    hcontent.frame hinv (fun ov hov =>
      (hmem ov).mpr ⟨hcontent.mine ov hov, fun hold => hnew hov (h.mine (hfreed ov hold))⟩)
      fun _ _ => rfl
  refine h.replace hframe hnone fun g' hne ov hov => ?_
  have hother : ov ∉ blocks' ++ datas' := fun hov' => hnew hov' (h.mine hov)
  refine ⟨(hmem ov).mpr ⟨(hgrown.given ov).mpr (.inl (h.mine hov)), fun hold => ?_⟩,
    hgrown.frame ov hother, hother⟩
  exact h.apart g' g hne ov hov (hfreed ov hold)

theorem Store.Kept.expire (h : store.Kept allocated own) (sorter : Sorter INDEXcompare)
    (keeps : Overview → Bool) (hordinary : Ordinary (store.added g)) :
    ∃ expiry own', buffindexedExpiregroup sorter keeps store.volume
      (store.GROUPentries g) = .ok expiry ∧
      Expires store own g keeps expiry own' := by
  by_cases hempty : store.added g = []
  · exact expires_empty sorter keeps h hordinary.few hempty
  obtain ⟨first, blocks, datas, entries, hown, _, hcontent⟩ := h.groups g
  obtain ⟨done, kept, v', newge, allocated', blocks', datas', entries', hrun, hcontent', hgrown,
      hnone', hlength, hdone⟩ :=
    hcontent.expiregroup_eq hordinary sorter keeps hempty
  rw [hrun]
  unfold takePlace
  cases done with
  | false =>
    obtain ⟨freed, s', allocated'', hclean, hinv', hmine, hmem⟩ :=
      hcontent'.cleanReserved (hlength.trans_lt hordinary.few) sorter (store.GROUPentries g)
    dsimp only
    rw [hclean]
    refine ⟨_, own g, rfl, ⟨allocated'', ?_⟩, nofun, nofun, nofun⟩
    unfold Store.after
    rw [Function.update_eq_self, Function.update_eq_self]
    exact h.undisturbed hgrown hmine hinv' hmem
  | true =>
    have hkept := hdone rfl
    obtain ⟨honce, hfreed⟩ :=
      hcontent.freed_mine sorter (store.GROUPentries g).low (store.GROUPentries g).high
    rw [← hown] at hfreed
    obtain ⟨s', allocated'', hfrees, hinv', hmem⟩ :=
      freegroupblock_eq hcontent'.inv honce fun ov hov =>
        (hgrown.given ov).mpr (.inl (h.mine (hfreed ov hov)))
    dsimp only
    rw [hfrees]
    have hcovers :=
      hcontent.covers hordinary sorter (store.GROUPentries g).low (store.GROUPentries g).high
    have hwithin (o : Overview) (ho : o ∈ store.added g) :
        (store.GROUPentries g).low ≤ o.artnum ∧ o.artnum ≤ (store.GROUPentries g).high :=
      (hcontent.pos_of_mem hordinary ho).2
    have hsurvivors := mem_survivors keeps hcovers hwithin
    have hsub (o : Overview) (ho : o ∈ kept) : o ∈ store.added g :=
      ((hsurvivors o).mp (hkept ▸ ho)).1
    obtain ⟨⟨first', hlow⟩, hcount, hhigh, hfrom, hleast, hnothing⟩ :=
      hcontent'.lowWater (hordinary.sub hsub hlength) fun o ho => (hwithin o (hsub o ho)).2
    refine ⟨_, blocks' ++ datas', rfl,
      ⟨allocated'', h.renewed hgrown hlow hnone' hfreed hinv' hmem⟩, fun _ => ⟨hsub, hlength⟩,
      fun _ hfull => ⟨fun o => ?_, hkept ▸ survivors_increasing hcovers, hcount, hhigh, hfrom,
        hleast, hnothing⟩, fun _ hrecoverable => ?_⟩
    · dsimp only
      rw [hkept, hsurvivors]
      exact ⟨fun ho => ⟨ho.1, ho.2.2⟩, fun ho => ⟨ho.1, hfull o ho.1 ho.2, ho.2⟩⟩
    · obtain ⟨giblist, gib, hcollect, hall⟩ := hrecoverable
      obtain ⟨rfl, rfl⟩ :=
        Prod.mk.inj (Option.some.inj
          (Except.ok.inj ((hcontent.collect_eq hordinary.few).symm.trans hcollect)))
      refine ⟨honce, fun ov => ⟨hfreed ov,
        fun hov => hcontent.mapped_all hordinary hall (hown ▸ hov)⟩, fun ov hov hold => ?_⟩
      exact (hgrown.fresh ov hov).elim (nomatch ·) fun hfree => hfree (h.mine (hfreed ov hold))

end Expiring

section Runs

variable {heap : Heap} {store : Store}

def Store.Permits (store : Store) : Event → Prop
  | .add g o => store.Allows (g, o)
  | .expire _ _ => True

theorem Store.Good.act (h : store.Good) (sorter : Sorter INDEXcompare) (event : Event)
    (hpermits : store.Permits event) :
    ∃ store', store.act sorter event = .ok store' ∧ store'.Good := by
  cases event with
  | add g o => exact h.step hpermits
  | expire g keeps =>
    obtain ⟨⟨allocated, own, hkept⟩, hordinary⟩ := h
    obtain ⟨expiry, own', hexpire, hexpires⟩ := hkept.expire sorter keeps (hordinary g)
    obtain ⟨allocated', hkept'⟩ := hexpires.kept
    refine ⟨store.after g expiry,
      by rw [Store.act, hexpire]; rfl, ⟨allocated', _, hkept'⟩, fun g' => ?_⟩
    unfold Store.after
    dsimp only
    split
    next hdone =>
      by_cases hg : g' = g
      · subst hg
        obtain ⟨hsub, hlength⟩ := hexpires.sub hdone
        rw [Function.update_self]
        exact (hordinary g').sub hsub hlength
      · rw [Function.update_of_ne hg]
        exact hordinary g'
    next => exact hordinary g'

structure Store.ExpiresProperly (store : Store) (sorter : Sorter INDEXcompare) (g : Nat)
    (keeps : Overview → Bool) (expiry : Expiry) :
    Prop where
  leaves : Leaves (store.GROUPentries g) (store.added g) keeps expiry
  found : (store.after g expiry).Proper
  frees : ∃ allocated allocated' own own', store.Kept allocated own ∧
    (store.after g expiry).Kept allocated' (update own g own') ∧ Frees (own g) own' expiry

/-- After any run an expiry keeps just what it is to keep and frees the old blocks, if it can find
them. -/
theorem expired_proper (hfresh : Fresh heap store)
    (hfits : ∀ ovbuff ∈ heap.state.ovbufftab, ovbuff.index < 2 ^ 15 ∧ ovbuff.totalblk ≤ 2 ^ 31)
    (sorter : Sorter INDEXcompare) (events : List Event)
    (hmeets : Foundation.Runs.Meets (Store.act sorter) Store.Permits events store) :
    ∃ store', Foundation.Runs.run (Store.act sorter) events store = .ok store' ∧
      ∀ g keeps, (∀ o ∈ store'.added g, keeps o = true → o.data ≠ []) → store'.Recoverable g →
        ∃ expiry, buffindexedExpiregroup sorter keeps store'.volume
          (store'.GROUPentries g) = .ok expiry ∧
          (expiry.done = true → store'.ExpiresProperly sorter g keeps expiry) := by
  have hstep (s : Store) (event : Event) (hgood : s.Good) (hpermits : s.Permits event) :
      ∃ s', s.act sorter event = .ok s' ∧ s'.Good :=
    hgood.act sorter event hpermits
  obtain ⟨store', hrun, hgood⟩ :=
    Foundation.Runs.run_invariant hstep events hmeets (hfresh.good hfits)
  refine ⟨store', hrun, fun g keeps hfull hrecoverable => ?_⟩
  obtain ⟨after, hact, hgood'⟩ := hgood.act sorter (.expire g keeps) trivial
  obtain ⟨⟨allocated, own, hkept⟩, hordinary⟩ := hgood
  obtain ⟨expiry, own', hexpire, hexpires⟩ := hkept.expire sorter keeps (hordinary g)
  obtain ⟨allocated', hkept'⟩ := hexpires.kept
  rw [Store.act, hexpire] at hact
  obtain rfl := Except.ok.inj hact
  exact ⟨expiry, hexpire, fun hdone =>
    ⟨hexpires.leaves hdone hfull, hgood'.proper, allocated, allocated', own, own', hkept, hkept',
      hexpires.frees hdone hrecoverable⟩⟩

def twoArticles : List Event := [.add 0 (shortOverview 7 [65]), .add 0 (shortOverview 5 [66])]

theorem twoArticles_permitted : Foundation.Runs.Meets
    (Store.act (inserting INDEXcompare)) Store.Permits twoArticles (oneStore 4) :=
  ⟨oneStore_allows 4 (by decide), fun _ hstep => ⟨oneStore_allows_next hstep, fun _ _ => trivial⟩⟩

/-- Of two articles in one data block one is kept. -/
theorem two_articles_expired :
    ∃ store' expiry, Foundation.Runs.run (Store.act (inserting INDEXcompare)) twoArticles
      (oneStore 4) = .ok store' ∧
      buffindexedExpiregroup (inserting INDEXcompare) (fun o => o.artnum = 7) store'.volume
        (store'.GROUPentries 0) = .ok expiry ∧
      expiry.done = true ∧ store'.ExpiresProperly (inserting INDEXcompare) 0 (fun o => o.artnum =
        7) expiry := by
  obtain ⟨store', hrun, hall⟩ := expired_proper (oneStore_fresh (show 4 < 2 ^ 32 by decide))
    (fun ovbuff h => by obtain rfl := List.mem_singleton.mp h; exact ⟨by decide, by decide⟩)
      (inserting INDEXcompare) twoArticles
    twoArticles_permitted
  have hadded :
      (Foundation.Runs.run (Store.act (inserting INDEXcompare)) twoArticles (oneStore 4)).map
      (fun s => s.added 0) =
      .ok [shortOverview 7 [65], shortOverview 5 [66]] := by
    decide
  have hcurdata :
      (Foundation.Runs.run (Store.act (inserting INDEXcompare)) twoArticles (oneStore 4)).map
      (fun s => (s.GROUPentries 0).curdata) = .ok ⟨0, 1⟩ := by
    decide
  have hcollect :
      (Foundation.Runs.run (Store.act (inserting INDEXcompare)) twoArticles (oneStore 4)).bind
      (fun s => collect s.volume (s.GROUPentries 0) (s.GROUPentries 0).turns
        (s.GROUPentries 0).baseindex) =
        .ok (some ([⟨1, 1⟩], [⟨7, 0, 1, OVINDEX.zero.token, 0, 1, 0, 0⟩,
          ⟨5, 0, 1, OVINDEX.zero.token, 1, 1, 0, 0⟩])) := by
    decide +kernel
  have hdone :
      (Foundation.Runs.run (Store.act (inserting INDEXcompare)) twoArticles (oneStore 4)).bind
      (fun s => (buffindexedExpiregroup (inserting INDEXcompare) (fun o => o.artnum = 7) s.volume
        (s.GROUPentries 0)).map Expiry.done) =
        .ok true := by
    decide
  rw [hrun] at hadded hcurdata hcollect hdone
  have hadded : store'.added 0 = [shortOverview 7 [65], shortOverview 5 [66]] :=
    Except.ok.inj hadded
  have hcurdata : (store'.GROUPentries 0).curdata = ⟨0, 1⟩ := Except.ok.inj hcurdata
  have hblocks : ∀ ie ∈ [(⟨7, 0, 1, OVINDEX.zero.token, 0, 1, 0, 0⟩ : OVINDEX),
      ⟨5, 0, 1, OVINDEX.zero.token, 1, 1, 0, 0⟩], ie.datablk = ⟨0, 1⟩ := by
    decide
  obtain ⟨expiry, hexpire, hproper⟩ := hall 0 (fun o => o.artnum = 7)
    (fun o ho _ => by
      rw [hadded] at ho
      exact (by decide : ∀ o ∈ [shortOverview 7 [65], shortOverview 5 [66]], o.data ≠ []) o ho)
    ⟨_, _, hcollect, .inr ⟨_, List.mem_cons_self, by rw [hcurdata]; rfl⟩, fun ie hie =>
      ⟨ie, hie, rfl, fun other hother _ => (hblocks other hother).trans (hblocks ie hie).symm⟩⟩
  have hdone :
      (buffindexedExpiregroup (inserting INDEXcompare) (fun o => o.artnum = 7) store'.volume
        (store'.GROUPentries 0)).map Expiry.done =
      .ok true := hdone
  rw [hexpire] at hdone
  have hdone : expiry.done = true := Except.ok.inj hdone
  exact ⟨store', expiry, hrun, hexpire, hdone, hproper hdone⟩

def addedTwice : List Event :=
    [.add 0 (shortOverview 1 (List.replicate 4097 65)),
      .add 0 (shortOverview 1 (List.replicate 4097 65))]

/-- The data block of an entry that is removed is not freed. -/
theorem not_expired_proper :
    ¬∀ (heap : Heap) (store : Store), Fresh heap store →
      (∀ ovbuff ∈ heap.state.ovbufftab, ovbuff.index < 2 ^ 15 ∧ ovbuff.totalblk ≤ 2 ^ 31) →
        ∀ (sorter : Sorter INDEXcompare) (events : List Event),
          ∃ store', Foundation.Runs.run (Store.act sorter) events store = .ok store' ∧
            ∀ g keeps, ∃ expiry, buffindexedExpiregroup sorter keeps store'.volume
              (store'.GROUPentries g) = .ok expiry ∧
              (expiry.done = true → store'.ExpiresProperly sorter g keeps expiry) := by
  intro hall
  obtain ⟨store', hrun, hexpires⟩ := hall _ _ (oneStore_fresh (show 8 < 2 ^ 32 by decide))
    (fun ovbuff h => by obtain rfl := List.mem_singleton.mp h; exact ⟨by decide, by decide⟩)
      (inserting INDEXcompare) addedTwice
  obtain ⟨expiry, hexpire, hproper⟩ := hexpires 0 fun _ => true
  have hfew : (Foundation.Runs.run (Store.act (inserting INDEXcompare)) addedTwice (oneStore 8)).map
      (fun s => (s.added 0).length) = .ok 2 := by
    decide +kernel
  have hcollect :
      (Foundation.Runs.run (Store.act (inserting INDEXcompare)) addedTwice (oneStore 8)).bind
      (fun s => (collect s.volume (s.GROUPentries 0) (s.GROUPentries 0).turns
        (s.GROUPentries 0).baseindex).map
        (Option.map fun found => found.2.map OVINDEX.datablk)) = .ok (some [⟨0, 1⟩, ⟨2, 1⟩]) := by
    decide +kernel
  have hfreed :
      (Foundation.Runs.run (Store.act (inserting INDEXcompare)) addedTwice (oneStore 8)).bind
      (fun s => (buffindexedExpiregroup (inserting INDEXcompare) (fun _ => true) s.volume
        (s.GROUPentries 0)).map
        fun expiry => (expiry.done, expiry.freed)) = .ok (true, [⟨1, 1⟩, ⟨2, 1⟩]) := by
    decide +kernel
  rw [hrun] at hfew hcollect hfreed
  have hfew : (store'.added 0).length = 2 := Except.ok.inj hfew
  have hcollect :
      (collect store'.volume (store'.GROUPentries 0) (store'.GROUPentries 0).turns
        (store'.GROUPentries 0).baseindex).map
      (Option.map fun found => found.2.map OVINDEX.datablk) = .ok (some [⟨0, 1⟩, ⟨2, 1⟩]) :=
        hcollect
  have hfreed :
      (buffindexedExpiregroup (inserting INDEXcompare) (fun _ => true) store'.volume
        (store'.GROUPentries 0)).map
      (fun expiry => (expiry.done, expiry.freed)) = .ok (true, [⟨1, 1⟩, ⟨2, 1⟩]) := hfreed
  rw [hexpire] at hfreed
  obtain ⟨hdone, hfreed⟩ := Prod.mk.inj (Except.ok.inj hfreed)
  obtain ⟨allocated, _, own, _, hkept, _, hfrees⟩ := (hproper hdone).frees
  obtain ⟨first, blocks, datas, entries, hown, _, hcontent⟩ := hkept.groups 0
  rw [hcontent.collect_eq (by rw [hfew]; decide)] at hcollect
  have hplaces : entries.map OVINDEX.datablk = [⟨0, 1⟩, ⟨2, 1⟩] :=
    Option.some.inj (Except.ok.inj hcollect)
  have hfirst : (⟨0, 1⟩ : OV) ∈ entries.map OVINDEX.datablk := hplaces ▸ List.mem_cons_self
  obtain ⟨ie, hie, hplace⟩ := List.mem_map.mp hfirst
  obtain ⟨o, _, hstored⟩ := hcontent.exists_added hie
  have hmem : (⟨0, 1⟩ : OV) ∈ expiry.freed := by
    rw [hfrees.old, hown, ← hplace]
    exact List.mem_append_right _ hstored.place
  rw [hfreed] at hmem
  exact absurd hmem (by decide)

end Runs

end Inn.Buffindexed
