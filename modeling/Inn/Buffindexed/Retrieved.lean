import Inn.Buffindexed.Added

/-!
# Retrieving the overview

A search delivers what the group holds, once and in order, as long as the comparison tells the
article numbers apart and no number was added twice with different data.
-/

namespace Inn.Buffindexed

open Foundation.Sorting
open List (mem_cons mem_cons_self mem_filter mem_singleton)

variable {gib : List OVINDEX} {ie : OVINDEX} {low high : Nat}

theorem mem_of_mem_removeDuplicates (h : ie ∈ removeDuplicates gib) (hpos : ie.artnum ≠ 0) :
    ie ∈ gib := by
  induction gib using removeDuplicates.induct with
  | case1 first next rest ih =>
    rw [removeDuplicates] at h
    rcases mem_cons.mp h with heq | h
    · split at heq
      · exact absurd (congrArg OVINDEX.artnum heq) hpos
      · exact heq ▸ mem_cons_self
    · exact List.mem_cons_of_mem _ (ih h)
  | case2 gib hgib =>
    rwa [removeDuplicates.eq_2 gib hgib] at h

theorem removeDuplicates_length (gib : List OVINDEX) :
    (removeDuplicates gib).length = gib.length := by
  induction gib using removeDuplicates.induct with
  | case1 first next rest ih =>
    rw [removeDuplicates, List.length_cons, ih]
    rfl
  | case2 gib hgib => rw [removeDuplicates.eq_2 gib hgib]

theorem exists_mem_removeDuplicates (h : ie ∈ gib) :
    ∃ kept ∈ removeDuplicates gib, kept.artnum = ie.artnum := by
  induction gib using removeDuplicates.induct generalizing ie with
  | case1 first next rest ih =>
    rw [removeDuplicates]
    rcases mem_cons.mp h with rfl | h
    · split
      next heq =>
        obtain ⟨kept, hkept, hnum⟩ := ih mem_cons_self
        exact ⟨kept, List.mem_cons_of_mem _ hkept, hnum.trans heq.symm⟩
      next => exact ⟨ie, mem_cons_self, rfl⟩
    · obtain ⟨kept, hkept, hnum⟩ := ih h
      exact ⟨kept, List.mem_cons_of_mem _ hkept, hnum⟩
  | case2 gib hgib =>
    rw [removeDuplicates.eq_2 gib hgib]
    exact ⟨ie, h, rfl⟩

theorem removeDuplicates_pairwise (hsorted : gib.Pairwise fun a b => a.artnum ≤ b.artnum) :
    (removeDuplicates gib).Pairwise fun a b => a.artnum ≠ 0 → b.artnum ≠ 0 →
      a.artnum < b.artnum := by
  induction gib using removeDuplicates.induct with
  | case1 first next rest ih =>
    obtain ⟨hfirst, hrest⟩ := List.pairwise_cons.mp hsorted
    rw [removeDuplicates]
    refine List.pairwise_cons.mpr ⟨fun b hb hpos hpos' => ?_, ih hrest⟩
    split at hpos
    next => exact absurd rfl hpos
    next hne =>
      rw [if_neg hne]
      have hnext : next.artnum ≤ b.artnum := by
        rcases mem_cons.mp (mem_of_mem_removeDuplicates hb hpos') with rfl | hmem
        · exact Nat.le_refl _
        · exact (List.pairwise_cons.mp hrest).1 b hmem
      exact Nat.lt_of_lt_of_le (Nat.lt_of_le_of_ne (hfirst next mem_cons_self) hne) hnext
  | case2 gib hgib =>
    rw [removeDuplicates.eq_2 gib hgib]
    match gib, hgib with
    | [], _ => exact .nil
    | [first], _ => exact List.pairwise_singleton _ _
    | first :: next :: rest, hgib => exact absurd rfl (hgib first next rest)

def OVINDEX.Within (ie : OVINDEX) (low high : Nat) : Prop :=
    ie.artnum ≠ 0 ∧ low ≤ ie.artnum ∧ ie.artnum ≤ high

theorem groupdatablocks_spec (state : State) (low high : Nat) (gib : List OVINDEX) :
    (groupdatablocks state low high gib).Nodup ∧ ∀ ov, ov ∈ groupdatablocks state low high gib ↔
      ∃ ie ∈ gib, ie.Within low high ∧ state.getovbuff ie.datablk ≠ none ∧ ie.datablk = ov := by
  suffices h : ∀ gdbs : List OV, gdbs.Nodup → ∀ after, gib.foldl (fun gdbs ie =>
      if ie.artnum = 0 ∨ ie.artnum < low ∨ high < ie.artnum then gdbs
      else if ie.datablk ∈ gdbs then gdbs
      else if state.getovbuff ie.datablk = none then gdbs
      else ie.datablk :: gdbs) gdbs = after →
        after.Nodup ∧ ∀ ov, ov ∈ after ↔ ov ∈ gdbs ∨ ∃ ie ∈ gib, ie.Within low high ∧
          state.getovbuff ie.datablk ≠ none ∧ ie.datablk = ov by
    obtain ⟨hnodup, hmem⟩ := h [] List.nodup_nil _ rfl
    exact ⟨hnodup, fun ov => (hmem ov).trans (or_iff_right List.not_mem_nil)⟩
  induction gib with
  | nil =>
    rintro gdbs hnodup _ rfl
    exact ⟨hnodup, fun ov => (or_iff_left fun ⟨_, h, _⟩ => nomatch h).symm⟩
  | cons ie gib ih =>
    intro gdbs hnodup after hafter
    rw [List.foldl_cons] at hafter
    -- an entry adds its block, unless it is there already or none
    have hadd (gdbs' : List OV) (hmem : ∀ ov, ov ∈ gdbs' ↔ ov ∈ gdbs ∨
        (ie.Within low high ∧ state.getovbuff ie.datablk ≠ none ∧ ie.datablk = ov)) (ov : OV) :
        (ov ∈ gdbs' ∨ ∃ ie ∈ gib, ie.Within low high ∧ state.getovbuff ie.datablk ≠ none ∧
          ie.datablk = ov) ↔
          ov ∈ gdbs ∨ ∃ ie' ∈ ie :: gib, ie'.Within low high ∧ state.getovbuff ie'.datablk ≠ none ∧
            ie'.datablk = ov := by
      rw [hmem, List.exists_mem_cons_iff, or_assoc]
    split at hafter
    next hout =>
      obtain ⟨hnodup', hmem⟩ := ih gdbs hnodup after hafter
      refine ⟨hnodup', fun ov => (hmem ov).trans (hadd gdbs (fun ov => (or_iff_left ?_).symm) ov)⟩
      rintro ⟨⟨hpos, hlow, hhigh⟩, _⟩
      omega
    split at hafter
    next hthere =>
      obtain ⟨hnodup', hmem⟩ := ih gdbs hnodup after hafter
      refine ⟨hnodup', fun ov =>
        (hmem ov).trans (hadd gdbs (fun ov => ⟨.inl, fun h => h.elim id ?_⟩) ov)⟩
      rintro ⟨_, _, rfl⟩
      exact hthere
    split at hafter
    next hnone =>
      obtain ⟨hnodup', hmem⟩ := ih gdbs hnodup after hafter
      exact ⟨hnodup', fun ov =>
        (hmem ov).trans (hadd gdbs (fun ov => (or_iff_left fun h => h.2.1 hnone).symm) ov)⟩
    next hin hnew hsome =>
      obtain ⟨hnodup', hmem⟩ :=
        ih (ie.datablk :: gdbs) (List.nodup_cons.mpr ⟨hnew, hnodup⟩) after hafter
      refine ⟨hnodup', fun ov => (hmem ov).trans (hadd _ (fun ov => ?_) ov)⟩
      have hwithin : ie.Within low high := by unfold OVINDEX.Within; omega
      rw [mem_cons, or_comm, eq_comm]
      exact or_congr_right ⟨fun h => ⟨hwithin, hsome, h⟩, fun h => h.2.2⟩

section Delivery

variable {disk : Disk} {gdbs : List OV}

def OVINDEX.found (disk : Disk) (ie : OVINDEX) : Found :=
  ⟨ie.artnum, fun i => (disk ie.datablk).octets (ie.offset + i), ie.len, ie.token,
    ie.arrived, ie.expires⟩

def todo (low high : Nat) (gib : List OVINDEX) : List OVINDEX :=
  (gib.filter fun ie => ie.artnum ≠ 0 ∧ low ≤ ie.artnum).takeWhile fun ie => ie.artnum ≤ high

theorem todo_sublist (low high : Nat) (gib : List OVINDEX) : (todo low high gib).Sublist gib :=
  (List.takeWhile_sublist _).trans List.filter_sublist

theorem within_of_mem_todo (h : ie ∈ todo low high gib) : ie.Within low high := by
  have hhigh := List.mem_takeWhile_imp h
  obtain ⟨_, hlow⟩ := mem_filter.mp ((List.takeWhile_sublist _).subset h)
  obtain ⟨hpos, hlow⟩ := of_decide_eq_true hlow
  exact ⟨hpos, hlow, of_decide_eq_true hhigh⟩

theorem todo_skip (hskip : ie.artnum = 0 ∨ ie.artnum < low) :
    todo low high (ie :: gib) = todo low high gib := by
  unfold todo
  rw [List.filter_cons_of_neg (by simp only [decide_eq_true_eq]; omega)]

theorem todo_cons (hskip : ¬(ie.artnum = 0 ∨ ie.artnum < low)) :
    todo low high (ie :: gib) = if high < ie.artnum then [] else ie :: todo low high gib := by
  unfold todo
  rw [List.filter_cons_of_pos (by simp only [decide_eq_true_eq]; omega)]
  split
  next hhigh => exact List.takeWhile_cons_of_neg (by rw [decide_eq_true_eq]; omega)
  next hhigh => exact List.takeWhile_cons_of_pos (by rw [decide_eq_true_eq]; omega)

theorem ovsearch_skip (hskip : ie.artnum = 0 ∨ ie.artnum < low) (before : Found) :
    OVSEARCH.ovsearch disk ⟨low, high, ie :: gib, true, gdbs⟩ before =
      OVSEARCH.ovsearch disk ⟨low, high, gib, true, gdbs⟩ before := by
  have hback : (ie :: gib).dropWhile (OVSEARCH.skips ⟨low, high, ie :: gib, true, gdbs⟩) =
      gib.dropWhile (OVSEARCH.skips ⟨low, high, gib, true, gdbs⟩) :=
    List.dropWhile_cons_of_pos (decide_eq_true hskip)
  rw [OVSEARCH.ovsearch, OVSEARCH.ovsearch, hback]
  rfl

theorem ovsearch_front (hskip : ¬(ie.artnum = 0 ∨ ie.artnum < low)) (before : Found) :
    OVSEARCH.ovsearch disk ⟨low, high, ie :: gib, true, gdbs⟩ before =
      if high < ie.artnum then (false, before, ⟨low, high, ie :: gib, true, gdbs⟩)
      else
        ((OVSEARCH.deliver disk ⟨low, high, ie :: gib, true, gdbs⟩ ie before).1,
          (OVSEARCH.deliver disk ⟨low, high, ie :: gib, true, gdbs⟩ ie before).2,
            ⟨low, high, gib, true, gdbs⟩) := by
  have hfront :
      (ie :: gib).dropWhile (OVSEARCH.skips ⟨low, high, ie :: gib, true, gdbs⟩) = ie :: gib :=
    List.dropWhile_cons_of_neg (by rw [OVSEARCH.skips, decide_eq_true_eq]; exact hskip)
  rw [OVSEARCH.ovsearch, hfront]

theorem ovsearch_end (h : todo low high gib = []) (before : Found) :
    (OVSEARCH.ovsearch disk ⟨low, high, gib, true, gdbs⟩ before).1 = false := by
  induction gib with
  | nil => rfl
  | cons ie gib ih =>
    by_cases hskip : ie.artnum = 0 ∨ ie.artnum < low
    · rw [ovsearch_skip hskip]
      exact ih ((todo_skip hskip).symm.trans h)
    · rw [todo_cons hskip] at h
      rw [ovsearch_front hskip]
      split at h
      next hhigh => rw [if_pos hhigh]
      next => cases h

theorem ovsearch_next (disk : Disk) {rest : List OVINDEX} (h : todo low high gib = ie :: rest)
    (hindex : ie.index ≠ NULLINDEX) (hplace : ie.datablk ∈ gdbs) (before : Found) :
    ∃ gib', todo low high gib' = rest ∧
      OVSEARCH.ovsearch disk ⟨low, high, gib, true, gdbs⟩ before =
        (true, ie.found disk, ⟨low, high, gib', true, gdbs⟩) := by
  induction gib with
  | nil => cases h
  | cons first gib ih =>
    by_cases hskip : first.artnum = 0 ∨ first.artnum < low
    · rw [ovsearch_skip hskip]
      exact ih ((todo_skip hskip).symm.trans h)
    · rw [todo_cons hskip] at h
      split at h
      next => cases h
      next hhigh =>
        obtain ⟨rfl, hrest⟩ := List.cons.inj h
        have hdeliver : OVSEARCH.deliver disk ⟨low, high, first :: gib, true, gdbs⟩ first before =
            (true, first.found disk) := by
          rw [OVSEARCH.deliver, if_pos rfl, if_neg hindex]
          exact if_pos hplace
        rw [ovsearch_front hskip, if_neg hhigh, hdeliver]
        exact ⟨gib, hrest, rfl⟩

theorem delivered_eq (hplace : ∀ ie ∈ todo low high gib, ie.index ≠ NULLINDEX ∧ ie.datablk ∈ gdbs)
    {turns : Nat} (hturns : (todo low high gib).length ≤ turns) (before : Found) :
    OVSEARCH.delivered disk turns ⟨low, high, gib, true, gdbs⟩ before =
      (todo low high gib).map (OVINDEX.found disk) := by
  induction htodo : todo low high gib generalizing gib turns before with
  | nil =>
    cases turns with
    | zero => rfl
    | succ turns =>
      have hend : (OVSEARCH.ovsearch disk ⟨low, high, gib, true, gdbs⟩ before).1 = false :=
        ovsearch_end htodo before
      rw [OVSEARCH.delivered]
      split
      next => rfl
      next heq =>
        rw [heq] at hend
        cases hend
  | cons ie rest ih =>
    rw [htodo] at hplace hturns
    obtain ⟨turns, rfl⟩ : ∃ n, turns = n + 1 :=
      ⟨turns - 1, by rw [List.length_cons] at hturns; omega⟩
    obtain ⟨hindex, hblock⟩ := hplace ie mem_cons_self
    obtain ⟨gib', hrest, hnext⟩ := ovsearch_next disk htodo hindex hblock before
    rw [OVSEARCH.delivered, hnext]
    refine congrArg _ (ih (fun ie' hie' => ?_) ?_ _ hrest)
    · exact hplace ie' (List.mem_cons_of_mem _ (hrest ▸ hie'))
    · rw [hrest]
      exact Nat.le_of_succ_le_succ hturns

end Delivery

section Numbers

variable {added : List Overview} {o : Overview}

/-- The difference of the numbers has its sign in 32 bits. -/
def Comparable (m n : Nat) : Prop := m < n → 0 < (n - m) % 2 ^ 32 ∧ (n - m) % 2 ^ 32 < 2 ^ 31

structure Regular (added : List Overview) (o : Overview) : Prop where
  positive : 0 < o.artnum
  comparable : ∀ o' ∈ added, Comparable o.artnum o'.artnum ∧ Comparable o'.artnum o.artnum
  same : ∀ o' ∈ added, o'.artnum = o.artnum → o' = o
  few : added.length + 1 < 2 ^ 31

structure Ordinary (added : List Overview) : Prop where
  positive : ∀ o ∈ added, 0 < o.artnum
  comparable : ∀ o ∈ added, ∀ o' ∈ added, Comparable o.artnum o'.artnum
  same : ∀ o ∈ added, ∀ o' ∈ added, o.artnum = o'.artnum → o = o'
  few : added.length < 2 ^ 31

theorem Ordinary.add (h : Ordinary added) (hregular : Regular added o) :
    Ordinary (added ++ [o]) := by
  have hmem {o' : Overview} (ho' : o' ∈ added ++ [o]) : o' ∈ added ∨ o' = o :=
    (List.mem_append.mp ho').imp_right mem_singleton.mp
  refine ⟨fun a ha => ?_, fun a ha b hb => ?_, fun a ha b hb heq => ?_, ?_⟩
  · rcases hmem ha with ha | rfl
    · exact h.positive a ha
    · exact hregular.positive
  · rcases hmem ha with hold | rfl <;> rcases hmem hb with hold' | rfl
    · exact h.comparable a hold b hold'
    · exact (hregular.comparable a hold).2
    · exact (hregular.comparable b hold').1
    · exact fun hlt => absurd hlt (Nat.lt_irrefl _)
  · rcases hmem ha with hold | rfl <;> rcases hmem hb with hold' | rfl
    · exact h.same a hold b hold' heq
    · exact hregular.same a hold heq
    · exact (hregular.same b hold' heq.symm).symm
    · rfl
  · rw [List.length_append]
    exact hregular.few

theorem INDEXcompare_of_lt {a b : OVINDEX} (hlt : a.artnum < b.artnum)
    (h : Comparable a.artnum b.artnum) :
    INDEXcompare a b < 0 ∧ 0 < INDEXcompare b a := by
  obtain ⟨hpos, hsmall⟩ := h hlt
  have hsub : ((b.artnum : Int) - a.artnum) = ((b.artnum - a.artnum : Nat) : Int) :=
    (Int.ofNat_sub hlt.le).symm
  have hsub' : ((a.artnum : Int) - b.artnum) = -((b.artnum - a.artnum : Nat) : Int) := by omega
  unfold INDEXcompare
  rw [hsub, hsub', Int.bmod_def, Int.bmod_def]
  constructor <;> split <;> omega

theorem INDEXcompare_of_eq {a b : OVINDEX} (heq : a.artnum = b.artnum) : INDEXcompare a b = 0 := by
  unfold INDEXcompare
  rw [heq, Int.sub_self]
  rfl

theorem compares_of_comparable (h : ∀ a ∈ gib, ∀ b ∈ gib, Comparable a.artnum b.artnum) :
    Compares INDEXcompare OVINDEX.artnum gib := by
  intro a ha b hb
  rcases Nat.lt_trichotomy a.artnum b.artnum with hlt | heq | hgt
  · have := INDEXcompare_of_lt hlt (h a ha b hb)
    constructor <;> omega
  · have := INDEXcompare_of_eq heq
    constructor <;> omega
  · have := INDEXcompare_of_lt hgt (h b hb a ha)
    constructor <;> omega

end Numbers

section Exact

variable {v : Volume} {allocated : List OV} {ge : GROUPENTRY} {blocks datas : List OV}
    {entries : List OVINDEX} {added : List Overview} {first : Nat × Nat}

def lastFor (added : List Overview) (artnum : Nat) : Option Overview :=
    (added.filter fun o => o.artnum = artnum).getLast?

/-- The last article of each number within the range, in order. -/
structure Exact (added : List Overview) (low high : Nat) (result : List Found) : Prop where
  increasing : result.Pairwise fun found other => found.artnum < other.artnum
  exact : ∀ o, o ∈ result.map Found.overview ↔ low ≤ o.artnum ∧ o.artnum ≤ high ∧
    lastFor added o.artnum = some o

theorem Ordinary.lastFor_iff (h : Ordinary added) {o : Overview} : lastFor added o.artnum = some o ↔
    o ∈ added := by
  unfold lastFor
  constructor
  · intro hlast
    exact (mem_filter.mp (List.mem_of_getLast? hlast)).1
  · intro ho
    have hmem : o ∈ added.filter fun o' => o'.artnum = o.artnum :=
      mem_filter.mpr ⟨ho, decide_eq_true rfl⟩
    cases hlast : (added.filter fun o' => o'.artnum = o.artnum).getLast? with
    | none =>
      rw [List.getLast?_eq_none_iff.mp hlast] at hmem
      cases hmem
    | some o' =>
      obtain ⟨ho', hnum⟩ := mem_filter.mp (List.mem_of_getLast? hlast)
      rw [h.same o' ho' o ho (of_decide_eq_true hnum)]

theorem Content.exists_added (h : Content v allocated ge first blocks datas entries added)
    (hie : ie ∈ entries) :
    ∃ o ∈ added, Stored v.disk ge datas ie o := by
  obtain ⟨i, hi, rfl⟩ := List.mem_iff_getElem.mp hie
  have hi' : i < added.length := h.stored.length_eq ▸ hi
  exact ⟨added[i], List.getElem_mem hi', (List.forall₂_iff_get.mp h.stored).2 i hi hi'⟩

theorem Content.exists_entry (h : Content v allocated ge first blocks datas entries added)
    {o : Overview} (ho : o ∈ added) :
    ∃ ie ∈ entries, Stored v.disk ge datas ie o := by
  obtain ⟨i, hi, rfl⟩ := List.mem_iff_getElem.mp ho
  have hi' : i < entries.length := h.stored.length_eq ▸ hi
  exact ⟨entries[i], List.getElem_mem hi', (List.forall₂_iff_get.mp h.stored).2 i hi' hi⟩

theorem Stored.overview {disk : Disk} {o : Overview} (h : Stored disk ge datas ie o) :
    (ie.found disk).overview = o := by
  have hoctets := h.octets
  obtain ⟨artnum, token, data, arrived, expires⟩ := o
  obtain ⟨artnum', blocknum, index, token', offset, len, arrived', expires'⟩ := ie
  obtain ⟨rfl, -, -, rfl, -, rfl, rfl, rfl⟩ := OVINDEX.mk.inj h.entry
  exact congrArg (Overview.mk artnum' token' · arrived' expires') hoctets

theorem Content.ovgroupmmap_eq (h : Content v allocated ge first blocks datas entries added)
    (sorter : Sorter INDEXcompare)
    (hsome : added ≠ []) (hfew : added.length < 2 ^ 31) (hrange : low ≤ high) {turns : Nat}
    (hturns : added.length + 1 < turns) (needov : Bool) :
    ovgroupmmap sorter turns v ge low high needov =
      .ok (some ⟨removeDuplicates (sorter.qsort entries), blocks.reverse,
        if needov then groupdatablocks v.state low high (removeDuplicates (sorter.qsort entries))
          else []⟩) := by
  have hlength := h.stored.length_eq
  have hcount : ge.count ≠ 0 := by
    have hpos := List.length_pos_of_ne_nil hsome
    rw [h.count, Int.bmod_eq_of_le_mul_two] <;> omega
  have hchain : Chain v.disk ge.curindex ge.curindexoffset ge.baseindex blocks entries := by
    refine (h.index.resolve_left ?_).1
    rintro ⟨_, _, rfl⟩
    exact hsome (List.length_eq_zero_iff.mp hlength.symm)
  have hblocks := hchain.length_le
  have hfound (b : OV) (hb : b ∈ blocks) : v.state.getovbuff b ≠ none :=
    h.inv.getovbuff_ne (h.mine b (List.mem_append_left _ hb))
  unfold ovgroupmmap
  rw [if_neg (Nat.not_lt.mpr hrange), if_neg hcount, hchain.collect_eq hfound (by omega)]

theorem Content.ovgroupmmap_nil (h : Content v allocated ge first blocks datas entries [])
    (sorter : Sorter INDEXcompare) (turns : Nat)
    (needov : Bool) : ovgroupmmap sorter turns v ge low high needov = .ok (some ⟨[], [], []⟩) := by
  have hcount : ge.count = 0 := h.count
  unfold ovgroupmmap
  rw [if_pos hcount]
  split <;> rfl

structure Covers (disk : Disk) (ge : GROUPENTRY) (datas : List OV) (added : List Overview)
    (low high : Nat) (entries : List OVINDEX) :
    Prop where
  increasing : entries.Pairwise fun a b => a.artnum < b.artnum
  sound : ∀ ie ∈ entries, ∃ o ∈ added, Stored disk ge datas ie o
  complete : ∀ o ∈ added, low ≤ o.artnum → o.artnum ≤ high →
    ∃ ie ∈ entries, Stored disk ge datas ie o

section Content

variable (h : Content v allocated ge first blocks datas entries added)

include h

theorem Content.mem_entries (sorter : Sorter INDEXcompare)
    (hie : ie ∈ removeDuplicates (sorter.qsort entries)) (hpos : ie.artnum ≠ 0) :
    ∃ o ∈ added, Stored v.disk ge datas ie o :=
  h.exists_added ((sorter.sorted entries).perm.mem_iff.mp (mem_of_mem_removeDuplicates hie hpos))

theorem Content.covers (hordinary : Ordinary added)
    (sorter : Sorter INDEXcompare) (low high : Nat) :
    Covers v.disk ge datas added low high
      (todo low high (removeDuplicates (sorter.qsort entries))) := by
  have hsorted := sorter.sorted entries
  -- the sort puts the entries in order, as the comparison tells their numbers apart
  have hordered : (sorter.qsort entries).Pairwise fun a b => a.artnum ≤ b.artnum := by
    refine hsorted.pairwise (compares_of_comparable fun a ha b hb => ?_)
    obtain ⟨o, ho, hstored⟩ := h.exists_added ha
    obtain ⟨o', ho', hstored'⟩ := h.exists_added hb
    rw [hstored.entry, hstored'.entry]
    exact hordinary.comparable o ho o' ho'
  have hincreasing :=
    (removeDuplicates_pairwise hordered).filter fun ie => decide (ie.artnum ≠ 0 ∧ low ≤ ie.artnum)
  have hstrict : ((removeDuplicates (sorter.qsort entries)).filter fun ie => ie.artnum ≠ 0 ∧
      low ≤ ie.artnum).Pairwise
      fun a b => a.artnum < b.artnum := by
    refine hincreasing.imp_of_mem fun ha hb hlt => hlt ?_ ?_
    · exact (of_decide_eq_true (mem_filter.mp ha).2).1
    · exact (of_decide_eq_true (mem_filter.mp hb).2).1
  refine ⟨hstrict.sublist (List.takeWhile_sublist _), fun ie hie => ?_, fun o ho hlow hhigh => ?_⟩
  · exact h.mem_entries sorter ((todo_sublist _ _ _).subset hie) (within_of_mem_todo hie).1
  · obtain ⟨ie, hie, hstored⟩ := h.exists_entry ho
    obtain ⟨kept, hkept, hnum⟩ := exists_mem_removeDuplicates (hsorted.perm.mem_iff.mpr hie)
    have hnum : kept.artnum = o.artnum := by rw [hnum, hstored.entry]
    have hpos : kept.artnum ≠ 0 := by
      have := hordinary.positive o ho
      omega
    obtain ⟨o', ho', hstored'⟩ := h.mem_entries sorter hkept hpos
    have hsame : o' = o := hordinary.same o' ho' o ho (by rw [← hnum, hstored'.entry])
    refine ⟨kept, ?_, hsame ▸ hstored'⟩
    refine (mem_takeWhile hstrict fun a b hab hb =>
      decide_eq_true (hab.le.trans (of_decide_eq_true hb))).mpr ?_
    exact ⟨mem_filter.mpr ⟨hkept, decide_eq_true ⟨hpos, by omega⟩⟩, decide_eq_true (by omega)⟩

theorem Content.mapped (sorter : Sorter INDEXcompare)
    (hie : ie ∈ todo low high (removeDuplicates (sorter.qsort entries))) :
    ie.index ≠ NULLINDEX ∧
      ie.datablk ∈ groupdatablocks v.state low high (removeDuplicates (sorter.qsort entries)) := by
  have hmem := (todo_sublist _ _ _).subset hie
  have hwithin := within_of_mem_todo hie
  obtain ⟨o, _, hstored⟩ := h.mem_entries sorter hmem hwithin.1
  have hmine := h.mine _ (List.mem_append_right _ hstored.place)
  exact ⟨h.inv.index_ne hmine,
    ((groupdatablocks_spec _ _ _ _).2 _).mpr ⟨ie, hmem, hwithin, h.inv.getovbuff_ne hmine, rfl⟩⟩

theorem Content.retrieve_exact (hordinary : Ordinary added)
    (sorter : Sorter INDEXcompare) (low high : Nat) {turns : Nat}
    (hturns : added.length + 1 < turns) (before : Found) :
    ∃ result, retrieve sorter turns v ge low high before = .ok (some result) ∧
      Exact added low high result := by
  unfold retrieve
  by_cases hrange : low ≤ high
  swap
  · unfold ovgroupmmap
    rw [if_pos (Nat.not_le.mp hrange)]
    exact ⟨_, rfl, .nil, fun o => ⟨nofun, fun ho => absurd (ho.1.trans ho.2.1) hrange⟩⟩
  by_cases hsome : added = []
  · subst hsome
    rw [h.ovgroupmmap_nil]
    exact ⟨_, rfl, .nil, fun o => ⟨nofun, fun ho => nomatch hordinary.lastFor_iff.mp ho.2.2⟩⟩
  rw [h.ovgroupmmap_eq sorter hsome hordinary.few hrange hturns]
  dsimp only
  rw [if_pos rfl, delivered_eq (fun _ => h.mapped sorter) (todo_sublist _ _ _).length_le]
  have hcovers := h.covers hordinary sorter low high
  refine ⟨_, rfl, List.pairwise_map.mpr hcovers.increasing, fun o => ?_⟩
  rw [hordinary.lastFor_iff, List.map_map, List.mem_map]
  constructor
  · rintro ⟨ie, hie, rfl⟩
    obtain ⟨o, ho, hstored⟩ := hcovers.sound ie hie
    obtain ⟨_, hlow, hhigh⟩ := within_of_mem_todo hie
    have hoverview : (Found.overview ∘ OVINDEX.found v.disk) ie = o := hstored.overview
    refine ⟨hlow, hhigh, ?_⟩
    rw [hoverview]
    exact ho
  · rintro ⟨hlow, hhigh, ho⟩
    obtain ⟨ie, hie, hstored⟩ := hcovers.complete o ho hlow hhigh
    exact ⟨ie, hie, hstored.overview⟩

end Content

end Exact

section Runs

variable {heap : Heap} {store : Store} {allocated : List OV} {own : Nat → List OV}

def Store.Allows (store : Store) (call : Nat × Overview) : Prop :=
  call.2.data.length ≤ OV_BLOCKSIZE → Regular (store.added call.1) call.2

def Store.Good (store : Store) : Prop :=
    (∃ allocated own, store.Kept allocated own) ∧ ∀ g, Ordinary (store.added g)

theorem Store.Good.step (h : store.Good) {call : Nat × Overview} (hallows : store.Allows call) :
    ∃ store', store.step call = .ok store' ∧ store'.Good := by
  obtain ⟨⟨allocated, own, hkept⟩, hordinary⟩ := h
  obtain ⟨store', allocated', own', hstep, hkept'⟩ := hkept.step call
  refine ⟨store', hstep, ⟨allocated', own', hkept'⟩, fun g => ?_⟩
  by_cases hlen : call.2.data.length ≤ OV_BLOCKSIZE
  · rcases Store.step_added hstep with hsame | hnew
    · rw [hsame]
      exact hordinary g
    · rw [hnew]
      by_cases hg : g = call.1
      · rw [hg, Function.update_self]
        exact (hordinary call.1).add (hallows hlen)
      · rw [Function.update_of_ne hg]
        exact hordinary g
  · have hrefused : ovaddrec store.volume (store.GROUPentries call.1) call.2 =
        .ok (false, store.volume, store.GROUPentries call.1) :=
      if_pos (Nat.not_le.mp hlen)
    rw [Store.step, hrefused] at hstep
    cases hstep
    exact hordinary g

structure Fresh (heap : Heap) (store : Store) : Prop where
  start : Start heap
  blocks : ∃ ops allocated, Foundation.Runs.run Heap.step ops heap =
    .ok ⟨store.volume.state, allocated⟩
  empty : ∀ g, (store.GROUPentries g).Empty
  none : ∀ g, store.added g = []

theorem Fresh.good (h : Fresh heap store)
    (hfits : ∀ ovbuff ∈ heap.state.ovbufftab, ovbuff.index < 2 ^ 15 ∧ ovbuff.totalblk ≤ 2 ^ 31) :
    store.Good := by
  obtain ⟨ops, allocated, hrun⟩ := h.blocks
  obtain ⟨heap', hrun', hinv⟩ := (h.start.inv hfits).run ops
  cases hrun.symm.trans hrun'
  refine ⟨⟨allocated, _, Store.kept_of_empty hinv h.empty h.none⟩, fun g => ?_⟩
  rw [h.none]
  exact ⟨nofun, nofun, nofun, by decide⟩

/-- Every search of every group delivers exactly its range. -/
def Store.Proper (store : Store) : Prop :=
  ∀ (sorter : Sorter INDEXcompare) (g low high turns : Nat) (before : Found),
    (store.added g).length + 1 < turns →
    ∃ result, retrieve sorter turns store.volume (store.GROUPentries g) low high before =
      .ok (some result) ∧
      Exact (store.added g) low high result

theorem Store.Good.proper (h : store.Good) : store.Proper := by
  obtain ⟨⟨allocated, own, hkept⟩, hordinary⟩ := h
  intro sorter g low high turns before hturns
  obtain ⟨first, blocks, datas, entries, _, _, hcontent⟩ := hkept.groups g
  exact hcontent.retrieve_exact (hordinary g) sorter low high hturns before

/-- A search delivers exactly what was added, when each article may follow those before it. -/
theorem retrieved_proper (hfresh : Fresh heap store)
    (hfits : ∀ ovbuff ∈ heap.state.ovbufftab, ovbuff.index < 2 ^ 15 ∧ ovbuff.totalblk ≤ 2 ^ 31)
    (calls : List (Nat × Overview))
    (hmeets : Foundation.Runs.Meets Store.step Store.Allows calls store) :
    ∃ store', Foundation.Runs.run Store.step calls store = .ok store' ∧ store'.Proper := by
  have hstep (s : Store) (call : Nat × Overview) (hgood : s.Good) (hallows : s.Allows call) :
      ∃ s', s.step call = .ok s' ∧ s'.Good :=
    hgood.step hallows
  obtain ⟨store', hrun, hgood⟩ :=
    Foundation.Runs.run_invariant hstep calls hmeets (hfresh.good hfits)
  exact ⟨store', hrun, hgood.proper⟩

def oneStore (totalblk : Nat) : Store :=
  ⟨⟨(oneBuffer 1 totalblk).state, fun _ => .data fun _ => 0⟩,
    fun _ => ⟨0, 0, 0, ovnull, ovnull, 0, 0, 0, ovnull, 0⟩, fun _ => []⟩

theorem oneStore_fresh {totalblk : Nat} (hsmall : totalblk < 2 ^ 32) :
    Fresh (oneBuffer 1 totalblk) (oneStore totalblk) where
  start := oneBuffer_start 1 hsmall
  blocks := ⟨[], [], rfl⟩
  empty _ := ⟨rfl, rfl, rfl, rfl, rfl, rfl⟩
  none _ := rfl

def shortOverview (artnum : Nat) (data : List UInt8) : Overview :=
    ⟨artnum, OVINDEX.zero.token, data, 0, 0⟩

theorem oneStore_allows (totalblk : Nat) {o : Overview} (hpos : 0 < o.artnum) :
    (oneStore totalblk).Allows (0, o) := fun _ =>
  ⟨hpos, nofun, nofun, by change 0 + 1 < 2 ^ 31; decide⟩

theorem oneStore_allows_next {store' : Store}
    (hstep : (oneStore 4).step (0, shortOverview 7 [65]) = .ok store') :
    store'.Allows (0, shortOverview 5 [66]) := by
  rcases Store.step_added hstep with hsame | hnew
  · unfold Store.Allows
    rw [hsame]
    exact oneStore_allows 4 (by decide)
  · unfold Store.Allows
    rw [hnew]
    refine fun _ => ⟨by decide, fun o' ho' => ?_, fun o' ho' => ?_, by decide⟩
    · obtain rfl := mem_singleton.mp ho'
      exact ⟨fun _ => by decide, fun h => absurd h (by decide)⟩
    · obtain rfl := mem_singleton.mp ho'
      exact fun h => absurd h (by decide)

theorem two_articles_retrieved :
    ∃ store', Foundation.Runs.run Store.step [(0, shortOverview 7 [65]), (0, shortOverview 5 [66])]
      (oneStore 4) = .ok store' ∧
      store'.Proper := by
  refine retrieved_proper (oneStore_fresh (by decide)) (fun ovbuff h => ?_) _
    ⟨oneStore_allows 4 (by decide),
      fun store' hstep => ⟨oneStore_allows_next hstep, fun _ _ => trivial⟩⟩
  obtain rfl := mem_singleton.mp h
  exact ⟨by decide, by decide⟩

/-- Two numbers so far apart are taken in the wrong order. -/
theorem not_retrieved_proper :
    ¬∀ (heap : Heap) (store : Store), Fresh heap store →
      (∀ ovbuff ∈ heap.state.ovbufftab, ovbuff.index < 2 ^ 15 ∧ ovbuff.totalblk ≤ 2 ^ 31) →
        ∀ calls : List (Nat × Overview),
        ∃ store', Foundation.Runs.run Store.step calls store = .ok store' ∧ store'.Proper := by
  intro hall
  obtain ⟨store', hrun, hproper⟩ := hall _ _ (oneStore_fresh (show 4 < 2 ^ 32 by decide))
    (fun ovbuff h => by obtain rfl := mem_singleton.mp h; exact ⟨by decide, by decide⟩)
    [(0, shortOverview 1 [65]), (0, shortOverview (2 ^ 31 + 2) [66])]
  have hfound :
      (Foundation.Runs.run Store.step [(0, shortOverview 1 [65]),
        (0, shortOverview (2 ^ 31 + 2) [66])] (oneStore 4)).bind
      (fun store => (retrieve (inserting INDEXcompare) 5 store.volume (store.GROUPentries 0) 1
        (2 ^ 31 + 2) (OVINDEX.zero.found store.volume.disk)).map
        (Option.map (List.map Found.artnum))) = .ok (some [2 ^ 31 + 2, 1]) := by
    decide
  have hadded :
      (Foundation.Runs.run Store.step [(0, shortOverview 1 [65]),
        (0, shortOverview (2 ^ 31 + 2) [66])] (oneStore 4)).map
      (fun store => (store.added 0).length) = .ok 2 := by
    decide
  rw [hrun] at hfound hadded
  have hadded : (store'.added 0).length = 2 := Except.ok.inj hadded
  obtain ⟨result, hresult, hexact⟩ :=
    hproper (inserting INDEXcompare) 0 1 (2 ^ 31 + 2) 5 (OVINDEX.zero.found store'.volume.disk)
    (by rw [hadded]; decide)
  have hfound :
      (retrieve (inserting INDEXcompare) 5 store'.volume (store'.GROUPentries 0) 1 (2 ^ 31 + 2)
        (OVINDEX.zero.found store'.volume.disk)).map
      (Option.map (List.map Found.artnum)) = .ok (some [2 ^ 31 + 2, 1]) := hfound
  rw [hresult] at hfound
  have hnumbers : result.map Found.artnum = [2 ^ 31 + 2, 1] :=
    Option.some.inj (Except.ok.inj hfound)
  have hincreasing : (result.map Found.artnum).Pairwise (· < ·) :=
    List.pairwise_map.mpr hexact.increasing
  rw [hnumbers] at hincreasing
  exact absurd hincreasing (by decide)

end Runs

end Inn.Buffindexed
