import Inn.Buffindexed.BlockRuns
import Inn.Buffindexed.Overview

/-!
# Adding to the overview

The index blocks of a group are a chain that ends at the current one, and all but that one are full.
What an entry refers to lies in a data block of the group, in front of what is yet to be written.
-/

namespace Inn.Buffindexed

section Chain

variable {disk disk' : Disk} {cur ov new : OV} {offset : Nat} {blocks : List OV}
    {entries : List OVINDEX}

inductive Chain (disk : Disk) (cur : OV) (offset : Nat) : OV → List OV → List OVINDEX → Prop
  | last : cur.index ≠ NULLINDEX → (disk cur).ovindexhead.next = ovnull →
      Chain disk cur offset cur [cur] ((List.range offset).map (disk cur).ovindex)
  | next {ov : OV} {blocks : List OV} {entries : List OVINDEX} : ov ≠ cur → ov.index ≠ NULLINDEX →
      Chain disk cur offset (disk ov).ovindexhead.next blocks entries →
      Chain disk cur offset ov (ov :: blocks)
        ((List.range OVINDEXMAX).map (disk ov).ovindex ++ entries)

section Chaining

variable (h : Chain disk cur offset ov blocks entries)

include h

theorem Chain.first_ne : ov.index ≠ NULLINDEX := by
  cases h with
  | last hcur _ => exact hcur
  | next _ hov _ => exact hov

theorem Chain.cur_mem : cur ∈ blocks := by
  induction h with
  | last => exact List.mem_singleton.mpr rfl
  | next _ _ _ ih => exact List.mem_cons_of_mem _ ih

theorem Chain.length_le : blocks.length ≤ entries.length + 1 := by
  induction h with
  | last => exact Nat.le_add_left _ _
  | next _ _ _ ih =>
    rw [List.length_cons, List.length_append, List.length_map, List.length_range,
      OVINDEXMAX, OV_BLOCKSIZE]
    omega

theorem Chain.congr (hsame : ∀ b ∈ blocks, disk' b = disk b) :
    Chain disk' cur offset ov blocks entries := by
  induction h with
  | last hcur hnext =>
    have hlast := hsame cur (List.mem_singleton.mpr rfl)
    rw [← hlast] at hnext ⊢
    exact .last hcur hnext
  | @next ov blocks entries hne hov _ ih =>
    have hfirst := hsame ov List.mem_cons_self
    have hrest := ih fun b hb => hsame b (List.mem_cons_of_mem _ hb)
    rw [← hfirst] at hrest ⊢
    exact .next hne hov hrest

theorem Chain.addEntry {ie : OVINDEX} (hsame : ∀ b ∈ blocks, b ≠ cur → disk' b = disk b)
    (hnext : (disk' cur).ovindexhead.next = ovnull)
    (hentry : (disk' cur).ovindex = Function.update (disk cur).ovindex offset ie) :
    Chain disk' cur (offset + 1) ov blocks (entries ++ [ie]) := by
  induction h with
  | last hcur _ =>
    have hentries : (List.range offset).map (disk cur).ovindex ++ [ie] =
        (List.range (offset + 1)).map (disk' cur).ovindex := by
      rw [hentry, List.range_succ, List.map_append, List.map_singleton, Function.update_self]
      congr 1
      refine List.map_congr_left fun i hi => (Function.update_of_ne ?_ _ _).symm
      exact Nat.ne_of_lt (List.mem_range.mp hi)
    rw [hentries]
    exact .last hcur hnext
  | @next ov blocks entries hne hov _ ih =>
    have hfirst := hsame ov List.mem_cons_self hne
    have hrest := ih fun b hb => hsame b (List.mem_cons_of_mem _ hb)
    rw [List.append_assoc]
    rw [← hfirst] at hrest ⊢
    exact .next hne hov hrest

end Chaining

theorem Chain.addBlock (h : Chain disk cur OVINDEXMAX ov blocks entries) (hnew : new ∉ blocks)
    (hindex : new.index ≠ NULLINDEX)
    (hsame : ∀ b ∈ blocks, b ≠ cur → disk' b = disk b) (hnext : (disk' cur).ovindexhead.next = new)
    (hentries : (disk' cur).ovindex = (disk cur).ovindex)
    (hend : (disk' new).ovindexhead.next = ovnull) :
    Chain disk' new 0 ov (blocks ++ [new]) entries := by
  -- the chain is built up from its new end
  have hlast : Chain disk' new 0 new [new] [] := .last hindex hend
  induction h with
  | last hcur _ =>
    have hne : cur ≠ new := fun heq => hnew (List.mem_singleton.mpr heq.symm)
    rw [← hnext] at hlast
    rw [← hentries, ← List.append_nil (List.map _ _)]
    exact hnext ▸ Chain.next (hnext ▸ hne) hcur hlast
  | @next ov blocks entries hne hov _ ih =>
    have hfirst := hsame ov List.mem_cons_self hne
    have hrest := ih (fun hb => hnew (List.mem_cons_of_mem _ hb)) fun b hb =>
      hsame b (List.mem_cons_of_mem _ hb)
    have hov' : ov ≠ new := fun heq => hnew (heq ▸ List.mem_cons_self)
    rw [← hfirst] at hrest ⊢
    exact .next hov' hov hrest

theorem Chain.collect_eq {v : Volume} {ge : GROUPENTRY}
    (h : Chain v.disk ge.curindex ge.curindexoffset ov blocks entries)
    (hfound : ∀ b ∈ blocks, v.state.getovbuff b ≠ none) {turns : Nat}
    (hturns : blocks.length < turns) :
    collect v ge turns ov = .ok (some (blocks.reverse, entries)) := by
  induction h generalizing turns with
  | last hcur hnext =>
    obtain ⟨turns, rfl⟩ : ∃ n, turns = n + 2 :=
      ⟨turns - 2, by rw [List.length_singleton] at hturns; omega⟩
    have hend : collect v ge (turns + 1) ovnull = .ok (some ([], [])) := if_pos rfl
    rw [collect, if_neg hcur, if_neg (hfound _ (List.mem_singleton.mpr rfl)), hnext, hend]
    dsimp only
    rw [if_pos ⟨rfl, rfl⟩, List.append_nil]
    rfl
  | @next ov blocks entries hne hov _ ih =>
    obtain ⟨turns, rfl⟩ : ∃ n, turns = n + 1 := ⟨turns - 1, by omega⟩
    -- a block that is not the current one is full
    have hother : ¬(ov.index = ge.curindex.index ∧ ov.blocknum = ge.curindex.blocknum) := by
      rintro ⟨hindex, hnum⟩
      generalize ge.curindex = cur at hne hindex hnum
      cases ov
      cases cur
      cases hindex
      cases hnum
      exact hne rfl
    rw [collect, if_neg hov, if_neg (hfound _ List.mem_cons_self), if_neg hother,
      ih (fun b hb => hfound b (List.mem_cons_of_mem _ hb)) (Nat.lt_of_succ_lt_succ hturns),
        List.reverse_cons]

end Chain

section Allocation

variable {v : Volume} {allocated : List OV} {ov : OV}

theorem Inv.index_ne {s : State} (hinv : Inv ⟨s, allocated⟩) (hov : ov ∈ allocated) :
    ov.index ≠ NULLINDEX := by
  obtain ⟨k, ovbuff, _, hindex, _⟩ := (hinv.allocated ov).mp hov
  rw [hindex]
  exact Ne.symm (Int.ne_of_lt
    (Int.lt_of_lt_of_le (by decide : NULLINDEX < 0) (Int.natCast_nonneg _)))

theorem Inv.getovbuff_ne {s : State} (hinv : Inv ⟨s, allocated⟩) (hov : ov ∈ allocated) :
    s.getovbuff ov ≠ none := by
  obtain ⟨k, ovbuff, hk, hindex, _⟩ := (hinv.allocated ov).mp hov
  rw [getovbuff_eq hinv hk hindex]
  exact Option.some_ne_none _

theorem occupied_eq (hinv : Inv ⟨v.state, allocated⟩) (hov : ov ∈ allocated) :
    v.occupied ov = .ok (some v) := by
  obtain ⟨k, ovbuff, hk, hindex, htotal, hbit⟩ := (hinv.allocated ov).mp hov
  have hfew := htotal.trans_le (hinv.sound ovbuff (List.mem_of_getElem? hk)).few
  unfold Volume.occupied
  rw [getovbuff_eq hinv hk hindex]
  dsimp only
  rw [ovusedblock_eq hfew, hbit]

theorem newBlock_eq (hinv : Inv ⟨v.state, allocated⟩) :
    v.newBlock = .ok (none, v) ∨ ∃ ov s', v.newBlock = .ok (some ov, { v with state := s' }) ∧
      ov ∉ allocated ∧ Inv ⟨s', ov :: allocated⟩ := by
  unfold Volume.newBlock
  rcases hinv.ovblocknew with ⟨hnew, _⟩ | ⟨ov, s', hnew, hindex, hnot, _, hinv'⟩
  · rw [hnew]
    exact .inl rfl
  · rw [hnew]
    dsimp only
    rw [if_neg (not_or.mpr ⟨hindex, hinv'.getovbuff_ne List.mem_cons_self⟩)]
    exact .inr ⟨ov, s', rfl, hnot, hinv'⟩

end Allocation

end Inn.Buffindexed
