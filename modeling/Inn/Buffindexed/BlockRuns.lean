import Inn.Buffindexed.Blocks
import Inn.Foundation.Runs

/-!
# Giving out and freeing blocks

The counts of the buffers agree with their bits, whatever blocks are given out and freed, as long as
the indexes of the buffers are such as a `short` can hold and no buffer has more blocks than an
`int` can number.
-/

namespace Inn.Buffindexed

open Foundation.Bitmap

section Buffers

variable {ovbuff after : OVBUFF} {n m : Nat}

def OVBUFF.Free (ovbuff : OVBUFF) : Prop :=
  (ovbuff.freeblk = ovbuff.totalblk ∧ ∀ n < ovbuff.totalblk, bit ovbuff.bitfield n = true) ∨
    (ovbuff.freeblk < ovbuff.totalblk ∧ bit ovbuff.bitfield ovbuff.freeblk = false)

def OVBUFF.Bounded (ovbuff : OVBUFF) : Prop :=
    ∀ n, ovbuff.totalblk ≤ n → bit ovbuff.bitfield n = false

/-- The count of a buffer and its free block agree with its bits. -/
structure Sound (ovbuff : OVBUFF) : Prop where
  few : ovbuff.totalblk ≤ 2 ^ 31
  bounded : ovbuff.Bounded
  used : ovbuff.usedblk = (ones ovbuff.bitfield ovbuff.totalblk).card
  free : ovbuff.Free

theorem ovusedblock_eq (hn : n < 2 ^ 31) : ovbuff.ovusedblock n = .ok (bit ovbuff.bitfield n) := by
  unfold OVBUFF.ovusedblock
  rw [if_neg (Nat.not_le.mpr hn)]
  refine congrArg Except.ok ?_
  unfold onarray bit
  have hmask : ovbuff.bitfield (n / 64) &&& mask 64 (n % 64) = 0#64 ↔
      (ovbuff.bitfield (n / 64)).getMsbD (n % 64) = false :=
    and_mask_eq_zero (Nat.mod_lt n (by decide))
  cases hbit : (ovbuff.bitfield (n / 64)).getMsbD (n % 64) with
  | false => exact decide_eq_false (not_not.mpr (hmask.mpr hbit))
  | true => exact decide_eq_true fun h => by rw [hmask.mp h] at hbit; cases hbit

theorem setUsed_eq (ovbuff : OVBUFF) (hn : n < 2 ^ 31) (b : Bool) :
    ∃ bitfield, ovbuff.setUsed n b = .ok { ovbuff with bitfield := bitfield } ∧
      ∀ m, bit bitfield m = if m = n then b else bit ovbuff.bitfield m := by
  unfold OVBUFF.setUsed
  rw [if_neg (Nat.not_le.mpr hn)]
  refine ⟨_, rfl, fun m => ?_⟩
  cases b with
  | true => exact bit_set (by decide)
  | false => exact bit_clear (by decide)

theorem bit_eq (table : Nat → ULONG) (n : Nat) :
    bit table n = (table (n / 64)).getMsbD (n % 64) := rfl

theorem ovnextblock_free (hbounded : ovbuff.Bounded) :
    ∃ freeblk, ovbuff.ovnextblock = { ovbuff with freeblk := freeblk } ∧
      ({ ovbuff with freeblk := freeblk } : OVBUFF).Free := by
  obtain ⟨index, totalblk, bitfield, freeblk, usedblk⟩ := ovbuff
  unfold OVBUFF.Bounded at hbounded
  unfold OVBUFF.ovnextblock OVBUFF.Free
  dsimp only at hbounded ⊢
  generalize hlast : totalblk / 64 + (if totalblk % 64 ≠ 0 then 1 else 0) = last
  have hlast : totalblk / 64 ≤ last ∧ last ≤ totalblk / 64 + 1 ∧ totalblk ≤ last * 64 ∧
      (totalblk % 64 ≠ 0 → last = totalblk / 64 + 1) := by
    split at hlast <;> omega
  split
  next hall =>
    refine ⟨_, rfl, .inl ⟨rfl, fun n hn => ?_⟩⟩
    have hword := List.find?_range_eq_none.mp hall (n / 64) (by omega)
    rw [Bool.not_eq_true', decide_eq_false_iff_not, not_not] at hword
    rw [bit_eq]
    exact eq_allOnes_iff.mp hword _ (Nat.mod_lt n (by decide))
  next i hfirst =>
    obtain ⟨hnotAll, hi, hbefore⟩ := List.find?_range_eq_some.mp hfirst
    rw [List.mem_range] at hi
    have hfull : ∀ n, n / 64 < i → bit bitfield n = true := by
      intro n hn
      have hword := hbefore (n / 64) hn
      rw [Bool.not_eq_true', decide_eq_false_iff_not, not_not] at hword
      exact eq_allOnes_iff.mp hword _ (Nat.mod_lt n (by decide))
    have hmask {j : Nat} (hj : j < 64) : bitfield i &&& mask 64 j = 0#64 ↔
        (bitfield i).getMsbD j = false := and_mask_eq_zero hj
    generalize hlastbit :
      (if 1 ≤ i ∧ last - 1 = i ∧ totalblk % 64 ≠ 0 then totalblk % 64 else 64) = lastbit
    -- in the last word there are bits without blocks, which are looked at where it is the only one
    have hlastbit : lastbit = 64 ∨ (lastbit = totalblk % 64 ∧ i = totalblk / 64) := by
      split at hlastbit
      next hcond => exact .inr ⟨hlastbit.symm, by omega⟩
      next => exact .inl hlastbit.symm
    split
    next hall =>
      refine ⟨_, rfl, .inl ⟨rfl, fun n hn => ?_⟩⟩
      have hset {j : Nat} (hlt : j < lastbit) (hj : j < 64) : (bitfield i).getMsbD j = true := by
        have := List.find?_range_eq_none.mp hall j hlt
        rw [Bool.not_eq_true', decide_eq_false_iff_not] at this
        exact (Bool.not_eq_false _).mp (mt (hmask hj).mpr this)
      rcases hlastbit with rfl | ⟨rfl, rfl⟩
      · exact absurd (eq_allOnes_iff.mpr fun j hj => hset hj hj) (of_decide_eq_true hnotAll)
      · by_cases hword : n / 64 < totalblk / 64
        · exact hfull n hword
        · have hplace : n / 64 = totalblk / 64 := by omega
          rw [bit_eq, hplace]
          exact hset (by omega) (Nat.mod_lt n (by decide))
    next j hfound =>
      obtain ⟨hclear, hj, hset⟩ := List.find?_range_eq_some.mp hfound
      rw [List.mem_range] at hj
      have hj64 : j < 64 := by omega
      have hclear : bit bitfield (i * 64 + j) = false := by
        rw [bit_word hj64]
        exact (hmask hj64).mp (of_decide_eq_true hclear)
      have hset {k : Nat} (hk : k < j) : bit bitfield (i * 64 + k) = true := by
        have := hset k hk
        rw [Bool.not_eq_true', decide_eq_false_iff_not] at this
        rw [bit_word (hk.trans hj64)]
        exact (Bool.not_eq_false _).mp (mt (hmask (hk.trans hj64)).mpr this)
      refine ⟨_, rfl, ?_⟩
      by_cases hlt : i * 64 + j < totalblk
      · exact .inr ⟨hlt, hclear⟩
      · -- the first bit that is clear is the one behind the last block
        have hend : i * 64 + j = totalblk := by
          by_contra hne
          have hbehind := hset (k := totalblk - i * 64) (by omega)
          rw [show i * 64 + (totalblk - i * 64) =
            totalblk by omega, hbounded totalblk (Nat.le_refl _)] at hbehind
          cases hbehind
        refine .inl ⟨hend, fun n hn => ?_⟩
        by_cases hword : n / 64 < i
        · exact hfull n hword
        · have hbefore := hset (k := n - i * 64) (by omega)
          rwa [show i * 64 + (n - i * 64) = n by omega] at hbefore

theorem Sound.full_iff (hsound : Sound ovbuff) :
    ovbuff.full = true ↔ ∀ n < ovbuff.totalblk, bit ovbuff.bitfield n = true := by
  unfold OVBUFF.full
  rw [decide_eq_true_eq, hsound.used, eq_comm, ones_card_eq]
  constructor
  · rintro (hall | hfree)
    · exact hall
    · rcases hsound.free with ⟨_, hall⟩ | ⟨hlt, _⟩
      · exact hall
      · exact absurd hfree (Nat.ne_of_lt hlt)
  · exact Or.inl

theorem Sound.look_eq (hsound : Sound ovbuff) : ovbuff.look = ovbuff := by
  unfold OVBUFF.look
  refine if_neg ?_
  rintro ⟨hused, hfree⟩
  rcases hsound.free with ⟨_, hall⟩ | ⟨hlt, _⟩
  · exact hused (hsound.used.trans (ones_card_eq.mpr hall)).symm
  · exact Nat.ne_of_lt hlt hfree

structure Changed (ovbuff after : OVBUFF) (n : Nat) (b : Bool) : Prop where
  index : after.index = ovbuff.index
  totalblk : after.totalblk = ovbuff.totalblk
  bits : ∀ m, bit after.bitfield m = if m = n then b else bit ovbuff.bitfield m

theorem Sound.occupy (hsound : Sound ovbuff) (hspace : ovbuff.full = false) :
    ovbuff.freeblk < ovbuff.totalblk ∧ bit ovbuff.bitfield ovbuff.freeblk = false ∧
      ∃ after, ovbuff.occupy = .ok (true, after) ∧ Sound after ∧
        Changed ovbuff after ovbuff.freeblk true := by
  rcases hsound.free with ⟨_, hall⟩ | ⟨hlt, hclear⟩
  · rw [hsound.full_iff.mpr hall] at hspace
    cases hspace
  · refine ⟨hlt, hclear, ?_⟩
    have hfew : ovbuff.freeblk < 2 ^ 31 := hlt.trans_le hsound.few
    obtain ⟨bitfield, hset, hbits⟩ := setUsed_eq ovbuff hfew true
    have hbounded : ({ ovbuff with bitfield := bitfield } : OVBUFF).Bounded := by
      intro n hn
      rw [hbits, if_neg (Nat.ne_of_gt (hlt.trans_le hn))]
      exact hsound.bounded n hn
    obtain ⟨freeblk, hnext, hfree⟩ := ovnextblock_free hbounded
    have hcard := ones_set hlt hclear hbits
    have hle := ones_card_le bitfield ovbuff.totalblk
    have hfewer := hsound.few
    refine ⟨⟨ovbuff.index, ovbuff.totalblk, bitfield, freeblk, (ovbuff.usedblk + 1) % 2 ^ 32⟩, ?_,
      ⟨hsound.few, hbounded, ?_, hfree⟩, ⟨rfl, rfl, hbits⟩⟩
    · unfold OVBUFF.occupy
      rw [ovusedblock_eq hfew, hset]
      dsimp only
      rw [hnext, hclear]
      rfl
    · change (ovbuff.usedblk + 1) % 2 ^ 32 = (ones bitfield ovbuff.totalblk).card
      rw [hsound.used, ← hcard]
      exact Nat.mod_eq_of_lt (by omega)

theorem Sound.release (hsound : Sound ovbuff) (hn : n < ovbuff.totalblk)
    (hused : bit ovbuff.bitfield n = true) :
    ∃ bitfield, ovbuff.setUsed n false = .ok { ovbuff with bitfield := bitfield } ∧
      let after : OVBUFF :=
        { ovbuff with
          bitfield := bitfield
          freeblk := if ovbuff.freeblk = ovbuff.totalblk then n else ovbuff.freeblk
          usedblk := (ovbuff.usedblk + (2 ^ 32 - 1)) % 2 ^ 32 }
      Sound after ∧ Changed ovbuff after n false := by
  have hfew : n < 2 ^ 31 := hn.trans_le hsound.few
  obtain ⟨bitfield, hset, hbits⟩ := setUsed_eq ovbuff hfew false
  refine ⟨bitfield, hset, ⟨hsound.few, fun m hm => ?_, ?_, ?_⟩, ⟨rfl, rfl, hbits⟩⟩
  · change bit bitfield m = false
    rw [hbits]
    split
    · rfl
    · exact hsound.bounded m hm
  · change (ovbuff.usedblk + (2 ^ 32 - 1)) % 2 ^ 32 = (ones bitfield ovbuff.totalblk).card
    have hcard := ones_clear hn hused hbits
    have hle := ones_card_le ovbuff.bitfield ovbuff.totalblk
    have hfewer := hsound.few
    rw [hsound.used]
    omega
  · unfold OVBUFF.Free
    have hclear : bit bitfield n = false := by rw [hbits, if_pos rfl]
    rcases hsound.free with ⟨hnone, _⟩ | ⟨hlt, hfree⟩
    · rw [if_pos hnone]
      exact .inr ⟨hn, hclear⟩
    · rw [if_neg (Nat.ne_of_lt hlt)]
      refine .inr ⟨hlt, ?_⟩
      rw [hbits]
      split
      · rfl
      · exact hfree

end Buffers

section Tables

variable {s : State} {k : Nat} {ovbuff after : OVBUFF} {allocated : List OV}

def State.InUse (s : State) (ov : OV) : Prop :=
  ∃ (k : Nat) (ovbuff : OVBUFF), s.ovbufftab[k]? = some ovbuff ∧ ov.index = ovbuff.index ∧
    ov.blocknum < ovbuff.totalblk ∧ bit ovbuff.bitfield ov.blocknum = true

/-- The blocks given out are those in use. -/
structure Inv (heap : Heap) : Prop where
  sound : ∀ ovbuff ∈ heap.state.ovbufftab, Sound ovbuff
  short : ∀ ovbuff ∈ heap.state.ovbufftab, ovbuff.index < 2 ^ 15
  distinct : (heap.state.ovbufftab.map OVBUFF.index).Nodup
  next : heap.state.ovbuffnext ≤ heap.state.ovbufftab.length
  once : heap.allocated.Nodup
  allocated : ∀ ov, ov ∈ heap.allocated ↔ heap.state.InUse ov

theorem index_inj (hdistinct : (s.ovbufftab.map OVBUFF.index).Nodup) {k' : Nat} {other : OVBUFF}
    (hk : s.ovbufftab[k]? = some ovbuff) (hk' : s.ovbufftab[k']? = some other)
    (hindex : ovbuff.index = other.index) : k = k' := by
  have hlt := (List.getElem?_eq_some_iff.mp hk).1
  refine (List.getElem?_inj (by rw [List.length_map]; exact hlt) hdistinct).mp ?_
  rw [List.getElem?_map, List.getElem?_map, hk, hk', Option.map_some, Option.map_some, hindex]

theorem inUse_set (hdistinct : (s.ovbufftab.map OVBUFF.index).Nodup)
    (hk : s.ovbufftab[k]? = some ovbuff) {n next : Nat} {b : Bool}
    (hn : n < ovbuff.totalblk) (hchanged : Changed ovbuff after n b) (ov : OV) :
    State.InUse ⟨s.ovbufftab.set k after, next⟩ ov ↔
      if ov = ⟨n, ovbuff.index⟩ then b = true else s.InUse ov := by
  have hlt := (List.getElem?_eq_some_iff.mp hk).1
  have hsame : (s.ovbufftab.set k after)[k]? = some after := List.getElem?_set_self hlt
  obtain ⟨blocknum, index⟩ := ov
  unfold State.InUse
  split
  next hov =>
    obtain ⟨rfl, rfl⟩ := OV.mk.inj hov
    constructor
    · rintro ⟨k', other, hk', hindex, _, hbit⟩
      rw [List.getElem?_set] at hk'
      split at hk'
      next heq =>
        cases hk'
        rw [hchanged.bits, if_pos rfl] at hbit
        exact hbit
      next hne => exact absurd (index_inj hdistinct hk hk' (Int.ofNat.inj hindex)) hne
    · rintro rfl
      refine ⟨k, after, hsame, ?_, ?_, ?_⟩
      · rw [hchanged.index]
      · rw [hchanged.totalblk]
        exact hn
      · rw [hchanged.bits, if_pos rfl]
  next hov =>
    have hblock (h : index = (ovbuff.index : Int)) : blocknum ≠ n := fun hne => hov (by rw [hne, h])
    constructor
    · rintro ⟨k', other, hk', hindex, htotal, hbit⟩
      rw [List.getElem?_set] at hk'
      split at hk'
      next heq =>
        cases hk'
        rw [hchanged.index] at hindex
        rw [hchanged.totalblk] at htotal
        rw [hchanged.bits, if_neg (hblock hindex)] at hbit
        exact ⟨k, ovbuff, hk, hindex, htotal, hbit⟩
      next hne => exact ⟨k', other, hk', hindex, htotal, hbit⟩
    · rintro ⟨k', other, hk', hindex, htotal, hbit⟩
      by_cases hkk : k = k'
      · subst hkk
        cases hk.symm.trans hk'
        refine ⟨k, after, hsame, ?_, ?_, ?_⟩
        · rw [hchanged.index]
          exact hindex
        · rw [hchanged.totalblk]
          exact htotal
        · rw [hchanged.bits, if_neg (hblock hindex)]
          exact hbit
      · refine ⟨k', other, ?_, hindex, htotal, hbit⟩
        rw [List.getElem?_set_ne hkk]
        exact hk'

theorem Inv.set (hinv : Inv ⟨s, allocated⟩) (hk : s.ovbufftab[k]? = some ovbuff) {n next : Nat}
    {b : Bool} {allocated' : List OV}
    (hn : n < ovbuff.totalblk) (hsound : Sound after) (hchanged : Changed ovbuff after n b)
    (hnext : next ≤ s.ovbufftab.length) (honce : allocated'.Nodup)
    (hallocated : ∀ ov, ov ∈ allocated' ↔
      if ov = ⟨n, ovbuff.index⟩ then b = true else ov ∈ allocated) :
    Inv ⟨⟨s.ovbufftab.set k after, next⟩, allocated'⟩ where
  sound other hother := by
    rcases List.mem_or_eq_of_mem_set hother with h | rfl
    · exact hinv.sound other h
    · exact hsound
  short other hother := by
    rcases List.mem_or_eq_of_mem_set hother with h | rfl
    · exact hinv.short other h
    · rw [hchanged.index]
      exact hinv.short ovbuff (List.mem_of_getElem? hk)
  distinct := by
    have hmap : (s.ovbufftab.set k after).map OVBUFF.index = s.ovbufftab.map OVBUFF.index := by
      obtain ⟨hlt, rfl⟩ := List.getElem?_eq_some_iff.mp hk
      have hlt' : k < (s.ovbufftab.map OVBUFF.index).length := by rwa [List.length_map]
      rw [List.map_set, hchanged.index, ← List.getElem_map OVBUFF.index (h := hlt')]
      exact List.set_getElem_self hlt'
    change ((s.ovbufftab.set k after).map OVBUFF.index).Nodup
    rw [hmap]
    exact hinv.distinct
  next := by
    change next ≤ (s.ovbufftab.set k after).length
    rw [List.length_set]
    exact hnext
  once := honce
  allocated ov := by
    rw [hallocated, inUse_set hinv.distinct hk hn hchanged]
    split
    · exact Iff.rfl
    · exact hinv.allocated ov

theorem findSpace_some (hsound : ∀ ovbuff ∈ s.ovbufftab, Sound ovbuff)
    (hfound : s.findSpace = some (k, ovbuff)) :
    s.ovbufftab[k]? = some ovbuff ∧ ovbuff.full = false := by
  have hlook {other : OVBUFF} {k' : Nat} (hother : s.ovbufftab[k']? = some other) :
      other.look = other :=
    (hsound other (List.mem_of_getElem? hother)).look_eq
  unfold State.findSpace at hfound
  dsimp only at hfound
  split at hfound
  next first h =>
    cases hfound
    obtain ⟨k', _, hk'⟩ := List.exists_of_findSome?_eq_some h
    obtain ⟨other, hother, hfull⟩ := Option.bind_eq_some_iff.mp hk'
    rw [hlook hother] at hfull
    split at hfull
    · cases hfull
    next hspace =>
      cases hfull
      exact ⟨hother, Bool.eq_false_iff.mpr hspace⟩
  next =>
    obtain ⟨k', _, hk'⟩ := List.exists_of_findSome?_eq_some hfound
    obtain ⟨other, hother, hfull⟩ := Option.bind_eq_some_iff.mp hk'
    split at hfull
    · cases hfull
    next hspace =>
      cases hfull
      exact ⟨hother, Bool.eq_false_iff.mpr hspace⟩

theorem findSpace_none (hsound : ∀ ovbuff ∈ s.ovbufftab, Sound ovbuff) (hnone : s.findSpace = none)
    (hk : s.ovbufftab[k]? = some ovbuff) :
    ovbuff.full = true := by
  have hlt := (List.getElem?_eq_some_iff.mp hk).1
  have hlook : ovbuff.look = ovbuff := (hsound ovbuff (List.mem_of_getElem? hk)).look_eq
  unfold State.findSpace at hnone
  dsimp only at hnone
  split at hnone
  next => cases hnone
  next hfirst =>
    have hmem : k ∈ (List.range s.ovbufftab.length).drop s.ovbuffnext ∨
        k ∈ (List.range s.ovbufftab.length).take s.ovbuffnext := by
      have hrange := List.mem_range.mpr hlt
      rw [← List.take_append_drop s.ovbuffnext (List.range _), List.mem_append] at hrange
      exact hrange.symm
    by_contra hspace
    rcases hmem with hmem | hmem
    · have h := List.findSome?_eq_none_iff.mp hfirst k hmem
      rw [hk, Option.bind_some, hlook, if_neg hspace] at h
      cases h
    · have h := List.findSome?_eq_none_iff.mp hnone k hmem
      rw [hk, Option.bind_some, if_neg hspace] at h
      cases h

theorem toShort_eq {n : Nat} (hn : n < 2 ^ 15) : toShort n = n := by
  unfold toShort
  rw [Int.bmod_eq_of_le_mul_two] <;> omega

theorem Inv.ovblocknew (hinv : Inv ⟨s, allocated⟩) :
    (s.ovblocknew = .ok (ovnull, s) ∧ ∀ ovbuff ∈ s.ovbufftab, ∀ n < ovbuff.totalblk,
      bit ovbuff.bitfield n = true) ∨
      ∃ ov s', s.ovblocknew = .ok (ov, s') ∧ ov.index ≠ NULLINDEX ∧ ov ∉ allocated ∧ ¬s.InUse ov ∧
        Inv ⟨s', ov :: allocated⟩ := by
  unfold State.ovblocknew State.takeBlock
  cases hfound : s.findSpace with
  | none =>
    refine .inl ⟨rfl, fun ovbuff hovbuff => ?_⟩
    obtain ⟨k, hk⟩ := List.mem_iff_getElem?.mp hovbuff
    exact (hinv.sound ovbuff hovbuff).full_iff.mp (findSpace_none hinv.sound hfound hk)
  | some found =>
    obtain ⟨k, ovbuff⟩ := found
    obtain ⟨hk, hspace⟩ := findSpace_some hinv.sound hfound
    have hmem := List.mem_of_getElem? hk
    obtain ⟨hlt, hclear, after, hoccupy, hsound, hchanged⟩ := (hinv.sound ovbuff hmem).occupy hspace
    dsimp only
    rw [hoccupy]
    dsimp only
    rw [if_pos rfl, toShort_eq (hinv.short ovbuff hmem)]
    have hunused : ¬s.InUse ⟨ovbuff.freeblk, ovbuff.index⟩ := by
      rintro ⟨k', other, hk', hindex, _, hbit⟩
      obtain rfl := index_inj hinv.distinct hk hk' (Int.ofNat.inj hindex)
      obtain rfl := Option.some.inj (hk.symm.trans hk')
      rw [hclear] at hbit
      cases hbit
    have hnew : (⟨ovbuff.freeblk, ovbuff.index⟩ : OV) ∉ allocated :=
      fun h => hunused ((hinv.allocated _).mp h)
    refine .inr ⟨_, _, rfl, ?_, hnew, hunused, ?_⟩
    · intro h
      have hnonneg := Int.natCast_nonneg ovbuff.index
      rw [show (ovbuff.index : Int) = NULLINDEX from h] at hnonneg
      exact absurd hnonneg (by decide)
    · refine hinv.set hk hlt hsound hchanged ?_ (List.nodup_cons.mpr ⟨hnew, hinv.once⟩) fun ov => ?_
      · have hklt := (List.getElem?_eq_some_iff.mp hk).1
        split <;> omega
      · rw [List.mem_cons]
        split
        next h => exact ⟨fun _ => rfl, fun _ => .inl h⟩
        next h => exact ⟨fun hov => hov.resolve_left h, .inr⟩

theorem getovbuff_eq (hinv : Inv ⟨s, allocated⟩) (hk : s.ovbufftab[k]? = some ovbuff) {ov : OV}
    (hindex : ov.index = ovbuff.index) :
    s.getovbuff ov = some (k, ovbuff) := by
  have hmod : ov.index % 2 ^ 32 = ov.index := by
    have hshort := hinv.short ovbuff (List.mem_of_getElem? hk)
    rw [hindex]
    exact Int.emod_eq_of_lt (by omega) (by omega)
  unfold State.getovbuff
  rw [hmod]
  cases hfound : (List.range s.ovbufftab.length).findSome? fun k =>
      s.ovbufftab[k]?.bind fun ovbuff => if (ovbuff.index : Int) = ov.index then some (k,
        ovbuff) else none with
  | none =>
    have h :=
      List.findSome?_eq_none_iff.mp hfound k
      (List.mem_range.mpr (List.getElem?_eq_some_iff.mp hk).1)
    rw [hk, Option.bind_some, if_pos hindex.symm] at h
    cases h
  | some found =>
    obtain ⟨k', _, hk'⟩ := List.exists_of_findSome?_eq_some hfound
    obtain ⟨other, hother, hsame⟩ := Option.bind_eq_some_iff.mp hk'
    split at hsame
    next h =>
      cases hsame
      obtain rfl := index_inj hinv.distinct hk hother (Int.ofNat.inj (hindex.symm.trans h.symm))
      cases hk.symm.trans hother
      rfl
    next => cases hsame

theorem Inv.ovblockfree (hinv : Inv ⟨s, allocated⟩) {ov : OV} (hov : ov ∈ allocated) :
    ∃ s', s.ovblockfree ov = .ok s' ∧ Inv ⟨s', allocated.erase ov⟩ := by
  obtain ⟨k, ovbuff, hk, hindex, htotal, hbit⟩ := (hinv.allocated ov).mp hov
  obtain ⟨bitfield, hset, hsound, hchanged⟩ :=
    (hinv.sound ovbuff (List.mem_of_getElem? hk)).release htotal hbit
  have hnonnull : ov.index ≠ NULLINDEX := by
    intro h
    have hnonneg := Int.natCast_nonneg ovbuff.index
    rw [← hindex, h] at hnonneg
    exact absurd hnonneg (by decide)
  unfold State.ovblockfree
  rw [if_neg hnonnull, getovbuff_eq hinv hk hindex]
  dsimp only
  rw [hset]
  refine ⟨_, rfl, hinv.set hk htotal hsound hchanged hinv.next (hinv.once.erase ov) fun ov' => ?_⟩
  have hsame : (⟨ov.blocknum, ovbuff.index⟩ : OV) = ov := by rw [← hindex]
  rw [hsame, hinv.once.mem_erase_iff]
  split
  next h => exact ⟨fun h' => absurd h h'.1, nofun⟩
  next h => exact ⟨And.right, fun h' => ⟨h, h'⟩⟩

end Tables

section Runs

variable {heap : Heap}

/-- No block is given out twice, and none is refused while one is free. -/
structure Proper (heap : Heap) : Prop where
  used : ∀ ovbuff ∈ heap.state.ovbufftab,
    ovbuff.usedblk = (ones ovbuff.bitfield ovbuff.totalblk).card
  free : ∀ ovbuff ∈ heap.state.ovbufftab, ovbuff.freeblk = ovbuff.totalblk ∨
    (ovbuff.freeblk < ovbuff.totalblk ∧ bit ovbuff.bitfield ovbuff.freeblk = false)
  given : ∀ ov s, heap.state.ovblocknew = .ok (ov, s) → ov.index ≠ NULLINDEX →
    ov ∉ heap.allocated ∧ ¬heap.state.InUse ov
  refused : ∀ ov s, heap.state.ovblocknew = .ok (ov, s) → ov.index = NULLINDEX →
    ∀ ovbuff ∈ heap.state.ovbufftab, ∀ n < ovbuff.totalblk,
      (⟨n, ovbuff.index⟩ : OV) ∈ heap.allocated

theorem Initialized.sound {ovbuff : OVBUFF} (hinit : Initialized ovbuff)
    (hfew : ovbuff.totalblk ≤ 2 ^ 31) : Sound ovbuff := by
  have hbits (n : Nat) : bit ovbuff.bitfield n = false := by
    rw [hinit.bitfield]
    exact BitVec.getMsbD_zero
  refine ⟨hfew, fun n _ => hbits n, ?_, ?_⟩
  · rw [hinit.usedblk, eq_comm, Finset.card_eq_zero]
    refine Finset.filter_eq_empty_iff.mpr fun n _ => ?_
    rw [hbits]
    exact Bool.false_ne_true
  · unfold OVBUFF.Free
    rw [hinit.freeblk, hbits]
    rcases Nat.eq_zero_or_pos ovbuff.totalblk with hzero | hpos
    · rw [hzero]
      exact .inl ⟨rfl, fun n hn => absurd hn (Nat.not_lt_zero n)⟩
    · exact .inr ⟨hpos, rfl⟩

theorem Start.inv (hstart : Start heap)
    (hfits : ∀ ovbuff ∈ heap.state.ovbufftab, ovbuff.index < 2 ^ 15 ∧ ovbuff.totalblk ≤ 2 ^ 31) :
    Inv heap := by
  have hsound (ovbuff : OVBUFF) (h : ovbuff ∈ heap.state.ovbufftab) :=
    (hstart.buffers ovbuff h).sound (hfits ovbuff h).2
  refine ⟨hsound, fun ovbuff h => (hfits ovbuff h).1, hstart.distinct, ?_, ?_, fun ov => ?_⟩
  · rw [hstart.next]
    exact Nat.zero_le _
  · rw [hstart.allocated]
    exact List.nodup_nil
  · rw [hstart.allocated]
    refine ⟨nofun, ?_⟩
    rintro ⟨k, ovbuff, hk, _, _, hbit⟩
    rw [(hstart.buffers ovbuff (List.mem_of_getElem? hk)).bitfield] at hbit
    rw [show bit (fun _ => 0#64) ov.blocknum = false from BitVec.getMsbD_zero] at hbit
    cases hbit

theorem Inv.step (hinv : Inv heap) (op : Op) : ∃ heap', heap.step op = .ok heap' ∧ Inv heap' := by
  obtain ⟨s, allocated⟩ := heap
  unfold Heap.step
  cases op with
  | ovblocknew =>
    dsimp only
    rcases hinv.ovblocknew with ⟨hnew, _⟩ | ⟨ov, s', hnew, hindex, _, _, hinv'⟩
    · rw [hnew]
      exact ⟨_, rfl, hinv⟩
    · rw [hnew]
      dsimp only
      rw [if_neg hindex]
      exact ⟨_, rfl, hinv'⟩
  | ovblockfree ov =>
    dsimp only
    split
    next hov =>
      obtain ⟨s', hfree, hinv'⟩ := hinv.ovblockfree hov
      rw [hfree]
      exact ⟨_, rfl, hinv'⟩
    next => exact ⟨_, rfl, hinv⟩

theorem Inv.run (hinv : Inv heap) (ops : List Op) :
    ∃ heap', Foundation.Runs.run Heap.step ops heap = .ok heap' ∧ Inv heap' := by
  induction ops generalizing heap with
  | nil => exact ⟨heap, rfl, hinv⟩
  | cons op ops ih =>
    obtain ⟨heap', hstep, hinv'⟩ := hinv.step op
    rw [Foundation.Runs.run_cons hstep]
    exact ih hinv'

theorem Inv.proper (hinv : Inv heap) : Proper heap := by
  obtain ⟨s, allocated⟩ := heap
  refine ⟨fun ovbuff h => (hinv.sound ovbuff h).used,
    fun ovbuff h => (hinv.sound ovbuff h).free.imp_left And.left, ?_, ?_⟩
  · intro ov s' hnew hindex
    rcases hinv.ovblocknew with ⟨hfull, _⟩ | ⟨ov', s'', hnew', _, hnot, hunused, _⟩
    · cases hfull.symm.trans hnew
      exact absurd rfl hindex
    · cases hnew'.symm.trans hnew
      exact ⟨hnot, hunused⟩
  · intro ov s' hnew hindex ovbuff hovbuff n hn
    rcases hinv.ovblocknew with ⟨_, hall⟩ | ⟨ov', s'', hnew', hindex', _⟩
    · obtain ⟨k, hk⟩ := List.mem_iff_getElem?.mp hovbuff
      exact (hinv.allocated _).mpr ⟨k, ovbuff, hk, rfl, hn, hall ovbuff hovbuff n hn⟩
    · cases hnew'.symm.trans hnew
      exact absurd hindex hindex'

/-- Blocks are given out and freed properly when the numbers of buffers and blocks are small
enough. -/
theorem blocks_proper (hstart : Start heap)
    (hfits : ∀ ovbuff ∈ heap.state.ovbufftab, ovbuff.index < 2 ^ 15 ∧ ovbuff.totalblk ≤ 2 ^ 31)
    (ops : List Op) :
    ∃ heap', Foundation.Runs.run Heap.step ops heap = .ok heap' ∧ Proper heap' := by
  obtain ⟨heap', hrun, hinv⟩ := (hstart.inv hfits).run ops
  exact ⟨heap', hrun, hinv.proper⟩

def oneBuffer (index totalblk : Nat) : Heap := ⟨⟨[⟨index, totalblk, fun _ => 0#64, 0, 0⟩], 0⟩, []⟩

theorem oneBuffer_start (index : Nat) {totalblk : Nat} (hsmall : totalblk < 2 ^ 32) :
    Start (oneBuffer index totalblk) where
  buffers ovbuff h := by
    obtain rfl := List.mem_singleton.mp h
    exact ⟨hsmall, rfl, rfl, rfl⟩
  distinct := List.nodup_singleton _
  next := rfl
  allocated := rfl

theorem two_blocks_proper :
    ∃ heap', Foundation.Runs.run Heap.step [.ovblocknew, .ovblocknew,
      .ovblockfree ⟨0, 1⟩] (oneBuffer 1 2) = .ok heap' ∧ Proper heap' := by
  refine blocks_proper (oneBuffer_start 1 (by decide)) (fun ovbuff h => ?_) _
  obtain rfl := List.mem_singleton.mp h
  exact ⟨by decide, by decide⟩

/-- The block of a buffer with the last index that the configuration allows is taken for none. -/
theorem not_blocks_proper :
    ¬∀ heap : Heap, Start heap →
      ∀ ops, ∃ heap', Foundation.Runs.run Heap.step ops heap = .ok heap' ∧ Proper heap' := by
  intro hall
  obtain ⟨heap', hrun, hproper⟩ := hall _ (oneBuffer_start 65535 (show 1 < 2 ^ 32 by decide)) []
  obtain rfl := Except.ok.inj hrun
  have hindex : (oneBuffer 65535 1).state.ovblocknew.map Prod.fst = .ok ovnull := by decide
  cases hnew : (oneBuffer 65535 1).state.ovblocknew with
  | error fault =>
    rw [hnew] at hindex
    cases hindex
  | ok found =>
    obtain ⟨ov, s⟩ := found
    rw [hnew] at hindex
    obtain rfl : ov = ovnull := Except.ok.inj hindex
    exact absurd (hproper.refused _ s hnew rfl _ (List.mem_singleton.mpr rfl) 0 (by decide)) nofun

end Runs

end Inn.Buffindexed
