import Inn.Lib.HashTable

/-!
# Probing in the hash table

There is an empty slot in every table, because the two counters say what is in the table and it is
made anew in time. Therefore each loop over the slots comes to its end, and finds what it should.
-/

namespace Inn.Lib.HashTable

open Inn.Foundation.Tombstones

theorem lt_bits {k bound size : Nat} (hk : k < bound) (hsize : 2 ^ k ≤ size) :
    k < bits bound size := by
  induction bound generalizing k size with
  | zero => exact absurd hk (Nat.not_lt_zero k)
  | succ bound ih =>
    have hpos : size > 0 := Nat.lt_of_lt_of_le (Nat.two_pow_pos k) hsize
    rw [bits, if_pos hpos]
    cases k with
    | zero => exact Nat.succ_pos _
    | succ k =>
      have hhalf : 2 ^ k ≤ size >>> 1 := by
        rw [Nat.shiftRight_eq_div_pow]
        rw [Nat.pow_succ] at hsize
        omega
      exact Nat.succ_lt_succ (ih (Nat.lt_of_succ_lt_succ hk) hhalf)

theorem bits_le {k bound size : Nat} (hsize : size < 2 ^ k) : bits bound size ≤ k := by
  induction bound generalizing k size with
  | zero => exact Nat.zero_le k
  | succ bound ih =>
    rw [bits]
    split_ifs with hpos
    · obtain ⟨k, rfl⟩ : ∃ j, k = j + 1 := by
        cases k with
        | zero => exact absurd hpos (by omega)
        | succ k => exact ⟨k, rfl⟩
      refine Nat.succ_le_succ (ih ?_)
      rw [Nat.shiftRight_eq_div_pow]
      rw [Nat.pow_succ] at hsize
      omega
    · exact Nat.zero_le k

theorem hashSize_ok {target : Nat} (htarget : target ≤ 2 ^ 30) :
    ∃ size, hashSize target = .ok size ∧ 4 ≤ size ∧ target ≤ size := by
  rw [hashSize]
  split_ifs with hzero
  · exact ⟨4, rfl, Nat.le_refl 4, by omega⟩
  · have hbits : bits 64 (target - 1) ≤ 30 := bits_le (by omega)
    have hcovers : target ≤ 2 ^ bits 64 (target - 1) := by
      by_contra hlt
      have hless : bits 64 (target - 1) < bits 64 (target - 1) := lt_bits (by omega) (by omega)
      exact absurd hless (Nat.lt_irrefl _)
    refine ⟨if 1 <<< bits 64 (target - 1) < 4 then 4 else 1 <<< bits 64 (target - 1), ?_, ?_, ?_⟩
    · rw [shiftOne, if_pos (by omega)]
      rfl
    · split_ifs <;> omega
    · rw [Nat.one_shiftLeft]
      split_ifs <;> omega

theorem hashSize_undefined {target : Nat} (htarget : 2 ^ 30 < target) :
    hashSize target = .error .undefined := by
  have hbits : 30 < bits 64 (target - 1) := lt_bits (by omega) (by omega)
  rw [hashSize, if_neg (by omega), shiftOne, if_neg (by omega)]
  rfl

section Slots

variable {D : Type} {table : List (Slot D)} {slot : Nat}

theorem slots_set (hslot : slot < table.length) (entry : Slot D) :
    slots (table.set slot entry) = Function.update (slots table) slot entry := by
  funext other
  rw [slots, List.getElem?_set]
  by_cases heq : other = slot
  · subst heq
    rw [Function.update_self, if_pos rfl, if_pos hslot]
    rfl
  · rw [Function.update_of_ne heq, if_neg (Ne.symm heq)]
    rfl

theorem slots_replicate (size slot : Nat) :
    slots (List.replicate size (Slot.empty : Slot D)) slot = .empty := by
  rw [slots, List.getElem?_replicate]
  split_ifs <;> rfl

theorem lt_of_slots_ne (hslot : slots table slot ≠ .empty) : slot < table.length := by
  by_contra hge
  rw [slots, List.getElem?_eq_none (Nat.le_of_not_lt hge)] at hslot
  exact hslot rfl

theorem slots_eq_getElem (hslot : slot < table.length) : slots table slot = table[slot] := by
  rw [slots, List.getElem?_eq_getElem hslot, Option.getD_some]

def isUsed : Slot D → Bool
  | .empty => false
  | _ => true

def isDeleted : Slot D → Bool
  | .deleted => true
  | _ => false

def elements (table : List (Slot D)) : List D := table.filterMap Slot.value?

theorem countP_used (table : List (Slot D)) : table.countP isUsed = table.countP isDeleted +
    (elements table).length := by
  induction table with
  | nil => rfl
  | cons entry table ih =>
    rw [List.countP_cons, List.countP_cons, ih, elements, elements]
    cases entry with
    | empty => rfl
    | deleted =>
      rw [List.filterMap_cons_none rfl]
      simp only [isUsed, isDeleted, if_true]
      omega
    | live d =>
      rw [List.filterMap_cons_some (show Slot.value? (.live d) = some d from rfl), List.length_cons]
      simp only [isUsed, isDeleted, if_true, Bool.false_eq_true, if_false]
      omega

theorem mem_elements {d : D} : d ∈ elements table ↔ ∃ slot, slots table slot = .live d := by
  rw [elements, List.mem_filterMap]
  constructor
  · rintro ⟨entry, hmem, hvalue⟩
    obtain ⟨slot, hslot, rfl⟩ := List.getElem_of_mem hmem
    refine ⟨slot, ?_⟩
    rw [slots_eq_getElem hslot]
    cases hentry : table[slot] with
    | live d' => rw [hentry] at hvalue; rw [Option.some.inj hvalue]
    | _ => rw [hentry] at hvalue; cases hvalue
  · rintro ⟨slot, hlive⟩
    have hused : slots table slot ≠ .empty := by
      rw [hlive]
      nofun
    have hslot := lt_of_slots_ne hused
    rw [slots_eq_getElem hslot] at hlive
    exact ⟨_, List.getElem_mem hslot, by rw [hlive]; rfl⟩

theorem countP_set_slot (counted : Slot D → Bool) (hslot : slot < table.length) (entry : Slot D) :
    (table.set slot entry).countP counted + (if counted (slots table slot) then 1 else 0) =
      table.countP counted + (if counted entry then 1 else 0) := by
  have hpos : counted table[slot] = true → 0 < table.countP counted := fun h =>
    List.countP_pos_iff.mpr ⟨_, List.getElem_mem hslot, h⟩
  rw [List.countP_set hslot, slots_eq_getElem hslot]
  split_ifs with hold hnew hnew
  · have := hpos hold
    omega
  · have := hpos hold
    omega
  · omega
  · omega

end Slots

section Probing

variable {K D : Type} (f : Functions K D)

def probe (h : Hash D) (k : K) (n : Nat) : Nat := ((f.hash k &&& h.mask) + n) % h.size

/-- The counts are right, a slot is empty, and elements are found. -/
structure Valid (h : Hash D) : Prop where
  length : h.table.length = h.size
  mask : h.mask = h.size - 1
  four : 4 ≤ h.size
  used : h.table.countP isUsed = h.nelements
  deleted : h.table.countP isDeleted = h.ndeleted
  room : h.nelements < h.size
  probed : WellProbed (probe f h) f.key (slots h.table)

variable {f} {h : Hash D} {k : K}

theorem Valid.start_lt (hvalid : Valid f h) (k : K) : (f.hash k &&& h.mask) < h.size := by
  have hle : (f.hash k &&& h.mask) ≤ h.mask := Nat.and_le_right
  have := hvalid.mask
  have := hvalid.four
  omega

theorem Valid.probe_lt (hvalid : Valid f h) (k : K) (n : Nat) : probe f h k n < h.size :=
  Nat.mod_lt _ (Nat.lt_of_lt_of_le (by decide) hvalid.four)

theorem Valid.probe_zero (hvalid : Valid f h) (k : K) : probe f h k 0 = (f.hash k &&& h.mask) :=
  Nat.mod_eq_of_lt (hvalid.start_lt k)

theorem Valid.probe_eq (hvalid : Valid f h) (k : K) {n : Nat} (hn : n < h.size) :
    probe f h k n = if (f.hash k &&& h.mask) + n < h.size then (f.hash k &&& h.mask) + n
      else (f.hash k &&& h.mask) + n - h.size := by
  have hstart := hvalid.start_lt k
  rw [probe]
  split_ifs with hlt
  · exact Nat.mod_eq_of_lt hlt
  · rw [Nat.mod_eq_sub_mod (Nat.le_of_not_lt hlt), Nat.mod_eq_of_lt (by omega)]

theorem next_eq {size slot : Nat} (hslot : slot < size) : next size slot = (slot + 1) % size := by
  rw [next]
  split_ifs with hge
  · obtain rfl : size = slot + 1 := by omega
    rw [Nat.sub_self, Nat.mod_self]
  · exact (Nat.mod_eq_of_lt (by omega)).symm

theorem Valid.next_probe (hvalid : Valid f h) (k : K) (n : Nat) :
    next h.size (probe f h k n) = probe f h k (n + 1) := by
  rw [next_eq (hvalid.probe_lt k n), probe, probe, Nat.mod_add_mod, Nat.add_assoc]

theorem Valid.probe_ne (hvalid : Valid f h) (k : K) {m n : Nat} (hm : m < n) (hn : n < h.size) :
    probe f h k m ≠ probe f h k n := by
  have hstart := hvalid.start_lt k
  rw [hvalid.probe_eq k (Nat.lt_trans hm hn), hvalid.probe_eq k hn]
  split_ifs <;> omega

theorem Valid.exists_probe (hvalid : Valid f h) (k : K) {slot : Nat} (hslot : slot < h.size) :
    ∃ n < h.size, probe f h k n = slot := by
  have hstart := hvalid.start_lt k
  by_cases hle : (f.hash k &&& h.mask) ≤ slot
  · refine ⟨slot - (f.hash k &&& h.mask), by omega, ?_⟩
    rw [hvalid.probe_eq k (by omega), if_pos (by omega)]
    omega
  · refine ⟨slot + h.size - (f.hash k &&& h.mask), by omega, ?_⟩
    rw [hvalid.probe_eq k (by omega), if_neg (by omega)]
    omega

theorem Valid.exists_empty (hvalid : Valid f h) : ∃ slot < h.size, slots h.table slot = .empty := by
  by_contra hnone
  have hall : h.table.countP isUsed = h.table.length := by
    rw [List.countP_eq_length]
    intro entry hmem
    obtain ⟨slot, hslot, rfl⟩ := List.getElem_of_mem hmem
    rw [← slots_eq_getElem hslot]
    cases hentry : slots h.table slot with
    | empty => exact absurd ⟨slot, hvalid.length ▸ hslot, hentry⟩ hnone
    | _ => rfl
  have := hvalid.used
  have := hvalid.room
  have := hvalid.length
  omega

theorem Valid.passed_lt (hvalid : Valid f h) {n : Nat}
    (hpassed : Passed (probe f h) f.key (slots h.table) k n) : n < h.size := by
  by_contra hge
  obtain ⟨slot, hslot, hempty⟩ := hvalid.exists_empty
  obtain ⟨m, hm, rfl⟩ := hvalid.exists_probe k hslot
  exact (hpassed m (Nat.lt_of_lt_of_le hm (Nat.le_of_not_lt hge))).1 hempty

end Probing

section Loops

variable {K D : Type} {f : Functions K D} {h : Hash D} {k : K} {insert : Bool}

inductive Finds (f : Functions K D) (h : Hash D) (k : K) : Bool → Found D → Prop
  | missing {n : Nat} (passed : Passed (probe f h) f.key (slots h.table) k n)
      (empty : slots h.table (probe f h k n) = .empty) :
      Finds f h k false .missing
  | reused {m n : Nat} (earlier : m < n) (passed : Passed (probe f h) f.key (slots h.table) k n)
      (empty : slots h.table (probe f h k n) = .empty)
        (mark : slots h.table (probe f h k m) = .deleted) :
      Finds f h k true (.reused (probe f h k m))
  | unused {n : Nat} (passed : Passed (probe f h) f.key (slots h.table) k n)
      (empty : slots h.table (probe f h k n) = .empty) :
      Finds f h k true (.unused (probe f h k n))
  | present {insert : Bool} {n : Nat} {d : D} (live : slots h.table (probe f h k n) = .live d)
      (same : f.key d = k) :
      Finds f h k insert (.present (probe f h k n) d)

def Marked (f : Functions K D) (h : Hash D) (k : K) (insert : Bool) (n : Nat)
    (deletedSlot : Option Nat) : Prop :=
  ∀ slot, deletedSlot = some slot → insert = true ∧ ∃ m < n, slot = probe f h k m ∧
    slots h.table slot = .deleted

theorem findSlot_finds (hvalid : Valid f h) {bound n : Nat} (hbound : bound + n = h.size)
    (hpassed : Passed (probe f h) f.key (slots h.table) k n) {deletedSlot : Option Nat}
    (hmarked : Marked f h k insert n deletedSlot) :
    ∃ found, findSlot f h k insert bound (probe f h k n) deletedSlot = some found ∧
      Finds f h k insert found := by
  induction bound generalizing n deletedSlot with
  | zero => exact absurd (hvalid.passed_lt hpassed) (by omega)
  | succ bound ih =>
    unfold findSlot
    rw [hvalid.next_probe]
    cases hentry : slots h.table (probe f h k n) with
    | empty =>
      cases insert with
      | false => exact ⟨.missing, rfl, .missing hpassed hentry⟩
      | true =>
        cases deletedSlot with
        | none => exact ⟨_, rfl, .unused hpassed hentry⟩
        | some slot =>
          obtain ⟨-, m, hm, rfl, hmark⟩ := hmarked slot rfl
          exact ⟨_, rfl, .reused hm hpassed hentry hmark⟩
    | deleted =>
      refine ih (by omega) (hpassed.succ (by rw [hentry]; nofun) (by rw [hentry]; nofun)) ?_
      intro slot hslot
      split_ifs at hslot with hinsert
      · obtain rfl := Option.some.inj hslot
        exact ⟨hinsert, n, Nat.lt_succ_self n, rfl, hentry⟩
      · exact absurd (hmarked slot hslot).1 hinsert
    | live d =>
      dsimp only
      split_ifs with hequal
      · exact ⟨_, rfl, .present hentry ((f.equal_iff k d).mp hequal)⟩
      · refine ih (by omega) (hpassed.succ (by rw [hentry]; nofun) fun d' hd' => ?_) ?_
        · rw [hentry] at hd'
          rw [← Slot.live.inj hd', ne_eq, ← f.equal_iff]
          exact hequal
        · intro slot hslot
          obtain ⟨hinsert, m, hm, hrest⟩ := hmarked slot hslot
          exact ⟨hinsert, m, Nat.lt_succ_of_lt hm, hrest⟩

theorem findEmpty_finds (hvalid : Valid f h) {bound n : Nat} (hbound : bound + n = h.size)
    (hpassed : Passed (probe f h) f.key (slots h.table) k n)
    (hnew : ∀ slot d, slots h.table slot = .live d → f.key d ≠ k) :
    ∃ m, findEmpty h bound (probe f h k n) = some (probe f h k m) ∧
      Passed (probe f h) f.key (slots h.table) k m ∧
      slots h.table (probe f h k m) = .empty := by
  induction bound generalizing n with
  | zero => exact absurd (hvalid.passed_lt hpassed) (by omega)
  | succ bound ih =>
    unfold findEmpty
    rw [hvalid.next_probe]
    cases hentry : slots h.table (probe f h k n) with
    | empty => exact ⟨n, rfl, hpassed, hentry⟩
    | deleted => exact ih (by omega) (hpassed.succ (by rw [hentry]; nofun) fun d => hnew _ d)
    | live d => exact ih (by omega) (hpassed.succ (by rw [hentry]; nofun) fun d => hnew _ d)

end Loops

end Inn.Lib.HashTable
