import Inn.Lib.HashTableProbing

/-!
# The hash table as a map

Each call does to the table what it does to a map from keys to elements. A table cannot be made for
more than `2 ^ 30` slots, because its size is computed by a shift of an `int`.
-/

namespace Inn.Lib.HashTable

open Function (update update_self update_of_ne update_eq_self)
open Inn.Foundation.Tombstones

variable {K D : Type} {f : Functions K D} {h : Hash D} {m : K → Option D} {k : K} {d : D}

theorem Valid.set (hvalid : Valid f h) {slot : Nat} (hslot : slot < h.size) {entry : Slot D}
    {nelements ndeleted : Nat} (hused : nelements + (if isUsed (slots h.table slot) then 1 else 0) =
      h.nelements + (if isUsed entry then 1 else 0))
    (hdeleted : ndeleted + (if isDeleted (slots h.table slot) then 1 else 0) =
      h.ndeleted + (if isDeleted entry then 1 else 0))
    (hroom : nelements < h.size)
    (hprobed : WellProbed (probe f h) f.key (update (slots h.table) slot entry)) :
    Valid f ⟨h.size, h.mask, nelements, ndeleted, h.table.set slot entry⟩ := by
  have hlt : slot < h.table.length := hvalid.length ▸ hslot
  have hcount := countP_set_slot isUsed hlt entry
  have hcount' := countP_set_slot isDeleted hlt entry
  have := hvalid.used
  have := hvalid.deleted
  refine ⟨by rw [List.length_set, hvalid.length], hvalid.mask, hvalid.four, ?_, ?_, hroom, ?_⟩
  · dsimp only
    omega
  · dsimp only
    omega
  · rw [slots_set hlt]
    exact hprobed

theorem valid_fresh {size : Nat} (hsize : 4 ≤ size) : Valid f (fresh size) where
  length := List.length_replicate
  mask := rfl
  four := hsize
  used := List.countP_eq_zero.mpr fun entry hmem =>
    by rw [List.eq_of_mem_replicate hmem]; exact Bool.false_ne_true
  deleted := List.countP_eq_zero.mpr fun entry hmem =>
    by rw [List.eq_of_mem_replicate hmem]; exact Bool.false_ne_true
  room := Nat.lt_of_lt_of_le (show 0 < 4 by decide) hsize
  probed slot d hlive := by
    rw [fresh, slots_replicate] at hlive
    cases hlive

theorem Valid.keys_pairwise (hvalid : Valid f h) :
    (elements h.table).Pairwise fun d d' => f.key d ≠ f.key d' := by
  rw [elements, List.pairwise_filterMap, List.pairwise_iff_getElem]
  intro i j hi hj hij d hd d' hd' hkey
  have hlive : ∀ {i : Nat} (hi : i < h.table.length) {d : D}, h.table[i].value? = some d →
      slots h.table i = .live d := by
    intro i hi d hd
    rw [slots_eq_getElem hi]
    cases hentry : h.table[i] with
    | live d' => rw [hentry] at hd; rw [Option.some.inj hd]
    | _ => rw [hentry] at hd; cases hd
  exact absurd (hvalid.probed.slot_unique (hlive hi hd) (hlive hj hd') hkey) (Nat.ne_of_lt hij)

theorem Valid.elements_length (hvalid : Valid f h) :
    (elements h.table).length = h.nelements - h.ndeleted := by
  have hcount := countP_used h.table
  rw [hvalid.used, hvalid.deleted] at hcount
  omega

theorem place_ok (hvalid : Valid f h) (hroom : h.nelements + 1 < h.size)
    (hnew : ∀ slot d', slots h.table slot = .live d' → f.key d' ≠ f.key d) :
    ∃ h', place f h (.live d) = .ok h' ∧ Valid f h' ∧ h'.size = h.size ∧
      h'.nelements = h.nelements + 1 ∧
      ∀ d', d' ∈ elements h'.table ↔ d' = d ∨ d' ∈ elements h.table := by
  obtain ⟨n, hfind, hpassed, hempty⟩ :=
    findEmpty_finds hvalid (k := f.key d) (n := 0) rfl nofun hnew
  rw [hvalid.probe_zero] at hfind
  have hslot := hvalid.probe_lt (f.key d) n
  have hlt := hvalid.passed_lt hpassed
  refine ⟨_, by rw [place,
    hfind], hvalid.set hslot (by rw [hempty]; rfl) (by rw [hempty]; rfl) hroom
    (hvalid.probed.put hpassed (fun m hm => hvalid.probe_ne _ hm hlt) hnew), rfl, rfl, fun d' => ?_⟩
  rw [mem_elements, mem_elements, slots_set (hvalid.length ▸ hslot)]
  constructor
  · rintro ⟨slot, hlive⟩
    by_cases heq : slot = probe f h (f.key d) n
    · rw [heq, update_self] at hlive
      exact .inl (Slot.live.inj hlive).symm
    · rw [update_of_ne heq] at hlive
      exact .inr ⟨slot, hlive⟩
  · rintro (rfl | ⟨slot, hlive⟩)
    · exact ⟨_, update_self ..⟩
    · refine ⟨slot, ?_⟩
      rw [update_of_ne, hlive]
      rintro rfl
      rw [hempty] at hlive
      cases hlive

theorem foldlM_place_ok (entries : List (Slot D)) (hvalid : Valid f h)
    (hroom : h.nelements + (elements entries).length < h.size)
    (hdistinct : (elements entries).Pairwise fun d d' => f.key d ≠ f.key d')
    (hnew : ∀ d ∈ elements entries, ∀ d' ∈ elements h.table, f.key d' ≠ f.key d) :
    ∃ h', entries.foldlM (place f) h = .ok h' ∧ Valid f h' ∧ h'.size = h.size ∧
      h'.nelements = h.nelements + (elements entries).length ∧
      ∀ d', d' ∈ elements h'.table ↔ d' ∈ elements entries ∨ d' ∈ elements h.table := by
  induction entries generalizing h with
  | nil => exact ⟨h, rfl, hvalid, rfl, rfl, fun d' => by simp [elements]⟩
  | cons entry entries ih =>
    rw [List.foldlM_cons]
    cases entry with
    | live d =>
      have helements : elements (.live d :: entries) = d :: elements entries := rfl
      rw [helements] at hroom hdistinct hnew ⊢
      rw [List.length_cons] at hroom ⊢
      obtain ⟨hfirst, hrest⟩ := List.pairwise_cons.mp hdistinct
      obtain ⟨h₁, hplace, hvalid₁, hsize₁, hnelements₁, hmem₁⟩ := place_ok hvalid (by omega)
        fun slot d' hlive => hnew d List.mem_cons_self d' (mem_elements.mpr ⟨slot, hlive⟩)
      obtain ⟨h', hfold, hvalid', hsize', hnelements', hmem'⟩ :=
        ih hvalid₁ (by omega) hrest fun d₁ hd₁ d' hd' => by
        rcases (hmem₁ d').mp hd' with rfl | hold
        · exact hfirst d₁ hd₁
        · exact hnew d₁ (List.mem_cons_of_mem _ hd₁) d' hold
      refine ⟨h', by rw [hplace]; exact hfold, hvalid', hsize'.trans hsize₁, by omega, fun d' => ?_⟩
      rw [hmem', hmem₁, List.mem_cons, or_left_comm, or_assoc]
    | _ => exact ih hvalid hroom hdistinct hnew

theorem represents_iff : Represents f.key (slots h.table) m ↔
    ∀ k d, m k = some d ↔ d ∈ elements h.table ∧ f.key d = k := by
  simp only [Represents, mem_elements]

theorem hashExpand_ok (hvalid : Valid f h) (hm : Represents f.key (slots h.table) m)
    (hfits : (h.nelements - h.ndeleted) * 2 ≤ 2 ^ 30) :
    ∃ h', hashExpand f h = .ok h' ∧ Valid f h' ∧ Represents f.key (slots h'.table) m ∧
      h'.nelements + 1 < h'.size := by
  obtain ⟨size, hsize, hfour, hcovers⟩ := hashSize_ok hfits
  have hlength := hvalid.elements_length
  have hnone : elements (fresh size : Hash D).table = [] := by
    rw [elements, List.filterMap_eq_nil_iff]
    intro entry hmem
    rw [List.eq_of_mem_replicate hmem]
    rfl
  obtain ⟨h', hfold, hvalid', hsize', hnelements', hmem'⟩ :=
    foldlM_place_ok h.table (valid_fresh hfour) (f := f)
    (by simp only [fresh]; omega) hvalid.keys_pairwise (by simp [hnone])
  refine ⟨h', by rw [hashExpand, hsize]; exact hfold, hvalid', ?_, ?_⟩
  · rw [represents_iff] at hm ⊢
    intro k d
    rw [hm, hmem', hnone]
    simp
  · simp only [fresh] at hsize' hnelements'
    omega

theorem hashExpand_undefined (hbig : 2 ^ 30 < (h.nelements - h.ndeleted) * 2) :
    hashExpand f h = .error .undefined := by
  rw [hashExpand, hashSize_undefined hbig]
  rfl

theorem missing_none (hvalid : Valid f h) (hm : Represents f.key (slots h.table) m) {n : Nat}
    (hpassed : Passed (probe f h) f.key (slots h.table) k n)
    (hempty : slots h.table (probe f h k n) = .empty) :
    m k = none := by
  cases hk : m k with
  | none => rfl
  | some d =>
    obtain ⟨⟨slot, hlive⟩, hkey⟩ := (hm k d).mp hk
    exact absurd hkey (hvalid.probed.missing hpassed hempty hlive)

theorem no_other (hm : Represents f.key (slots h.table) m) (hk : m k = none) :
    ∀ slot d', slots h.table slot = .live d' → f.key d' ≠ k := by
  rintro slot d' hlive rfl
  rw [(hm _ d').mpr ⟨⟨slot, hlive⟩, rfl⟩] at hk
  cases hk

theorem findSlot_start (hvalid : Valid f h) (k : K) (insert : Bool) :
    ∃ found, findSlot f h k insert h.size (f.hash k &&& h.mask) none = some found ∧
      Finds f h k insert found := by
  rw [← hvalid.probe_zero]
  exact findSlot_finds (n := 0) hvalid rfl (fun _ hm => absurd hm (Nat.not_lt_zero _)) nofun

theorem hashFindSlot_ok (hvalid : Valid f h) (hm : Represents f.key (slots h.table) m) (k : K) :
    (∃ slot d, hashFindSlot f h k false = .ok (h, some slot) ∧ slot < h.size ∧
      slots h.table slot = .live d ∧
        f.key d = k ∧ m k = some d) ∨
      (hashFindSlot f h k false = .ok (h, none) ∧ m k = none) := by
  obtain ⟨found, hfind, hfinds⟩ := findSlot_start hvalid k false
  cases hfinds with
  | missing hpassed hempty =>
    refine .inr ⟨?_, missing_none hvalid hm hpassed hempty⟩
    simp only [hashFindSlot, makeRoom, Bool.false_and, Bool.false_eq_true, if_false, bind,
      Except.bind, hfind]
  | @present _ n d hlive hsame =>
    refine .inl ⟨_, d, ?_, hvalid.probe_lt k n, hlive, hsame, (hm k d).mpr ⟨⟨_, hlive⟩, hsame⟩⟩
    simp only [hashFindSlot, makeRoom, Bool.false_and, Bool.false_eq_true, if_false, bind,
      Except.bind, hfind]

section Calls

theorem hashLookup_ok (hvalid : Valid f h) (hm : Represents f.key (slots h.table) m) (k : K) :
    hashLookup f h k = .ok (h, m k) := by
  rcases hashFindSlot_ok hvalid hm k with ⟨slot, d, hfind, -, hlive, -, hk⟩ | ⟨hfind, hk⟩
  · simp only [hashLookup, hfind, bind, Except.bind, Option.bind_some, hlive, hk]
    rfl
  · simp only [hashLookup, hfind, bind, Except.bind, Option.bind_none, hk]

theorem expanded (hvalid : Valid f h) (hm : Represents f.key (slots h.table) m)
    (hfits : h.full = true → (h.nelements - h.ndeleted) * 2 ≤ 2 ^ 30) :
    ∃ h₁, makeRoom f h true = .ok h₁ ∧ Valid f h₁ ∧ Represents f.key (slots h₁.table) m ∧
      h₁.nelements + 1 < h₁.size := by
  rw [makeRoom, Bool.true_and]
  split_ifs with hfull
  · exact hashExpand_ok hvalid hm (hfits hfull)
  · have hfour := hvalid.four
    rw [Hash.full, decide_eq_true_eq] at hfull
    exact ⟨h, rfl, hvalid, hm, by omega⟩

theorem hashInsert_undefined (hfull : h.full = true)
    (hbig : 2 ^ 30 < (h.nelements - h.ndeleted) * 2) (k : K) (d : D) :
    hashInsert f h k d = .error .undefined := by
  simp only [hashInsert, hashFindSlot, makeRoom, Bool.true_and, hfull, if_true,
    hashExpand_undefined hbig, bind, Except.bind]

variable [DecidableEq K]

theorem hashReplace_ok (hvalid : Valid f h) (hm : Represents f.key (slots h.table) m) (k : K)
    (datum : Slot D) (hdatum : datum ≠ .empty) (hkey : ∀ d, datum = .live d → f.key d = k) :
    (m k = none ∧ hashReplace f h k datum = .ok (h, false)) ∨
      ∃ slot d, slot < h.size ∧ slots h.table slot = .live d ∧ (m k).isSome = true ∧
        hashReplace f h k datum = .ok ({ h with table := h.table.set slot datum }, true) ∧
        WellProbed (probe f h) f.key (update (slots h.table) slot datum) ∧
        Represents f.key (slots (h.table.set slot datum)) (update m k datum.value?) := by
  rcases hashFindSlot_ok hvalid hm k with ⟨slot, d, hfind, hslot, hlive, rfl, hk⟩ | ⟨hfind, hk⟩
  · refine .inr ⟨slot, d, hslot, hlive,
      by rw [hk]; rfl, ?_, hvalid.probed.change hlive hdatum hkey, ?_⟩
    · simp only [hashReplace, hfind, bind, Except.bind]
    · rw [slots_set (hvalid.length ▸ hslot)]
      exact hm.change hvalid.probed hlive hkey
  · exact .inl ⟨hk, by simp only [hashReplace, hfind, bind, Except.bind]⟩

theorem hashReplace_live (hvalid : Valid f h) (hm : Represents f.key (slots h.table) m) :
    ∃ h', hashReplace f h (f.key d) (.live d) = .ok (h', (m (f.key d)).isSome) ∧ Valid f h' ∧
      Represents f.key (slots h'.table)
        (if (m (f.key d)).isSome then update m (f.key d) (some d) else m) := by
  rcases hashReplace_ok hvalid hm (f.key d) (.live d) nofun (fun d' hd' =>
    by rw [Slot.live.inj hd']) with
    ⟨hk, hreplace⟩ | ⟨slot, d', hslot, hlive, hk, hreplace, hprobed, hm'⟩
  · exact ⟨h, by rw [hreplace, hk]; rfl, hvalid, by rw [hk]; exact hm⟩
  · refine ⟨_, by rw [hreplace,
      hk], hvalid.set hslot (by rw [hlive]; rfl) (by rw [hlive]; rfl) hvalid.room hprobed, ?_⟩
    rw [if_pos hk]
    exact hm'

theorem hashDelete_ok (hvalid : Valid f h) (hm : Represents f.key (slots h.table) m) (k : K) :
    ∃ h', hashDelete f h k = .ok (h', (m k).isSome) ∧ Valid f h' ∧
      Represents f.key (slots h'.table) (update m k none) := by
  rcases hashReplace_ok hvalid hm k .deleted nofun nofun with
    ⟨hk, hreplace⟩ | ⟨slot, d, hslot, hlive, hk, hreplace, hprobed, hm'⟩
  · refine ⟨h, ?_, hvalid, ?_⟩
    · simp only [hashDelete, hreplace, bind, Except.bind, hk]
      rfl
    · rw [← hk, update_eq_self]
      exact hm
  · refine ⟨_, ?_, hvalid.set hslot (by rw [hlive]; rfl) (by rw [hlive]; rfl) hvalid.room hprobed,
      hm'⟩
    simp only [hashDelete, hreplace, bind, Except.bind, hk, if_true]

theorem hashInsert_ok (hvalid : Valid f h) (hm : Represents f.key (slots h.table) m) (d : D)
    (hfits : h.full = true → (h.nelements - h.ndeleted) * 2 ≤ 2 ^ 30) :
    ∃ h', hashInsert f h (f.key d) d = .ok (h', (m (f.key d)).isNone) ∧ Valid f h' ∧
      Represents f.key (slots h'.table)
        (if (m (f.key d)).isNone then update m (f.key d) (some d) else m) := by
  obtain ⟨h₁, hexpand, hvalid₁, hm₁, hroom⟩ := expanded hvalid hm hfits
  obtain ⟨found, hfind, hfinds⟩ := findSlot_start hvalid₁ (f.key d) true
  cases hfinds with
  | @reused i n hearlier hpassed hempty hmark =>
    have hk := missing_none hvalid₁ hm₁ hpassed hempty
    have hslot := hvalid₁.probe_lt (f.key d) i
    have hlt : probe f h₁ (f.key d) i < h₁.table.length := hvalid₁.length ▸ hslot
    have hbefore : Passed (probe f h₁) f.key (slots h₁.table) (f.key d) i :=
      fun j hj => hpassed j (Nat.lt_trans hj hearlier)
    have hpos : 0 < h₁.ndeleted := by
      rw [← hvalid₁.deleted, List.countP_pos_iff]
      rw [slots_eq_getElem hlt] at hmark
      exact ⟨_, List.getElem_mem hlt, by rw [hmark]; rfl⟩
    refine ⟨⟨h₁.size, h₁.mask, h₁.nelements, h₁.ndeleted - 1,
      h₁.table.set (probe f h₁ (f.key d) i) (.live d)⟩, ?_,
      hvalid₁.set hslot (by rw [hmark]; rfl)
        (by rw [hmark]; exact Nat.sub_add_cancel hpos) hvalid₁.room
        (hvalid₁.probed.put hbefore (fun j hj => hvalid₁.probe_ne _ hj (hvalid₁.passed_lt hbefore))
          (no_other hm₁ hk)), ?_⟩
    · simp only [hashInsert, hashFindSlot, hexpand, bind, Except.bind, hfind,
        slots_set hlt, update_self,
        List.set_set, hk]
      rfl
    · rw [hk, Option.isNone_none, if_pos rfl, slots_set hlt]
      exact hm₁.put (by rw [hmark]; nofun) (no_other hm₁ hk)
  | @unused n hpassed hempty =>
    have hk := missing_none hvalid₁ hm₁ hpassed hempty
    have hslot := hvalid₁.probe_lt (f.key d) n
    have hlt : probe f h₁ (f.key d) n < h₁.table.length := hvalid₁.length ▸ hslot
    refine ⟨⟨h₁.size, h₁.mask, h₁.nelements + 1, h₁.ndeleted,
      h₁.table.set (probe f h₁ (f.key d) n) (.live d)⟩, ?_,
      hvalid₁.set hslot (by rw [hempty]; rfl) (by rw [hempty]; rfl) hroom
        (hvalid₁.probed.put hpassed (fun j hj => hvalid₁.probe_ne _ hj (hvalid₁.passed_lt hpassed))
          (no_other hm₁ hk)), ?_⟩
    · simp only [hashInsert, hashFindSlot, hexpand, bind, Except.bind, hfind, hempty, hk]
      rfl
    · rw [hk, Option.isNone_none, if_pos rfl, slots_set hlt]
      exact hm₁.put (by rw [hempty]; nofun) (no_other hm₁ hk)
  | @present _ n d' hlive hsame =>
    have hk : m (f.key d) = some d' := (hm₁ _ d').mpr ⟨⟨_, hlive⟩, hsame⟩
    refine ⟨h₁, ?_, hvalid₁, ?_⟩
    · simp only [hashInsert, hashFindSlot, hexpand, bind, Except.bind, hfind, hlive, hk]
      rfl
    · rw [hk, Option.isNone_some, if_neg Bool.false_ne_true]
      exact hm₁

end Calls

section Runs

inductive Call (f : Functions K D)
  | lookup (k : K)
  | insert (k : K) (datum : D) (hkey : f.key datum = k)
  | replace (k : K) (datum : D) (hkey : f.key datum = k)
  | delete (k : K)

inductive Answer (D : Type)
  | entry (datum : Option D)
  | done (result : Bool)

def perform (h : Hash D) : Call f → Except Stop (Hash D × Answer D)
  | .lookup k => do
      let (h, datum) ← hashLookup f h k
      .ok (h, .entry datum)
  | .insert k datum _ => do
      let (h, result) ← hashInsert f h k datum
      .ok (h, .done result)
  | .replace k datum _ => do
      let (h, result) ← hashReplace f h k (.live datum)
      .ok (h, .done result)
  | .delete k => do
      let (h, result) ← hashDelete f h k
      .ok (h, .done result)

def performAll (h : Hash D) : List (Call f) → Except Stop (Hash D × List (Answer D))
  | [] => .ok (h, [])
  | call :: calls => do
      let (h, answer) ← perform h call
      let (h, answers) ← performAll h calls
      .ok (h, answer :: answers)

def Fits (h : Hash D) : Call f → Prop
  | .insert .. => h.full = true → (h.nelements - h.ndeleted) * 2 ≤ 2 ^ 30
  | _ => True

def AllFit (h : Hash D) : List (Call f) → Prop
  | [] => True
  | call :: calls => Fits h call ∧ ∀ h' answer, perform h call = .ok (h', answer) → AllFit h' calls

theorem perform_undefined {call : Call f} (hfits : ¬Fits h call) :
    perform h call = .error .undefined := by
  cases call with
  | insert k datum hkey =>
    rw [Fits, Classical.not_imp, Nat.not_le] at hfits
    simp only [perform, hashInsert_undefined hfits.1 hfits.2, bind, Except.bind]
  | _ => exact absurd trivial hfits

def run (f : Functions K D) (size : Nat) (calls : List (Call f)) :
    Except Stop (Hash D × List (Answer D)) := do
  let h ← hashCreate size
  performAll h calls

theorem represents_fresh (size : Nat) :
    Represents f.key (slots (fresh size : Hash D).table) fun _ => none := by
  rintro k d
  refine ⟨nofun, ?_⟩
  rintro ⟨⟨slot, hlive⟩, -⟩
  rw [fresh, slots_replicate] at hlive
  cases hlive

variable [DecidableEq K]

def meaning (m : K → Option D) : Call f → (K → Option D) × Answer D
  | .lookup k => (m, .entry (m k))
  | .insert k datum _ => (if (m k).isNone then update m k (some datum) else m, .done (m k).isNone)
  | .replace k datum _ => (if (m k).isSome then update m k (some datum) else m, .done (m k).isSome)
  | .delete k => (update m k none, .done (m k).isSome)

def meanings (m : K → Option D) : List (Call f) → (K → Option D) × List (Answer D)
  | [] => (m, [])
  | call :: calls =>
    ((meanings (meaning m call).1 calls).1,
      (meaning m call).2 :: (meanings (meaning m call).1 calls).2)

theorem perform_ok (hvalid : Valid f h) (hm : Represents f.key (slots h.table) m) {call : Call f}
    (hfits : Fits h call) :
    ∃ h', perform h call = .ok (h', (meaning m call).2) ∧ Valid f h' ∧
      Represents f.key (slots h'.table) (meaning m call).1 := by
  cases call with
  | lookup k =>
    refine ⟨h, ?_, hvalid, hm⟩
    simp only [perform, hashLookup_ok hvalid hm, bind, Except.bind, meaning]
  | insert k datum hkey =>
    subst hkey
    obtain ⟨h', hinsert, hvalid', hm'⟩ := hashInsert_ok hvalid hm datum hfits
    refine ⟨h', ?_, hvalid', hm'⟩
    simp only [perform, hinsert, bind, Except.bind, meaning]
  | replace k datum hkey =>
    subst hkey
    obtain ⟨h', hreplace, hvalid', hm'⟩ := hashReplace_live hvalid hm (d := datum)
    refine ⟨h', ?_, hvalid', hm'⟩
    simp only [perform, hreplace, bind, Except.bind, meaning]
  | delete k =>
    obtain ⟨h', hdelete, hvalid', hm'⟩ := hashDelete_ok hvalid hm k
    refine ⟨h', ?_, hvalid', hm'⟩
    simp only [perform, hdelete, bind, Except.bind, meaning]

theorem performAll_ok {calls : List (Call f)} (hvalid : Valid f h)
    (hm : Represents f.key (slots h.table) m) (hfit : AllFit h calls) :
    ∃ h', performAll h calls = .ok (h', (meanings m calls).2) ∧ Valid f h' ∧
      Represents f.key (slots h'.table) (meanings m calls).1 := by
  induction calls generalizing h m with
  | nil => exact ⟨h, rfl, hvalid, hm⟩
  | cons call calls ih =>
    obtain ⟨h₁, hperform, hvalid₁, hm₁⟩ := perform_ok hvalid hm hfit.1
    obtain ⟨h', hrest, hvalid', hm'⟩ := ih hvalid₁ hm₁ (hfit.2 _ _ hperform)
    refine ⟨h', ?_, hvalid', hm'⟩
    simp only [performAll, hperform, hrest, bind, Except.bind, meanings]

theorem performAll_undefined {calls : List (Call f)} (hvalid : Valid f h)
    (hm : Represents f.key (slots h.table) m)
    (hfit : ¬AllFit h calls) : performAll h calls = .error .undefined := by
  induction calls generalizing h m with
  | nil => exact absurd trivial hfit
  | cons call calls ih =>
    by_cases hfits : Fits h call
    · obtain ⟨h₁, hperform, hvalid₁, hm₁⟩ := perform_ok hvalid hm hfits
      have hrest : ¬AllFit h₁ calls := by
        refine fun hall => hfit ⟨hfits, fun h' answer h => ?_⟩
        cases hperform.symm.trans h
        exact hall
      simp only [performAll, hperform, ih hvalid₁ hm₁ hrest, bind, Except.bind]
    · simp only [performAll, perform_undefined hfits, bind, Except.bind]

/-- The table is the finite map `m`, and a slot is empty. -/
structure HoldsMap (f : Functions K D) (h : Hash D) (m : K → Option D) : Prop where
  held : Represents f.key (slots h.table) m
  counted : ∃ keys : Finset K, (∀ k, k ∈ keys ↔ (m k).isSome = true) ∧ hashCount h = keys.card
  room : ∃ slot < h.size, slots h.table slot = .empty

/-- The calls answer as they would of a map. -/
def Behaves (f : Functions K D) (size : Nat) (calls : List (Call f)) : Prop :=
  ∃ h, run f size calls = .ok (h, (meanings (fun _ => none) calls).2) ∧
    HoldsMap f h (meanings (fun _ => none) calls).1

theorem Valid.holdsMap (hvalid : Valid f h) (hm : Represents f.key (slots h.table) m) :
    HoldsMap f h m where
  held := hm
  room := hvalid.exists_empty
  counted := by
    refine ⟨((elements h.table).map f.key).toFinset, fun k => ?_, ?_⟩
    · rw [List.mem_toFinset, List.mem_map, Option.isSome_iff_exists]
      exact exists_congr fun d => ((represents_iff.mp hm k d).symm)
    · have hnodup : ((elements h.table).map f.key).Nodup :=
        List.pairwise_map.mpr hvalid.keys_pairwise
      rw [List.toFinset_card_of_nodup hnodup, List.length_map, hvalid.elements_length, hashCount]

theorem not_behaves_of_size {size : Nat} (hsize : 2 ^ 30 < size) (calls : List (Call f)) :
    ¬Behaves f size calls := by
  rintro ⟨h, hrun, -⟩
  simp only [run, hashCreate, hashSize_undefined hsize, bind, Except.bind] at hrun
  cases hrun

/-- A table behaves as a map as long as no size above `2 ^ 30` is asked of it. -/
theorem behaves_iff (f : Functions K D) (size : Nat) (calls : List (Call f)) :
    Behaves f size calls ↔ size ≤ 2 ^ 30 ∧ ∀ h, hashCreate size = .ok h → AllFit h calls := by
  by_cases hsize : size ≤ 2 ^ 30
  · obtain ⟨slots, hslots, hfour, -⟩ := hashSize_ok hsize
    have hcreate : (hashCreate size : Except Stop (Hash D)) = .ok (fresh slots) := by
      simp only [hashCreate, hslots, bind, Except.bind]
    have hrun : run f size calls = performAll (fresh slots) calls := by
      simp only [run, hcreate, bind, Except.bind]
    rw [and_iff_right hsize]
    constructor
    · rintro ⟨h, hok, -⟩ h₀ h₀eq
      obtain rfl := Except.ok.inj (hcreate.symm.trans h₀eq)
      by_contra hfit
      rw [hrun, performAll_undefined (valid_fresh hfour) (represents_fresh slots) hfit] at hok
      cases hok
    · intro hfit
      obtain ⟨h, hok, hvalid, hm⟩ :=
        performAll_ok (valid_fresh hfour) (represents_fresh slots) (hfit _ hcreate)
      exact ⟨h, hrun.trans hok, hvalid.holdsMap hm⟩
  · exact iff_of_false (not_behaves_of_size (Nat.lt_of_not_le hsize) calls) fun h => hsize h.1

def numbers : Functions Nat Nat := ⟨id, id, fun k d => d == k, fun _ _ => beq_iff_eq⟩

theorem not_behaves : ¬∀ size calls, Behaves numbers size calls := fun h =>
  not_behaves_of_size (Nat.lt_succ_self (2 ^ 30)) [] (h _ _)

end Runs

end Inn.Lib.HashTable
