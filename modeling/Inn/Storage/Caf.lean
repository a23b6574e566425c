import Mathlib

/-!
# CAF files

A CAF file holds many articles behind a table of contents. An article is present when its
number is in the range of the header, and its entry has a size. The cleaner moves the articles
and the table, and which articles are present stays as it was.
-/

namespace Inn.Storage

structure CAFTOCENT where
  Offset : Nat
  Size : Nat
  deriving DecidableEq

structure TOC where
  Low : Nat
  High : Nat
  entries : Nat → CAFTOCENT

def TOC.entry (toc : TOC) (art : Nat) : CAFTOCENT := toc.entries (art - toc.Low)

def TOC.Has (toc : TOC) (art : Nat) : Prop :=
    toc.Low ≤ art ∧ art ≤ toc.High ∧ (toc.entry art).Size ≠ 0

instance (toc : TOC) (art : Nat) : Decidable (toc.Has art) := inferInstanceAs (Decidable (_ ∧ _))

/-- A CAF file, in which each article is inside the file. -/
structure CAFFile extends TOC where
  NumSlots : Nat
  size : Nat
  inside : ∀ art, toTOC.Has art → (toTOC.entry art).Size + (toTOC.entry art).Offset ≤ size

def CAFOpenArtRead (file : Option CAFFile) (art : Nat) : Option CAFTOCENT :=
  match file with
  | none => none
  | some head =>
    if art < head.Low ∨ head.High < art then none
    else
      let tocent := head.entry art
      if tocent.Size = 0 then none
      else if head.size < tocent.Size + tocent.Offset then none
      else some tocent

def CAFReadTOC (file : Option CAFFile) : Option TOC := file.map CAFFile.toTOC

def Present (file : Option CAFFile) (art : Nat) : Prop := ∃ head, file = some head ∧ head.Has art

theorem CAFOpenArtRead_isSome_iff {file : Option CAFFile} {art : Nat} :
    (CAFOpenArtRead file art).isSome ↔ Present file art := by
  cases file with
  | none => exact ⟨nofun, nofun⟩
  | some head =>
    unfold CAFOpenArtRead
    dsimp only
    constructor
    · intro hopen
      split at hopen
      · cases hopen
      next hrange =>
        split at hopen
        · cases hopen
        next hsize => exact ⟨head, rfl, Nat.not_lt.mp fun h => hrange (.inl h),
          Nat.not_lt.mp fun h => hrange (.inr h), hsize⟩
    · rintro ⟨_, heq, hhas⟩
      obtain rfl := Option.some.inj heq
      rw [if_neg fun h => h.elim (Nat.not_lt.mpr hhas.1) (Nat.not_lt.mpr hhas.2.1), if_neg hhas.2.2,
        if_neg (Nat.not_lt.mpr (head.inside art hhas))]
      rfl

def CAF_DEFAULT_TOC_SIZE : Nat := 256 * 1024

def CAF_DEFAULT_BLOCKSIZE : Nat := 512

def tocStart : Nat := 96 + (416 + 512 * 416 * 8)

def CAFCreateCAFFile : CAFFile where
  Low := 1
  High := 1
  entries _ := ⟨0, 0⟩
  NumSlots := CAF_DEFAULT_TOC_SIZE
  size := tocStart + 24 * CAF_DEFAULT_TOC_SIZE + 1
  inside _ hhas := absurd rfl hhas.2.2

def TOC.finish (toc : TOC) (art startoffset len : Nat) : TOC where
  Low := toc.Low
  High := max toc.High art
  entries := fun slot => if slot = art - toc.Low then ⟨startoffset, len⟩ else toc.entries slot

theorem TOC.finish_entry {toc : TOC} {startoffset len art : Nat} (hlow : toc.Low ≤ art)
    (hhigh : art ≤ toc.High) :
    (toc.finish (toc.High + 1) startoffset len).entry art = toc.entry art := by
  refine if_neg ?_
  change ¬art - toc.Low = toc.High + 1 - toc.Low
  omega

theorem TOC.finish_next {toc : TOC} {startoffset len : Nat} :
    (toc.finish (toc.High + 1) startoffset len).entry (toc.High + 1) = ⟨startoffset, len⟩ :=
    if_pos rfl

theorem TOC.finish_has {toc : TOC} {startoffset len art : Nat} (hlow : toc.Low ≤ toc.High + 1) :
    (toc.finish (toc.High + 1) startoffset len).Has art ↔
      toc.Has art ∨ art = toc.High + 1 ∧ len ≠ 0 := by
  have hlast : (toc.finish (toc.High + 1) startoffset len).High = toc.High + 1 :=
    Nat.max_eq_right (Nat.le_succ _)
  unfold TOC.Has
  rw [hlast]
  by_cases hart : art = toc.High + 1
  · subst hart
    rw [TOC.finish_next]
    constructor
    · intro h
      exact .inr ⟨rfl, h.2.2⟩
    · rintro (h | h)
      · exact absurd h.2.1 (Nat.not_succ_le_self _)
      · exact ⟨hlow, Nat.le_refl _, h.2⟩
  · constructor
    · rintro ⟨hle, hhigh, hsize⟩
      have hold : art ≤ toc.High := by omega
      change toc.Low ≤ art at hle
      rw [TOC.finish_entry hle hold] at hsize
      exact .inl ⟨hle, hold, hsize⟩
    · rintro (⟨hle, hhigh, hsize⟩ | h)
      · refine ⟨hle, Nat.le_succ_of_le hhigh, ?_⟩
        rw [TOC.finish_entry hle hhigh]
        exact hsize
      · exact absurd h.1 hart

def CAFFile.finish (head : CAFFile) (startoffset len : Nat)
    (hlow : head.Low ≤ head.High + 1) : CAFFile where
  toTOC := head.toTOC.finish (head.High + 1) startoffset len
  NumSlots := head.NumSlots
  size := max head.size (startoffset + len)
  inside art hhas := by
    rcases (TOC.finish_has hlow).mp hhas with hold | ⟨rfl, _⟩
    · rw [TOC.finish_entry hold.1 hold.2.1]
      exact Nat.le_trans (head.inside art hold) (Nat.le_max_left _ _)
    · rw [TOC.finish_next]
      exact Nat.le_trans (Nat.le_of_eq (Nat.add_comm _ _)) (Nat.le_max_right _ _)

section Removing

def TOC.removeOne (toc : TOC) (art : Nat) : TOC :=
  { toc with
    entries := fun slot =>
      if slot = art - toc.Low ∧ toc.Has art then { toc.entries slot with Size := 0 }
        else toc.entries slot }

variable {toc : TOC} {art gone : Nat}

theorem TOC.removeOne_entry (hne : art ≠ gone) (hlow : toc.Low ≤ art) :
    (toc.removeOne gone).entry art = toc.entry art := by
  refine if_neg fun h => hne ?_
  have hthere := h.2.1
  have hslot : art - toc.Low = gone - toc.Low := h.1
  omega

theorem TOC.removeOne_has : (toc.removeOne gone).Has art ↔ toc.Has art ∧ art ≠ gone := by
  constructor
  · rintro ⟨hlow, hhigh, hsize⟩
    change toc.Low ≤ art at hlow
    by_cases heq : art = gone
    · subst heq
      exfalso
      by_cases hhas : toc.Has art
      · exact hsize (congrArg CAFTOCENT.Size (if_pos ⟨rfl, hhas⟩))
      · apply hhas
        refine ⟨hlow, hhigh, fun h => hsize ?_⟩
        exact (congrArg CAFTOCENT.Size (if_neg fun h' => hhas h'.2)).trans h
    · have hentry := TOC.removeOne_entry heq hlow
      exact ⟨⟨hlow, hhigh, fun h => hsize ((congrArg CAFTOCENT.Size hentry).trans h)⟩, heq⟩
  · rintro ⟨⟨hlow, hhigh, hsize⟩, hne⟩
    have hentry := TOC.removeOne_entry hne hlow
    exact ⟨hlow, hhigh, fun h => hsize ((congrArg CAFTOCENT.Size hentry).symm.trans h)⟩

def CAFFile.removeOne (head : CAFFile) (gone : Nat) : CAFFile where
  toTOC := head.toTOC.removeOne gone
  NumSlots := head.NumSlots
  size := head.size
  inside art hhas := by
    obtain ⟨hold, hne⟩ := TOC.removeOne_has.mp hhas
    have hentry := TOC.removeOne_entry hne hold.1
    rw [hentry]
    exact head.inside art hold

theorem CAFFile.removeAll_has {artnums : List Nat} {head : CAFFile} :
    (artnums.foldl CAFFile.removeOne head).Has art ↔ head.Has art ∧ art ∉ artnums := by
  induction artnums generalizing head with
  | nil => exact ⟨fun h => ⟨h, List.not_mem_nil⟩, fun h => h.1⟩
  | cons gone artnums ih =>
    rw [List.foldl_cons, ih, List.mem_cons, not_or]
    exact (and_congr_left' TOC.removeOne_has).trans and_assoc

end Removing

section Cleaning

variable {art : Nat}

def TOC.newlow (toc : TOC) : Nat → Nat → Nat
  | 0, _ => toc.High + 1
  | n + 1, i => if (toc.entries (i - toc.Low)).Size ≠ 0 then i else toc.newlow n (i + 1)

theorem TOC.le_newlow {toc : TOC} {n i : Nat} (hend : i + n = toc.High + 1) :
    i ≤ toc.newlow n i := by
  induction n generalizing i with
  | zero => exact Nat.le_of_eq hend
  | succ n ih =>
    unfold TOC.newlow
    split
    · exact Nat.le_refl i
    · exact Nat.le_of_succ_le (ih (by omega))

theorem TOC.newlow_le {toc : TOC} {n i : Nat} (hend : i + n = toc.High + 1) (hhas : toc.Has art)
    (hfrom : i ≤ art) :
    toc.newlow n i ≤ art := by
  induction n generalizing i with
  | zero =>
    have := hhas.2.1
    omega
  | succ n ih =>
    unfold TOC.newlow
    split
    · exact hfrom
    next hsize =>
      have hne : i ≠ art := by
        rintro rfl
        exact hsize hhas.2.2
      exact ih (by omega) (by omega)

def TOC.compact (toc : TOC) (newlow : Nat) : TOC where
  Low := newlow
  High := toc.High
  entries :=
    fun slot => if slot < toc.High - newlow + 1 then toc.entries (slot + (newlow - toc.Low))
    else toc.entries slot

theorem TOC.compact_entry {toc : TOC} {newlow : Nat} (hlow : toc.Low ≤ newlow)
    (hfrom : newlow ≤ art) (hhigh : art ≤ toc.High) :
    (toc.compact newlow).entry art = toc.entry art := by
  unfold TOC.compact TOC.entry
  dsimp only
  rw [if_pos (by omega), show art - newlow + (newlow - toc.Low) = art - toc.Low by omega]

theorem TOC.compact_has {toc : TOC} {newlow : Nat} (hlow : toc.Low ≤ newlow)
    (hfirst : ∀ art, toc.Has art → newlow ≤ art) :
    (toc.compact newlow).Has art ↔ toc.Has art := by
  constructor
  · rintro ⟨hfrom, hhigh, hsize⟩
    have hentry := TOC.compact_entry hlow hfrom hhigh
    exact ⟨Nat.le_trans hlow hfrom, hhigh,
      fun h => hsize ((congrArg CAFTOCENT.Size hentry).trans h)⟩
  · intro hhas
    have hentry := TOC.compact_entry hlow (hfirst art hhas) hhas.2.1
    exact ⟨hfirst art hhas, hhas.2.1,
      fun h => hhas.2.2 ((congrArg CAFTOCENT.Size hentry).symm.trans h)⟩

def CAFFile.compact (head : CAFFile) (newlow : Nat) (hlow : head.Low ≤ newlow)
    (hfirst : ∀ art, head.Has art → newlow ≤ art) :
    CAFFile where
  toTOC := head.toTOC.compact newlow
  NumSlots := head.NumSlots
  size := head.size
  inside art hhas := by
    have hold := (TOC.compact_has hlow hfirst).mp hhas
    have hentry := TOC.compact_entry hlow (hfirst art hold) hold.2.1
    rw [hentry]
    exact head.inside art hold

theorem CAFFile.compact_has {head : CAFFile} {newlow : Nat} {hlow : head.Low ≤ newlow}
    {hfirst : ∀ art, head.Has art → newlow ≤ art} : (head.compact newlow hlow hfirst).Has art ↔
      head.Has art :=
  TOC.compact_has hlow hfirst

def CAFRoundOffsetUp (off : Nat) : Nat :=
    (off + CAF_DEFAULT_BLOCKSIZE - 1) / CAF_DEFAULT_BLOCKSIZE * CAF_DEFAULT_BLOCKSIZE

theorem le_CAFRoundOffsetUp (off : Nat) : off ≤ CAFRoundOffsetUp off := by
  unfold CAFRoundOffsetUp CAF_DEFAULT_BLOCKSIZE
  omega

def TOC.copied (toc : TOC) (startoffset : Nat) : Nat → Nat
  | 0 => startoffset
  | slot + 1 =>
    if (toc.entries slot).Size ≠ 0 then CAFRoundOffsetUp
      (toc.copied startoffset slot + (toc.entries slot).Size)
    else toc.copied startoffset slot

theorem TOC.copied_mono (toc : TOC) (startoffset : Nat) : Monotone (toc.copied startoffset) := by
  refine monotone_nat_of_le_succ fun slot => ?_
  rw [TOC.copied]
  split
  · exact Nat.le_trans (Nat.le_add_right _ _) (le_CAFRoundOffsetUp _)
  · exact Nat.le_refl _

theorem TOC.copied_end (toc : TOC) (startoffset : Nat) (hhas : toc.Has art) :
    (toc.entry art).Size + toc.copied startoffset (art - toc.Low) ≤ toc.copied startoffset
    (toc.High - toc.Low + 1) := by
  have hnext : toc.copied startoffset (art - toc.Low + 1) =
      CAFRoundOffsetUp (toc.copied startoffset (art - toc.Low) + (toc.entry art).Size) :=
        if_pos hhas.2.2
  have hslot : art - toc.Low + 1 ≤ toc.High - toc.Low + 1 :=
    Nat.succ_le_succ (Nat.sub_le_sub_right hhas.2.1 _)
  calc (toc.entry art).Size + toc.copied startoffset (art - toc.Low)
      = toc.copied startoffset (art - toc.Low) + (toc.entry art).Size := Nat.add_comm _ _
    _ ≤ CAFRoundOffsetUp (toc.copied startoffset (art - toc.Low) + (toc.entry art).Size) :=
      le_CAFRoundOffsetUp _
    _ = toc.copied startoffset (art - toc.Low + 1) := hnext.symm
    _ ≤ toc.copied startoffset (toc.High - toc.Low + 1) := toc.copied_mono startoffset hslot

def TOC.rewrite (toc : TOC) (newlow startoffset : Nat) : TOC where
  Low := newlow
  High := toc.High
  entries := fun slot =>
    if slot < toc.High - newlow + 1 ∧ (toc.entries (slot + (newlow - toc.Low))).Size ≠ 0 then
      ⟨toc.copied startoffset (slot + (newlow - toc.Low)),
        (toc.entries (slot + (newlow - toc.Low))).Size⟩
    else ⟨0, 0⟩

theorem TOC.rewrite_entry {toc : TOC} {newlow : Nat} (startoffset : Nat) (hlow : toc.Low ≤ newlow)
    (hfrom : newlow ≤ art) (hhas : toc.Has art) :
    (toc.rewrite newlow startoffset).entry art = ⟨toc.copied startoffset (art - toc.Low),
      (toc.entry art).Size⟩ := by
  have hhigh := hhas.2.1
  have hslot : art - newlow + (newlow - toc.Low) = art - toc.Low := by omega
  have hin : art - newlow < toc.High - newlow + 1 ∧
      (toc.entries (art - newlow + (newlow - toc.Low))).Size ≠ 0 := by
    rw [hslot]
    exact ⟨by omega, hhas.2.2⟩
  refine (if_pos hin).trans ?_
  change (⟨toc.copied startoffset (art - newlow + (newlow - toc.Low)),
    (toc.entries (art - newlow + (newlow - toc.Low))).Size⟩ : CAFTOCENT) = _
  rw [hslot]
  rfl

theorem TOC.rewrite_has {toc : TOC} {newlow startoffset : Nat} (hlow : toc.Low ≤ newlow)
    (hfirst : ∀ art, toc.Has art → newlow ≤ art) : (toc.rewrite newlow startoffset).Has art ↔
      toc.Has art := by
  constructor
  · rintro ⟨hfrom, hhigh, hsize⟩
    change newlow ≤ art at hfrom
    change art ≤ toc.High at hhigh
    refine ⟨Nat.le_trans hlow hfrom, hhigh, fun h => hsize ?_⟩
    have hslot : art - newlow + (newlow - toc.Low) = art - toc.Low := by omega
    unfold TOC.rewrite TOC.entry
    dsimp only
    rw [hslot]
    exact congrArg CAFTOCENT.Size (if_neg fun h' => h'.2 h)
  · intro hhas
    have hentry := TOC.rewrite_entry startoffset hlow (hfirst art hhas) hhas
    exact ⟨hfirst art hhas, hhas.2.1,
      fun h => hhas.2.2 ((congrArg CAFTOCENT.Size hentry).symm.trans h)⟩

def CAFFile.rewrite (head : CAFFile) (newlow newtocsize : Nat) (hlow : head.Low ≤ newlow)
    (hfirst : ∀ art, head.Has art → newlow ≤ art) : CAFFile where
  toTOC := head.toTOC.rewrite newlow (CAFRoundOffsetUp (tocStart + 24 * newtocsize + 1))
  NumSlots := newtocsize
  size := head.copied (CAFRoundOffsetUp (tocStart + 24 * newtocsize + 1)) (head.High - head.Low + 1)
  inside art hhas := by
    have hold := (TOC.rewrite_has hlow hfirst).mp hhas
    rw [TOC.rewrite_entry _ hlow (hfirst art hold) hold]
    exact head.toTOC.copied_end _ hold

theorem CAFFile.rewrite_has {head : CAFFile} {newlow newtocsize : Nat} {hlow : head.Low ≤ newlow}
    {hfirst : ∀ art, head.Has art → newlow ≤ art} :
    (head.rewrite newlow newtocsize hlow hfirst).Has art ↔ head.Has art :=
  TOC.rewrite_has hlow hfirst

structure Space where
  percentfreeLow : Bool
  full : Bool
  deriving DecidableEq

def CAFClean (head : CAFFile) (space : Space) : Option CAFFile :=
  let newlow := head.newlow (head.High + 1 - head.Low) head.Low
  if hempty : newlow = head.High + 1 then none
  else
    have hlow : head.Low ≤ newlow := by
      by_cases hle : head.Low ≤ head.High + 1
      · exact head.le_newlow (Nat.add_sub_cancel' hle)
      · refine absurd ?_ hempty
        change head.newlow (head.High + 1 - head.Low) head.Low = head.High + 1
        rw [Nat.sub_eq_zero_of_le (Nat.le_of_not_le hle)]
        rfl
    have hfirst : ∀ art, head.Has art → newlow ≤ art := fun art hhas =>
      TOC.newlow_le (Nat.add_sub_cancel' (Nat.le_succ_of_le (Nat.le_trans hhas.1 hhas.2.1))) hhas
        hhas.1
    let toc_needs_expansion := head.NumSlots / 10 ≤ head.High - newlow
    let toc_needs_compacting := head.Low + head.NumSlots - head.NumSlots / 5 ≤ head.High
    if space.percentfreeLow ∧ ¬toc_needs_expansion then
      if toc_needs_compacting then some (head.compact newlow hlow hfirst) else some head
    else if space.full then some head
    else
      let newtocsize :=
        if CAF_DEFAULT_TOC_SIZE / 10 < head.High - newlow then 10 * (head.High - newlow)
          else CAF_DEFAULT_TOC_SIZE
      some (head.rewrite newlow newtocsize hlow hfirst)

theorem CAFClean_present {head : CAFFile} {space : Space} : Present (CAFClean head space) art ↔
    head.Has art := by
  have hsame (head' : CAFFile) : Present (some head') art ↔ head'.Has art := by
    constructor
    · rintro ⟨_, heq, hhas⟩
      obtain rfl := Option.some.inj heq
      exact hhas
    · intro hhas
      exact ⟨head', rfl, hhas⟩
  unfold CAFClean
  dsimp only
  split
  next hempty =>
    constructor
    · rintro ⟨_, heq, _⟩
      cases heq
    · intro hhas
      have hend := Nat.add_sub_cancel' (Nat.le_succ_of_le (Nat.le_trans hhas.1 hhas.2.1))
      have hle : head.High + 1 ≤ art := hempty.symm.trans_le (TOC.newlow_le hend hhas hhas.1)
      exact absurd hhas.2.1 (Nat.not_le.mpr hle)
  next =>
    split
    · split
      · exact (hsame _).trans CAFFile.compact_has
      · exact hsame head
    · split
      · exact hsame head
      · exact (hsame _).trans CAFFile.rewrite_has

def CAFRemoveMultArts (file : Option CAFFile) (artnums : List Nat) (space : Space) :
    Option CAFFile :=
  match file with
  | none => none
  | some head => CAFClean (artnums.foldl CAFFile.removeOne head) space

theorem CAFRemoveMultArts_present {file : Option CAFFile} {artnums : List Nat} {space : Space} :
    Present (CAFRemoveMultArts file artnums space) art ↔ Present file art ∧ art ∉ artnums := by
  cases file with
  | none =>
    constructor
    · rintro ⟨_, heq, _⟩
      cases heq
    · rintro ⟨⟨_, heq, _⟩, _⟩
      cases heq
  | some head =>
    refine CAFClean_present.trans (CAFFile.removeAll_has.trans (and_congr_left' ?_))
    constructor
    · intro hhas
      exact ⟨head, rfl, hhas⟩
    · rintro ⟨_, heq, hhas⟩
      cases heq
      exact hhas

end Cleaning

end Inn.Storage
