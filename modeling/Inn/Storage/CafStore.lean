import Inn.Storage.FileStores
import Inn.Storage.TocCache

/-!
# Stores into CAF files that fail

An article is written over free blocks or at the end of its CAF file, and then its entry, the
bitmap of the free blocks and the header. Only the header makes it an article of the file, so
that what fails before that leaves nothing. What fails when the next article is to be started in
the file that is open leaves a descriptor that is closed and a path that is freed.
-/

namespace Inn.Storage.CafStore

open Timecaf (CAFPath MakePath Token)
open Function (update update_self)

structure Caf extends TOC where
  NumSlots : Nat
  size : Nat
  free : Nat → Bool
  octet : Nat → UInt8

def Caf.article (caf : Caf) (art : Nat) : Option Octets :=
  if caf.Has art then
    some ((List.range (caf.entry art).Size).map fun i => caf.octet ((caf.entry art).Offset + i))
  else none

/-- The articles are inside the file, and on no free block. -/
structure Caf.Sound (caf : Caf) : Prop where
  inside : ∀ art, caf.Has art → (caf.entry art).Offset + (caf.entry art).Size ≤ caf.size
  apart : ∀ art, caf.Has art → ∀ i < (caf.entry art).Size,
    caf.free (((caf.entry art).Offset + i) / CAF_DEFAULT_BLOCKSIZE) = false
  freeInside : ∀ block, caf.free block → block * CAF_DEFAULT_BLOCKSIZE < caf.size

def Caf.fresh : Caf where
  Low := 1
  High := 1
  entries _ := ⟨0, 0⟩
  NumSlots := CAF_DEFAULT_TOC_SIZE
  size := tocStart + 24 * CAF_DEFAULT_TOC_SIZE + 1
  free _ := false
  octet _ := 0

def numblks (len : Nat) : Nat := (len + CAF_DEFAULT_BLOCKSIZE - 1) / CAF_DEFAULT_BLOCKSIZE

def CAFFindFreeBlocks (caf : Caf) (n : Nat) : Option Nat :=
  (List.range (numblks caf.size)).find? fun block => (List.range n).all fun i =>
    caf.free (block + i)

def Caf.startoffset (caf : Caf) (unreadable : Bool) (len : Nat) : Nat × Bool :=
  match if len = 0 ∨ unreadable then none else CAFFindFreeBlocks caf (numblks len) with
  | some block => (block * CAF_DEFAULT_BLOCKSIZE, true)
  | none => (CAFRoundOffsetUp caf.size, false)

def Caf.Fits (caf : Caf) : Prop := caf.Low ≤ caf.High + 1 ∧ caf.High + 1 < caf.Low + caf.NumSlots

instance (caf : Caf) : Decidable caf.Fits := inferInstanceAs (Decidable (_ ∧ _))

def Caf.pwrite (caf : Caf) (offset : Nat) (octets : Octets) : Caf :=
  { caf with
    size := max caf.size (offset + octets.length)
    octet := fun i => if offset ≤ i ∧ i < offset + octets.length then octets.getD (i - offset) 0
      else caf.octet i }

def Caf.setEntry (caf : Caf) (tocentry : CAFTOCENT) : Caf :=
  { caf with entries := fun slot =>
    if slot = caf.High + 1 - caf.Low then tocentry else caf.entries slot }

def Caf.use (caf : Caf) (offset n : Nat) (written : Nat → Bool) : Caf :=
  { caf with
    free := fun block =>
      caf.free block && !(decide (offset / CAF_DEFAULT_BLOCKSIZE ≤ block ∧
        block < offset / CAF_DEFAULT_BLOCKSIZE + n) && written block) }

def Caf.entered (caf : Caf) (startoffset : Nat) (inFree : Bool) (octets : Octets)
    (written : Nat → Bool) : Caf :=
  if inFree then
    ((caf.pwrite startoffset octets).setEntry ⟨startoffset, octets.length⟩).use startoffset
      (numblks octets.length) written
  else (caf.pwrite startoffset octets).setEntry ⟨startoffset, octets.length⟩

def Caf.finished (caf : Caf) (startoffset : Nat) (inFree : Bool) (octets : Octets) : Caf :=
  { caf.entered startoffset inFree octets fun _ => true with High := caf.High + 1 }

def highAfter (High n : Nat) : Nat :=
  (High + 1) % 256 ^ min 8 (n - 24) + High / 256 ^ min 8 (n - 24) * 256 ^ min 8 (n - 24)

inductive Failure
  /-- `CAFOpenArtWrite` does not open or make the file, nor behind `MakeDirectory`. -/
  | opening
  /-- `CAFStartWriteFd` does not read the header, or does not seek. -/
  | starting
  /-- Only so many octets of the article are written. -/
  | writing (n : Nat)
  /-- `CAFFinishArtWrite` does not seek to the entry. -/
  | seeking
  /-- A part of the entry is written. -/
  | tocentry (entry : CAFTOCENT)
  /-- The bits of some of the blocks are written. -/
  | bitmap (written : Nat → Bool)
  /-- Only so many octets of the header are written. -/
  | header (n : Nat)

def failsOpening (failure : Option Failure) : Bool := failure matches some .opening

def failsStarting (failure : Option Failure) : Bool := failure matches some .starting

def Caf.write (caf : Caf) (failure : Option Failure) (startoffset : Nat) (inFree : Bool)
    (octets : Octets) : Bool × Caf :=
  match failure with
  | some (.writing n) => (false, caf.pwrite startoffset (octets.take n))
  | some .seeking => (false, caf.pwrite startoffset octets)
  | some (.tocentry entry) => (false, (caf.pwrite startoffset octets).setEntry entry)
  | _ =>
    match failure, inFree with
    | some (.bitmap written), true => (false, caf.entered startoffset true octets written)
    | some (.header n), _ =>
      (false, { caf.entered startoffset inFree octets fun _ =>
        true with High := highAfter caf.High n })
    | _, _ => (true, caf.finished startoffset inFree octets)

inductive WritingFile
  | closed
  | opened (path : CAFPath)
  | dangling
  deriving DecidableEq

structure Spool where
  files : CAFPath → Option Caf
  WritingFile : WritingFile

inductive Fault
  | useAfterFree
  deriving DecidableEq

def Spool.caf (s : Spool) (path : CAFPath) : Caf := (s.files path).getD Caf.fresh

def storePath (tokenclass arrived now : Nat) : CAFPath :=
    MakePath ((if arrived = 0 then now else arrived) / 2 ^ 8) tokenclass

def MakeToken (tokenclass arrived now art : Nat) : Token :=
  ⟨tokenclass, (if arrived = 0 then now else arrived) / 2 ^ 8 % 2 ^ 32, art % 2 ^ 32⟩

def Spool.timecafStore (s : Spool) (failure : Option Failure) (unreadable : Bool)
    (tokenclass arrived now : Nat) (octets : Octets) :
    Except Fault (Option Token × Spool) :=
  let path := storePath tokenclass arrived now
  if s.WritingFile = .dangling then .error .useAfterFree
  else if s.WritingFile ≠ .opened path ∧ failsOpening failure then .ok (none,
    { s with WritingFile := .closed })
  else
    let caf := s.caf path
    if failsStarting failure ∨ ¬caf.Fits then
      .ok (none, ⟨update s.files path (some caf),
        if s.WritingFile = .opened path then .dangling else .closed⟩)
    else
      let (startoffset, inFree) := caf.startoffset unreadable octets.length
      match caf.write failure startoffset inFree octets with
      | (true, caf') =>
        .ok (some (MakeToken tokenclass arrived now (caf.High + 1)),
          ⟨update s.files path (some caf'), .opened path⟩)
      -- `CloseOpenFile`
      | (false, caf') => .ok (none, ⟨update s.files path (some caf'), .closed⟩)

def Spool.seen (s : Spool) (path : CAFPath) (art : Nat) : Option Octets :=
    (s.files path).bind (Caf.article · art)

def Spool.next (s : Spool) (tokenclass arrived now : Nat) (octets : Octets) :
    Except Fault (Option Token × (CAFPath → Nat → Option Octets)) :=
  match s.timecafStore none false tokenclass arrived now octets with
  | .error fault => .error fault
  | .ok (token, s') => .ok (token, s'.seen)

section Placing

variable {caf : Caf} {startoffset len : Nat} {inFree unreadable : Bool}

def Vacant (caf : Caf) (startoffset len : Nat) : Prop :=
  ∀ art, caf.Has art → ∀ i < (caf.entry art).Size,
    ¬(startoffset ≤ (caf.entry art).Offset + i ∧ (caf.entry art).Offset + i < startoffset + len)

/-- The place is in free blocks, or at the end of the file. -/
def Placed (caf : Caf) (startoffset : Nat) (inFree : Bool) (len : Nat) : Prop :=
  if inFree then
    startoffset % CAF_DEFAULT_BLOCKSIZE = 0 ∧
      ∀ i < len, caf.free ((startoffset + i) / CAF_DEFAULT_BLOCKSIZE)
  else caf.size ≤ startoffset ∧ startoffset % CAF_DEFAULT_BLOCKSIZE = 0

theorem startoffset_placed : Placed caf (caf.startoffset unreadable len).1
    (caf.startoffset unreadable len).2 len := by
  unfold Caf.startoffset
  split
  next block hfind =>
    split at hfind
    · cases hfind
    · have hall := List.find?_some hfind
      rw [List.all_eq_true] at hall
      refine (if_pos rfl).mpr ⟨Nat.mul_mod_left _ _, fun i hi => ?_⟩
      have hblock : (block * CAF_DEFAULT_BLOCKSIZE + i) / CAF_DEFAULT_BLOCKSIZE =
          block + i / CAF_DEFAULT_BLOCKSIZE := by
        unfold CAF_DEFAULT_BLOCKSIZE
        omega
      rw [hblock]
      refine hall _ (List.mem_range.mpr ?_)
      unfold numblks CAF_DEFAULT_BLOCKSIZE
      omega
  next => exact (if_neg Bool.false_ne_true).mpr ⟨le_CAFRoundOffsetUp _, Nat.mul_mod_left _ _⟩

theorem Placed.vacant (hsound : caf.Sound) (hplaced : Placed caf startoffset inFree len) :
    Vacant caf startoffset len := by
  rintro art hhas i hi ⟨hfrom, hto⟩
  cases inFree with
  | true =>
    have hfree := ((if_pos rfl).mp hplaced).2 ((caf.entry art).Offset + i - startoffset) (by omega)
    rw [Nat.add_sub_cancel' hfrom, hsound.apart art hhas i hi] at hfree
    cases hfree
  | false =>
    have hend := ((if_neg Bool.false_ne_true).mp hplaced).1
    have hinside := hsound.inside art hhas
    omega

theorem Placed.apart (hsound : caf.Sound) (hplaced : Placed caf startoffset inFree len) {i : Nat}
    (hi : i < len) :
    (if inFree then caf.use startoffset (numblks len) fun _ => true else caf).free
      ((startoffset + i) / CAF_DEFAULT_BLOCKSIZE) = false := by
  cases inFree with
  | true =>
    have hstart := ((if_pos rfl).mp hplaced).1
    have hblock : startoffset / CAF_DEFAULT_BLOCKSIZE ≤ (startoffset + i) / CAF_DEFAULT_BLOCKSIZE ∧
        (startoffset + i) / CAF_DEFAULT_BLOCKSIZE < startoffset / CAF_DEFAULT_BLOCKSIZE +
          numblks len := by
      unfold numblks CAF_DEFAULT_BLOCKSIZE at *
      omega
    rw [if_pos rfl]
    unfold Caf.use
    dsimp only
    rw [decide_eq_true hblock, Bool.and_self, Bool.not_true, Bool.and_false]
  | false =>
    obtain ⟨hend, hstart⟩ := (if_neg Bool.false_ne_true).mp hplaced
    rw [if_neg Bool.false_ne_true, Bool.eq_false_iff]
    intro hfree
    have hinside := hsound.freeInside _ hfree
    unfold CAF_DEFAULT_BLOCKSIZE at *
    omega

end Placing

section Keeping

variable {caf caf' : Caf} {startoffset art : Nat} {octets : Octets}

/-- No article of the file is changed. -/
structure Keeps (caf caf' : Caf) : Prop where
  low : caf'.Low = caf.Low
  high : caf'.High = caf.High
  slots : caf'.NumSlots = caf.NumSlots
  article : caf'.article = caf.article
  sound : caf'.Sound

theorem article_congr (hhas : ∀ art, caf'.Has art ↔ caf.Has art)
    (hentry : ∀ art, caf.Has art → caf'.entry art = caf.entry art)
    (hoctet : ∀ art, caf.Has art → ∀ i < (caf.entry art).Size,
      caf'.octet ((caf.entry art).Offset + i) = caf.octet ((caf.entry art).Offset + i)) :
    caf'.article = caf.article := by
  funext art
  unfold Caf.article
  by_cases h : caf.Has art
  · rw [if_pos h, if_pos ((hhas art).mpr h), hentry art h]
    refine congrArg some (List.map_congr_left fun i hi => ?_)
    exact hoctet art h i (List.mem_range.mp hi)
  · rw [if_neg h, if_neg fun h' => h ((hhas art).mp h')]

theorem Keeps.refl (hsound : caf.Sound) : Keeps caf caf := ⟨rfl, rfl, rfl, rfl, hsound⟩

theorem Keeps.pwrite (hkeeps : Keeps caf caf') (hvacant : Vacant caf' startoffset octets.length) :
    Keeps caf (caf'.pwrite startoffset octets) where
  low := hkeeps.low
  high := hkeeps.high
  slots := hkeeps.slots
  article := by
    rw [← hkeeps.article]
    exact article_congr (fun _ => Iff.rfl) (fun _ _ => rfl) fun art hhas i hi =>
      if_neg (hvacant art hhas i hi)
  sound := by
    obtain ⟨hinside, hapart, hfree⟩ := hkeeps.sound
    exact ⟨fun art hhas => (hinside art hhas).trans (Nat.le_max_left _ _), hapart,
      fun block h => Nat.lt_of_lt_of_le (hfree block h) (Nat.le_max_left _ _)⟩

theorem setEntry_entry {tocentry : CAFTOCENT} (hfits : caf.Fits) (hlow : caf.Low ≤ art)
    (hhigh : art ≤ caf.High) :
    (caf.setEntry tocentry).entry art = caf.entry art := by
  refine if_neg ?_
  have hnext := hfits.1
  change ¬art - caf.Low = caf.High + 1 - caf.Low
  omega

theorem setEntry_has {tocentry : CAFTOCENT} (hfits : caf.Fits) : (caf.setEntry tocentry).Has art ↔
    caf.Has art := by
  constructor
  · rintro ⟨hlow, hhigh, hsize⟩
    rw [setEntry_entry hfits hlow hhigh] at hsize
    exact ⟨hlow, hhigh, hsize⟩
  · rintro ⟨hlow, hhigh, hsize⟩
    refine ⟨hlow, hhigh, ?_⟩
    rw [setEntry_entry hfits hlow hhigh]
    exact hsize

theorem Keeps.fits (hkeeps : Keeps caf caf') : caf'.Fits ↔ caf.Fits := by
  unfold Caf.Fits
  rw [hkeeps.low, hkeeps.high, hkeeps.slots]

theorem Keeps.setEntry (hkeeps : Keeps caf caf') (hfits : caf.Fits) (tocentry : CAFTOCENT) :
    Keeps caf (caf'.setEntry tocentry) where
  low := hkeeps.low
  high := hkeeps.high
  slots := hkeeps.slots
  article := by
    rw [← hkeeps.article]
    have hfits := hkeeps.fits.mpr hfits
    exact article_congr (fun _ => setEntry_has hfits) (fun _ hhas =>
      setEntry_entry hfits hhas.1 hhas.2.1) fun _ _ _ _ => rfl
  sound := by
    have hfits := hkeeps.fits.mpr hfits
    obtain ⟨hinside, hapart, hfree⟩ := hkeeps.sound
    refine ⟨fun art hhas => ?_, fun art hhas => ?_, hfree⟩
    · have hhas := (setEntry_has hfits).mp hhas
      rw [setEntry_entry hfits hhas.1 hhas.2.1]
      exact hinside art hhas
    · have hhas := (setEntry_has hfits).mp hhas
      rw [setEntry_entry hfits hhas.1 hhas.2.1]
      exact hapart art hhas

theorem Keeps.use (hkeeps : Keeps caf caf') (startoffset n : Nat) (written : Nat → Bool) :
    Keeps caf (caf'.use startoffset n written) where
  low := hkeeps.low
  high := hkeeps.high
  slots := hkeeps.slots
  article := by
    rw [← hkeeps.article]
    exact article_congr (fun _ => Iff.rfl) (fun _ _ => rfl) fun _ _ _ _ => rfl
  sound := by
    obtain ⟨hinside, hapart, hfree⟩ := hkeeps.sound
    refine ⟨hinside, fun art hhas i hi => ?_, fun block h => hfree block ?_⟩
    · exact Bool.and_eq_false_imp.mpr fun h =>
        absurd ((hapart art hhas i hi).symm.trans h) Bool.false_ne_true
    · exact (Bool.and_eq_true_iff.mp h).1

theorem Keeps.sameHigh (hkeeps : Keeps caf caf') : Keeps caf { caf' with High := caf.High } := by
  rw [← hkeeps.high]
  exact hkeeps

end Keeping

section Headers

variable {High n : Nat}

theorem highAfter_before (High : Nat) (hn : n ≤ 24) : highAfter High n = High := by
  unfold highAfter
  rw [Nat.sub_eq_zero_of_le hn, Nat.min_eq_right (Nat.zero_le 8), Nat.pow_zero, Nat.mod_one,
    Nat.div_one, Nat.mul_one, Nat.zero_add]

theorem highAfter_mod (High : Nat) (hn : 24 < n) : highAfter High n % 256 = (High + 1) % 256 := by
  obtain ⟨k, hk⟩ : ∃ k, min 8 (n - 24) = k + 1 := Nat.exists_eq_add_one_of_ne_zero (by omega)
  unfold highAfter
  rw [hk, Nat.pow_succ, ← Nat.mul_assoc, Nat.add_mul_mod_self_right]
  exact Nat.mod_mul_left_mod _ _ _

end Headers

section Finishing

variable {caf : Caf} {startoffset : Nat} {inFree : Bool} {octets : Octets}
    {failure : Option Failure}

theorem entered_keeps (hsound : caf.Sound) (hfits : caf.Fits)
    (hvacant : Vacant caf startoffset octets.length) (inFree : Bool) (written : Nat → Bool) :
    Keeps caf (caf.entered startoffset inFree octets written) := by
  have hentered := ((Keeps.refl hsound).pwrite hvacant).setEntry hfits ⟨startoffset, octets.length⟩
  unfold Caf.entered
  split
  · exact hentered.use _ _ _
  · exact hentered

theorem write_keeps (hsound : caf.Sound) (hfits : caf.Fits)
    (hvacant : Vacant caf startoffset octets.length)
    (hheader : ∀ n, failure = some (.header n) → n ≤ 24)
    (hwrite : (caf.write failure startoffset inFree octets).1 = false) :
    Keeps caf (caf.write failure startoffset inFree octets).2 := by
  have hentered := entered_keeps hsound hfits hvacant inFree
  have hpwrite := (Keeps.refl hsound).pwrite hvacant
  cases failure with
  | none => cases inFree <;> cases hwrite
  | some failure =>
    cases failure with
    | opening => cases inFree <;> cases hwrite
    | starting => cases inFree <;> cases hwrite
    | writing n =>
      refine (Keeps.refl hsound).pwrite fun art hhas i hi hat => hvacant art hhas i hi ⟨hat.1, ?_⟩
      have hlength := List.length_take_le' n octets
      omega
    | seeking => exact hpwrite
    | tocentry entry => exact hpwrite.setEntry hfits entry
    | bitmap written =>
      cases inFree with
      | true => exact hentered written
      | false => cases hwrite
    | header n =>
      have hsame := (hentered fun _ => true).sameHigh
      rw [← highAfter_before caf.High (hheader n rfl)] at hsame
      cases inFree <;> exact hsame

theorem write_header (n : Nat) : caf.write (some (.header n)) startoffset inFree octets =
    (false, { caf.entered startoffset inFree octets (fun _ => true)
      with High := highAfter caf.High n }) := by
  cases inFree <;> rfl

theorem write_finished (hwrite : (caf.write failure startoffset inFree octets).1 = true) :
    (caf.write failure startoffset inFree octets).2 = caf.finished startoffset inFree octets := by
  cases failure with
  | none => cases inFree <;> rfl
  | some failure => cases failure <;> cases inFree <;> first | rfl | cases hwrite

theorem write_none :
    caf.write none startoffset inFree octets = (true, caf.finished startoffset inFree octets) := by
  cases inFree <;> rfl

theorem raised (hsound : caf.Sound) (hfits : caf.Fits)
    (hplaced : Placed caf startoffset inFree octets.length) :
    (caf.finished startoffset inFree octets).Sound ∧
      ∀ art, (caf.finished startoffset inFree octets).article art =
        if art = caf.High + 1 then if octets = [] then none else some octets
          else caf.article art := by
  have hkeeps := entered_keeps hsound hfits (hplaced.vacant hsound) inFree fun _ => true
  have hlow := hkeeps.low
  have hhigh := hkeeps.high
  have hentry : (caf.entered startoffset inFree octets fun _ => true).entry (caf.High + 1) =
      ⟨startoffset, octets.length⟩ := by
    cases inFree <;> exact if_pos rfl
  have hoctet : ∀ i < octets.length, (caf.entered startoffset inFree octets fun _ => true).octet
      (startoffset + i) = octets.getD i 0 := by
    intro i hi
    have hwritten : (caf.pwrite startoffset octets).octet (startoffset + i) = octets.getD i 0 := by
      refine (if_pos ⟨Nat.le_add_right _ _, Nat.add_lt_add_left hi _⟩).trans ?_
      rw [Nat.add_sub_cancel_left]
    cases inFree <;> exact hwritten
  have hinside :
      startoffset + octets.length ≤ (caf.entered startoffset inFree octets fun _ => true).size := by
    cases inFree <;> exact Nat.le_max_right _ _
  have hapart : ∀ i < octets.length,
      (caf.entered startoffset inFree octets fun _ => true).free
        ((startoffset + i) / CAF_DEFAULT_BLOCKSIZE) = false := by
    intro i hi
    have hcleared := hplaced.apart hsound hi
    cases inFree <;> exact hcleared
  unfold Caf.finished
  generalize caf.entered startoffset inFree octets (fun _ => true) = entered at *
  have hold {art : Nat} (hart : art ≠ caf.High + 1) :
      ({ entered with High := caf.High + 1 } : Caf).Has art ↔ entered.Has art := by
    change entered.Low ≤ art ∧ art ≤ caf.High + 1 ∧ (entered.entry art).Size ≠ 0 ↔
      entered.Low ≤ art ∧ art ≤ entered.High ∧ (entered.entry art).Size ≠ 0
    rw [hhigh]
    refine and_congr_right fun _ => and_congr_left fun _ => ?_
    omega
  have hnew : ({ entered with High := caf.High + 1 } : Caf).Has (caf.High + 1) ↔ octets ≠ [] := by
    change entered.Low ≤ caf.High + 1 ∧ caf.High + 1 ≤ caf.High + 1 ∧
      (entered.entry (caf.High + 1)).Size ≠ 0 ↔ octets ≠ []
    rw [hentry, hlow]
    exact ⟨fun h => List.ne_nil_of_length_pos (Nat.pos_of_ne_zero h.2.2),
      fun h => ⟨hfits.1, Nat.le_refl _, fun hzero => h (List.length_eq_zero_iff.mp hzero)⟩⟩
  constructor
  · obtain ⟨hinsideOld, hapartOld, hfree⟩ := hkeeps.sound
    refine ⟨fun art hhas => ?_, fun art hhas => ?_, hfree⟩
    · by_cases hart : art = caf.High + 1
      · subst hart
        change (entered.entry (caf.High + 1)).Offset +
          (entered.entry (caf.High + 1)).Size ≤ entered.size
        rw [hentry]
        exact hinside
      · exact hinsideOld art ((hold hart).mp hhas)
    · by_cases hart : art = caf.High + 1
      · subst hart
        change ∀ i < (entered.entry (caf.High + 1)).Size,
          entered.free (((entered.entry (caf.High + 1)).Offset + i) / CAF_DEFAULT_BLOCKSIZE) = false
        rw [hentry]
        exact hapart
      · exact hapartOld art ((hold hart).mp hhas)
  · intro art
    by_cases hart : art = caf.High + 1
    · subst hart
      rw [if_pos rfl]
      unfold Caf.article
      by_cases hempty : octets = []
      · rw [if_pos hempty, if_neg fun h => hnew.mp h hempty]
      · rw [if_neg hempty, if_pos (hnew.mpr hempty)]
        change some ((List.range (entered.entry (caf.High + 1)).Size).map fun i =>
          entered.octet ((entered.entry (caf.High + 1)).Offset + i)) = some octets
        rw [hentry]
        refine congrArg some (List.ext_getElem ?_ fun i hi hi' => ?_)
        · rw [List.length_map, List.length_range]
        · rw [List.getElem_map, List.getElem_range, hoctet i hi', List.getD_eq_getElem?_getD,
            List.getElem?_eq_getElem hi', Option.getD_some]
    · rw [if_neg hart, ← hkeeps.article]
      unfold Caf.article
      exact if_congr (hold hart) rfl rfl

end Finishing

section Undoing

variable {s s' : Spool} {failure : Option Failure} {unreadable : Bool}
    {tokenclass arrived now : Nat} {octets : Octets}
  {path : CAFPath} {file : Caf}

structure Spool.Sound (s : Spool) : Prop where
  files : ∀ path caf, s.files path = some caf → caf.Sound
  opened : ∀ path, s.WritingFile = .opened path → (s.files path).isSome
  held : s.WritingFile ≠ .dangling

theorem fresh_not_has (art : Nat) : ¬Caf.fresh.Has art := fun hhas => hhas.2.2 rfl

theorem Spool.Sound.caf (hsound : s.Sound) (path : CAFPath) : (s.caf path).Sound := by
  unfold Spool.caf
  cases hfile : s.files path with
  | none =>
    exact ⟨fun art hhas => absurd hhas (fresh_not_has art),
      fun art hhas => absurd hhas (fresh_not_has art), nofun⟩
  | some caf => exact hsound.files path caf hfile

theorem seen_eq (s : Spool) (path : CAFPath) : s.seen path = (s.caf path).article := by
  funext art
  unfold Spool.seen Spool.caf
  cases s.files path with
  | none => exact (if_neg (fresh_not_has art)).symm
  | some caf => rfl

theorem caf_update (writing : WritingFile) (other : CAFPath) :
    (⟨update s.files path (some file), writing⟩ : Spool).caf other =
      if other = path then file else s.caf other := by
  unfold Spool.caf
  dsimp only
  by_cases hother : other = path
  · subst hother
    rw [update_self, if_pos rfl]
    rfl
  · rw [Function.update_of_ne hother, if_neg hother]

theorem Spool.Sound.update (hsound : s.Sound) (hfile : file.Sound) {writing : CafStore.WritingFile}
    (hheld : writing ≠ .dangling) (hopened : ∀ other, writing = .opened other → other = path) :
    (⟨update s.files path (some file), writing⟩ : Spool).Sound where
  files other caf' hother' := by
    by_cases hother : other = path
    · subst hother
      dsimp only at hother'
      rw [update_self] at hother'
      obtain rfl := Option.some.inj hother'
      exact hfile
    · dsimp only at hother'
      rw [Function.update_of_ne hother] at hother'
      exact hsound.files other caf' hother'
  opened other hother := by
    obtain rfl := hopened other hother
    dsimp only
    rw [update_self]
    rfl
  held := hheld

def Spool.expected (s : Spool) (tokenclass arrived now : Nat) (octets : Octets) :
    Option Token × (CAFPath → Nat → Option Octets) :=
  let path := storePath tokenclass arrived now
  let caf := s.caf path
  if caf.Fits then
    (some (MakeToken tokenclass arrived now (caf.High + 1)), fun other art =>
      if other = path ∧ art = caf.High + 1 then if octets = [] then none else some octets
        else s.seen other art)
  else (none, s.seen)

def Caf.stored (caf : Caf) (unreadable : Bool) (octets : Octets) : Caf :=
  if caf.Fits then caf.finished (caf.startoffset unreadable octets.length).1
    (caf.startoffset unreadable octets.length).2 octets
  else caf

theorem store_calm (hheld : s.WritingFile ≠ .dangling) : ∃ writing,
    s.timecafStore none unreadable tokenclass arrived now octets =
      .ok (if (s.caf (storePath tokenclass arrived now)).Fits then
          some (MakeToken tokenclass arrived now ((s.caf (storePath tokenclass arrived now)).High +
            1)) else none,
        ⟨update s.files (storePath tokenclass arrived now)
          (some ((s.caf (storePath tokenclass arrived now)).stored unreadable octets)),
            writing⟩) := by
  unfold Spool.timecafStore Caf.stored
  dsimp only
  rw [if_neg hheld, if_neg fun h => Bool.false_ne_true h.2]
  by_cases hfits : (s.caf (storePath tokenclass arrived now)).Fits
  · rw [if_neg fun h => h.elim Bool.false_ne_true fun h => h hfits, if_pos hfits,
      if_pos hfits, write_none]
    exact ⟨_, rfl⟩
  · rw [if_pos (.inr hfits), if_neg hfits, if_neg hfits]
    exact ⟨_, rfl⟩

theorem next_eq (hsound : s.Sound) :
    s.next tokenclass arrived now octets = .ok (s.expected tokenclass arrived now octets) := by
  obtain ⟨writing, hstore⟩ := store_calm (s := s) hsound.held
  unfold Spool.next Spool.expected
  rw [hstore]
  have hpath := hsound.caf (storePath tokenclass arrived now)
  by_cases hfits : (s.caf (storePath tokenclass arrived now)).Fits
  · rw [if_pos hfits, if_pos hfits]
    refine congrArg (fun seen => Except.ok (_, seen)) (funext fun other => funext fun art => ?_)
    rw [seen_eq, caf_update, seen_eq, Caf.stored, if_pos hfits]
    by_cases hother : other = storePath tokenclass arrived now
    · subst hother
      rw [if_pos rfl, (raised hpath hfits startoffset_placed).2 art]
      exact if_congr ⟨fun h => ⟨rfl, h⟩, And.right⟩ rfl rfl
    · rw [if_neg hother, if_neg fun h => hother h.1]
  · rw [if_neg hfits, if_neg hfits]
    refine congrArg (fun seen => Except.ok (_, seen)) (funext fun other => ?_)
    rw [seen_eq, caf_update, seen_eq, Caf.stored, if_neg hfits]
    split
    next hother => rw [hother]
    next => rfl

theorem undone_of_keeps (hsound : s.Sound) (hsound' : s'.Sound)
    (hkeeps : ∀ path, Keeps (s.caf path) (s'.caf path)) :
    Undone Spool.seen Spool.next s s' := by
  have hseen : s'.seen = s.seen := by
    funext path
    rw [seen_eq, seen_eq, (hkeeps path).article]
  refine ⟨hseen, ?_⟩
  funext tokenclass arrived now octets
  rw [next_eq hsound, next_eq hsound']
  unfold Spool.expected
  have hpath := hkeeps (storePath tokenclass arrived now)
  dsimp only
  rw [hseen, hpath.high]
  exact congrArg Except.ok (if_congr hpath.fits rfl rfl)

theorem failsStarting_iff : failsStarting failure ↔ failure = some .starting := by
  constructor
  · intro h
    unfold failsStarting at h
    split at h
    · rfl
    · cases h
  · rintro rfl
    rfl

theorem store_dangles (unreadable : Bool) (octets : Octets)
    (hopened : s.WritingFile = .opened (storePath tokenclass arrived now))
    (hstart : failure = some .starting ∨ ¬(s.caf (storePath tokenclass arrived now)).Fits) :
    ∃ files, s.timecafStore failure unreadable tokenclass arrived now octets =
      .ok (none, ⟨files, .dangling⟩) := by
  unfold Spool.timecafStore
  rw [if_neg (by rw [hopened]; exact nofun), if_neg fun h => h.1 hopened,
    if_pos (hstart.imp_left failsStarting_iff.mpr),
    if_pos hopened]
  exact ⟨_, rfl⟩

theorem store_header (unreadable : Bool) (octets : Octets) (hheld : s.WritingFile ≠ .dangling)
    (hfits : (s.caf (storePath tokenclass arrived now)).Fits) (n : Nat) :
    ∃ s' : Spool, s.timecafStore (some (.header n)) unreadable tokenclass arrived now octets =
      .ok (none, s') ∧
      s'.WritingFile = .closed ∧
      (s'.caf (storePath tokenclass arrived now)).High =
        highAfter (s.caf (storePath tokenclass arrived now)).High n := by
  unfold Spool.timecafStore
  dsimp only
  rw [if_neg hheld, if_neg fun h => Bool.false_ne_true h.2,
    if_neg fun h => h.elim Bool.false_ne_true fun h => h hfits, write_header]
  refine ⟨_, rfl, rfl, ?_⟩
  rw [caf_update, if_pos rfl]

theorem next_token (hheld : s.WritingFile ≠ .dangling) (tokenclass arrived now : Nat)
    (octets : Octets) : ∃ seen, s.next tokenclass arrived now octets =
    .ok (if (s.caf (storePath tokenclass arrived now)).Fits then
      some (MakeToken tokenclass arrived now ((s.caf (storePath tokenclass arrived now)).High + 1))
        else none, seen) := by
  obtain ⟨writing, hstore⟩ := store_calm (s := s) hheld
  unfold Spool.next
  rw [hstore]
  exact ⟨_, rfl⟩

theorem store_sound (hsound : s.Sound)
    (hreuse : s.WritingFile = .opened (storePath tokenclass arrived now) →
      (s.caf (storePath tokenclass arrived now)).Fits ∧ failure ≠ some .starting)
    (hheader : (s.caf (storePath tokenclass arrived now)).Fits → ∀ n, failure = some (.header n) →
      n ≤ 24) {token : Option Token}
    (hstore : s.timecafStore failure unreadable tokenclass arrived now octets = .ok (token, s')) :
    s'.Sound ∧ (token = none → ∀ path, Keeps (s.caf path) (s'.caf path)) := by
  have hpath := hsound.caf (storePath tokenclass arrived now)
  have hupdate {file : Caf} (hkeeps : Keeps (s.caf (storePath tokenclass arrived now)) file)
      (other : CAFPath) :
      Keeps (s.caf other)
        ((⟨update s.files (storePath tokenclass arrived now) (some file),
          .closed⟩ : Spool).caf other) := by
    rw [caf_update]
    split
    next hother =>
      rw [hother]
      exact hkeeps
    next => exact Keeps.refl (hsound.caf other)
  unfold Spool.timecafStore at hstore
  dsimp only at hstore
  rw [if_neg hsound.held] at hstore
  split at hstore
  · obtain ⟨_, rfl⟩ := Prod.mk.inj (Except.ok.inj hstore)
    exact ⟨⟨hsound.files, nofun, nofun⟩, fun _ path => Keeps.refl (hsound.caf path)⟩
  · split at hstore
    next hstart =>
      have hclosed : s.WritingFile ≠ .opened (storePath tokenclass arrived now) := by
        intro hopened
        obtain ⟨hfits, hfailure⟩ := hreuse hopened
        exact hstart.elim (fun h => hfailure (failsStarting_iff.mp h)) fun h => h hfits
      rw [if_neg hclosed] at hstore
      obtain ⟨_, rfl⟩ := Prod.mk.inj (Except.ok.inj hstore)
      exact ⟨hsound.update hpath nofun nofun, fun _ => hupdate (Keeps.refl hpath)⟩
    next hstart =>
      have hfits := not_not.mp (not_or.mp hstart).2
      split at hstore
      next caf' hwrite =>
        cases hstore
        have hraised : ((s.caf (storePath tokenclass arrived now)).finished
            ((s.caf (storePath tokenclass arrived now)).startoffset unreadable octets.length).1
            ((s.caf (storePath tokenclass arrived now)).startoffset unreadable octets.length).2
              octets).Sound :=
          (raised hpath hfits startoffset_placed).1
        rw [← write_finished (congrArg Prod.fst hwrite), hwrite] at hraised
        exact ⟨hsound.update hraised nofun fun _ hother =>
          (WritingFile.opened.inj hother).symm, nofun⟩
      next caf' hwrite =>
        obtain ⟨_, rfl⟩ := Prod.mk.inj (Except.ok.inj hstore)
        have hkeeps :=
          write_keeps hpath hfits (startoffset_placed.vacant hpath) (hheader hfits)
          (congrArg Prod.fst hwrite)
        rw [hwrite] at hkeeps
        exact ⟨hsound.update hkeeps.sound nofun nofun, fun _ => hupdate hkeeps⟩

theorem timecaf_undone_iff (hsound : s.Sound) :
    (∀ s', s.timecafStore failure unreadable tokenclass arrived now octets = .ok (none, s') →
        Undone Spool.seen Spool.next s s') ↔
      (s.WritingFile = .opened (storePath tokenclass arrived now) →
        (s.caf (storePath tokenclass arrived now)).Fits ∧ failure ≠ some .starting) ∧
      ((s.caf (storePath tokenclass arrived now)).Fits →
        ∀ n, failure = some (.header n) → n ≤ 24) := by
  constructor
  · intro hundone
    constructor
    · intro hopened
      by_contra hstart
      obtain ⟨files, hstore⟩ := store_dangles unreadable octets hopened
        (or_comm.mp (not_and_or.mp hstart |>.imp_right not_not.mp))
      have hnext :=
        congrFun (congrFun (congrFun (congrFun (hundone _ hstore).next tokenclass) arrived) now)
        octets
      rw [next_eq hsound] at hnext
      cases hnext
    · rintro hfits n rfl
      by_contra hn
      obtain ⟨s', hstore, hclosed, hhigh⟩ := store_header unreadable octets hsound.held hfits n
      have hnext :=
        congrFun (congrFun (congrFun (congrFun (hundone _ hstore).next tokenclass) arrived) now)
        octets
      obtain ⟨seen, htoken⟩ := next_token hsound.held tokenclass arrived now octets
      obtain ⟨seen', htoken'⟩ :=
        next_token (s := s') (by rw [hclosed]; exact nofun) tokenclass arrived now octets
      rw [htoken, htoken', if_pos hfits, hhigh] at hnext
      have hgiven := congrArg Prod.fst (Except.ok.inj hnext)
      split at hgiven
      · have hseqnum := congrArg Token.seqnum (Option.some.inj hgiven)
        have hoctet :=
          highAfter_mod (s.caf (storePath tokenclass arrived now)).High (Nat.not_le.mp hn)
        change (highAfter _ n + 1) % 2 ^ 32 = (_ + 1) % 2 ^ 32 at hseqnum
        omega
      · cases hgiven
  · rintro ⟨hreuse, hheader⟩ s' hstore
    obtain ⟨hsound', hkeeps⟩ := store_sound hsound hreuse hheader hstore
    exact undone_of_keeps hsound hsound' (hkeeps rfl)

end Undoing

section Stores

open Tradspool (Name Files LinkTrouble tradspoolStore Written Linkable)

inductive Attempt
  | timehash (s : Timehash.Spool) (trouble : FileTrouble Timehash.Path) (tokenclass : UInt8)
      (arrived now : UInt32) (octets : Octets)
  | tradspool (wireformat : Bool) (trouble : FileTrouble Name) (links : LinkTrouble) (files : Files)
      (groups octets : Octets)
  | timecaf (s : Spool) (failure : Option Failure) (unreadable : Bool)
      (tokenclass arrived now : Nat) (octets : Octets)

def Attempt.Sound : Attempt → Prop
  | .timecaf s _ _ _ _ _ _ => s.Sound
  | _ => True

def Attempt.Undone : Attempt → Prop
  | .timehash s trouble tokenclass arrived now octets => ∀ s',
      s.tryStore trouble tokenclass arrived now octets = (none, s') →
      Storage.Undone Timehash.Spool.files Timehash.Spool.nextStore s s'
  | .tradspool wireformat trouble links files groups octets =>
    ∀ files', tradspoolStore wireformat trouble links files groups octets = (none, files') →
      Storage.Undone (fun files => files) Tradspool.nextStore files files'
  | .timecaf s failure unreadable tokenclass arrived now octets =>
    ∀ s', s.timecafStore failure unreadable tokenclass arrived now octets = .ok (none, s') →
      Storage.Undone Spool.seen Spool.next s s'

def Attempt.Clean : Attempt → Prop
  | .timehash .. => True
  | .tradspool _ trouble links files groups _ =>
    ∀ path linkpaths, Written trouble files groups path linkpaths →
      path ∉ linkpaths ∧ Linkable links files linkpaths
  | .timecaf s failure _ tokenclass arrived now _ =>
    (s.WritingFile = .opened (storePath tokenclass arrived now) →
      (s.caf (storePath tokenclass arrived now)).Fits ∧ failure ≠ some .starting) ∧
    ((s.caf (storePath tokenclass arrived now)).Fits → ∀ n, failure = some (.header n) → n ≤ 24)

/-- A store that gives no token is undone exactly when it is clean. -/
theorem failed_stores_undone_iff (attempt : Attempt) (hsound : attempt.Sound) :
    attempt.Undone ↔ attempt.Clean := by
  cases attempt with
  | timehash s trouble tokenclass arrived now octets =>
      exact ⟨fun _ => trivial, fun _ s' => Timehash.tryStore_undone⟩
  | tradspool wireformat trouble links files groups octets => exact Tradspool.tradspool_undone_iff
  | timecaf s failure unreadable tokenclass arrived now octets => exact timecaf_undone_iff hsound

def Spool.empty : Spool := ⟨fun _ => none, .closed⟩

theorem empty_sound : Spool.empty.Sound := ⟨nofun, nofun, nofun⟩

/-- After a short write nothing is left in an empty spool. -/
theorem short_write_undone :
    Attempt.Undone (.timecaf Spool.empty (some (.writing 1)) false 0 1 1 [104, 105]) :=
  (failed_stores_undone_iff (.timecaf Spool.empty (some (.writing 1)) false 0 1 1 [104, 105])
    empty_sound).mpr
    ⟨nofun, fun _ => nofun⟩

def Spool.openedEmpty : Spool := ⟨fun _ => some Caf.fresh, .opened (storePath 0 1 1)⟩

theorem openedEmpty_sound : Spool.openedEmpty.Sound where
  files _ _ hfile := by
    cases hfile
    exact empty_sound.caf (storePath 0 1 1)
  opened _ _ := rfl
  held := nofun

/-- An article of the groups `a` and `b` stays in the first when no link can be made to the second,
and the file that is open stays in `WritingFile` when the next article cannot be started. -/
theorem not_failed_stores_undone :
    ¬Attempt.Undone (.tradspool true ⟨fun _ => false, false, false, none⟩ ⟨fun _ => true,
      fun _ => true, fun _ => true, fun _ => true⟩
      (fun _ => none) [97, 58, 49, 32, 98, 58, 50] [104, 105]) ∧
    ¬Attempt.Undone (.timecaf Spool.openedEmpty (some .starting) false 0 1 1 [104, 105]) := by
  constructor
  · intro hundone
    have hleft := congrFun (hundone _ (Prod.ext (by decide) rfl)).seen ⟨[97], 1⟩
    exact absurd hleft (by decide)
  · intro hundone
    obtain ⟨files, hstore⟩ : ∃ files,
        Spool.openedEmpty.timecafStore (some .starting) false 0 1 1 [104, 105] =
        .ok (none, ⟨files, .dangling⟩) := store_dangles false [104, 105] rfl (.inl rfl)
    have hnext := congrFun (congrFun (congrFun (congrFun (hundone _ hstore).next 0) 1) 1) [104, 105]
    rw [next_eq openedEmpty_sound] at hnext
    cases hnext

end Stores

end Inn.Storage.CafStore
