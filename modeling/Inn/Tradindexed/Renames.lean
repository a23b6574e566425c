import Inn.Tradindexed.Expired

/-!
# Renaming the new files of a group

The new files of a group get their permanent names one after the other, and each of these system
calls may fail.
-/

namespace Inn.Tradindexed.Renames

open Function (update update_self update_of_ne)
open History (TOKEN time_t)

structure Outcomes where
  /-- The old index file gets the name of its backup. -/
  save : Bool
  index : Bool
  data : Bool
  /-- The backup gets its old name again. -/
  restore : Bool
  remove : Bool

def Outcomes.renames (o : Outcomes) : Bool := o.save && o.index && o.data

def rename (ok : Bool) (files : Files) (old new : Suffix) : Option Files :=
  if ok && (files.names old).isSome then some (files.rename old new) else none

def tdxDataRebuildFinish (o : Outcomes) (files : Files) : Bool × Files :=
  match rename o.save files .IDX .IDX_BAK with
  | none => (false, files)
  | some files =>
    let fail (files : Files) : Bool × Files :=
      (false, (rename o.restore files .IDX_BAK .IDX).getD files)
    match rename o.index files .IDX_NEW .IDX with
    | none => fail files
    | some files =>
      match rename o.data files .DAT_NEW .DAT with
      | none => fail files
      | some files => (true, if o.remove then files.unlink .IDX_BAK else files)

inductive Handle
  | allocated (data : GroupData)
  | freed

def tdxDataClose : Handle → Except Unit Handle
  | .allocated _ => .ok .freed
  | .freed => .error ()

structure Finished where
  success : Bool
  files : Files
  entry : GroupEntry

def tdxDataDeleteNew (files : Files) : Files := (files.unlink .IDX_NEW).unlink .DAT_NEW

def expireStart (files : Files) (memory : Memory) (keep : Article → Bool) (mmap : Bool)
    (entry : GroupEntry) :
    Option (Files × GroupData × Option Rebuild) :=
  let new_entry := { entry with low := 0, count := 0, base := 0 }
  match tdxDataOpen files entry true mmap with
  | none => none
  | some (files, data) => some (files, data, tdxDataExpireStart files memory keep data new_entry)

def lowMark (entry : GroupEntry) : Nat := if entry.low = 0 then entry.high + 1 else entry.low

def tdxExpire (o : Outcomes) (files : Files) (memory : Memory) (keep : Article → Bool) (mmap : Bool)
    (entry : GroupEntry) : Except Unit Finished :=
  match expireStart files memory keep mmap entry with
  | none => .ok ⟨false, files, entry⟩
  | some (files, data, none) => do
      let _ ← tdxDataClose (.allocated data)
      return ⟨false, tdxDataDeleteNew files, entry⟩
  | some (_, data, some rebuild) => do
      let new_entry := rebuild.index
      let old_inode := entry.indexinode
      let old_base := entry.base
      let entry := { entry with indexinode := new_entry.indexinode, base := new_entry.base }
      let data ← tdxDataClose (.allocated data)
      match tdxDataRebuildFinish o rebuild.files with
      | (false, files) =>
        let entry := { entry with base := old_base, indexinode := old_inode }
        -- it is not `NULL`
        let _ ← tdxDataClose data
        return ⟨false, files, entry⟩
      | (true, files) => return ⟨true, files, { new_entry with low := lowMark new_entry }⟩

structure Candidate where
  number : Nat
  overview : Octets
  history : Option (time_t × time_t × TOKEN)

def Rebuild.add (rebuild : Rebuild) (candidate : Candidate) : Rebuild :=
  let number := candidate.number
  let info := rebuild.index
  let info := if number > info.high then { info with high := number } else info
  let info := if number < info.low ∨ info.low = 0 then { info with low := number } else info
  let info := { info with count := info.count + 1 }
  match candidate.history with
  | none => { rebuild with index := info }
  | some (arrived, expires, token) =>
    let (_, files, data) :=
      tdxDataStore rebuild.files rebuild.newData ⟨number, candidate.overview, token,
        arrived, expires⟩
    ⟨files, data, info⟩

def rebuildStart (files : Files) (mmap : Bool) (entry : GroupEntry) (found : List Candidate) :
    Option Rebuild :=
  match tdxDataRebuildStart files mmap with
  | none => none
  | some (files, data) =>
    let rebuild := found.foldl Rebuild.add ⟨files, data,
      { entry with count := 0, high := 0, low := 0 }⟩
    some { rebuild with
      index := { rebuild.index with
        indexinode := rebuild.newData.indexinode, base := rebuild.newData.base } }

def groupRebuild (o : Outcomes) (files : Files) (mmap : Bool) (entry : GroupEntry)
    (found : List Candidate) :
    Except Unit Finished :=
  match rebuildStart files mmap entry found with
  | none => .ok ⟨false, tdxDataDeleteNew files, entry⟩
  | some rebuild =>
    let entry := rebuild.index
    match tdxDataRebuildFinish o rebuild.files with
    | (false, files) => .ok ⟨false, files, entry⟩
    | (true, files) => do
        let _ ← tdxDataClose (.allocated rebuild.newData)
        return ⟨true, files, entry⟩

/-- A pair of files with the marks that belong to them. -/
structure Generation where
  idx : Nat
  dat : Nat
  base : Nat
  low : Nat
  high : Nat

structure Generation.Stands (generation : Generation) (files : Files)
    (entry : GroupEntry) : Prop where
  idx : files.names .IDX = some generation.idx
  dat : files.names .DAT = some generation.dat
  indexinode : entry.indexinode = generation.idx
  base : entry.base = generation.base
  low : entry.low = generation.low
  high : entry.high = generation.high

def generation (rebuild : Rebuild) (low : Nat) : Generation :=
  ⟨rebuild.newData.indexinode, rebuild.newData.datafd, rebuild.newData.base, low,
    rebuild.index.high⟩

/-- The group stands at its old generation, or at the new one. -/
def Switched (before : Generation) (built : Option Generation)
    (result : Except Unit Finished) : Prop :=
  ∃ after, result = .ok after ∧
    (before.Stands after.files after.entry ∨
      ∃ generation ∈ built, generation.Stands after.files after.entry)

section Finishing

variable {o : Outcomes} {files : Files} {idx dat idx' dat' : Nat}

structure Ready (files : Files) (idx dat idx' dat' : Nat) : Prop where
  idx : files.names .IDX = some idx
  dat : files.names .DAT = some dat
  newIdx : files.names .IDX_NEW = some idx'
  newDat : files.names .DAT_NEW = some dat'

theorem rename_of_names {ok : Bool} {old new : Suffix} {file : Nat}
    (hfile : files.names old = some file) :
    rename ok files old new = if ok then some (files.rename old new) else none := by
  rw [rename, hfile, Option.isSome_some, Bool.and_true]

theorem rename_names (files : Files) (old new other : Suffix) :
    (files.rename old new).names other =
      if other = old then none else if other = new then files.names old else files.names other := by
  rw [Files.rename]
  dsimp only
  split
  next heq => rw [heq, update_self]
  next hold =>
    rw [update_of_ne hold]
    split
    next heq => rw [heq, update_self]
    next hnew => rw [update_of_ne hnew]

theorem tdxDataRebuildFinish_eq (hready : Ready files idx dat idx' dat') :
    ∃ files', tdxDataRebuildFinish o files = (o.renames, files') ∧
      files'.names .DAT = (if o.renames then some dat' else some dat) ∧
      files'.names .IDX =
        if o.renames then some idx' else if !o.save || o.restore then some idx
          else if o.index then some idx' else none := by
  obtain ⟨hidx, hdat, hnewIdx, hnewDat⟩ := hready
  have hback : ∀ {files : Files}, files.names .IDX_BAK = some idx →
      ((rename o.restore files .IDX_BAK .IDX).getD files).names .IDX =
        (if o.restore then some idx else files.names .IDX) ∧
        ((rename o.restore files .IDX_BAK .IDX).getD files).names .DAT = files.names .DAT := by
    intro files hbak
    rw [rename_of_names hbak]
    cases o.restore with
    | false => exact ⟨rfl, rfl⟩
    | true =>
      simp only [if_true, Option.getD_some]
      rw [rename_names, rename_names]
      exact ⟨hbak, rfl⟩
  rw [tdxDataRebuildFinish, rename_of_names hidx]
  cases hsave : o.save with
  | false =>
    have hrenames : o.renames = false := by
      rw [Outcomes.renames, hsave, Bool.false_and, Bool.false_and]
    rw [hrenames]
    exact ⟨files, rfl, hdat, hidx⟩
  | true =>
    have hsaved := rename_names files .IDX .IDX_BAK
    simp only [if_true]
    generalize files.rename .IDX .IDX_BAK = files₁ at hsaved
    rw [rename_of_names ((hsaved .IDX_NEW).trans hnewIdx)]
    cases hindex : o.index with
    | false =>
      have hrenames : o.renames = false := by
        rw [Outcomes.renames, hindex, Bool.and_false, Bool.false_and]
      obtain ⟨hidx', hdat'⟩ := hback ((hsaved .IDX_BAK).trans hidx)
      rw [hrenames]
      exact ⟨_, rfl, hdat'.trans ((hsaved .DAT).trans hdat), hidx'.trans (congrArg _ (hsaved .IDX))⟩
    | true =>
      have hmoved := rename_names files₁ .IDX_NEW .IDX
      simp only [if_true]
      generalize files₁.rename .IDX_NEW .IDX = files₂ at hmoved
      rw [rename_of_names ((hmoved .DAT_NEW).trans ((hsaved .DAT_NEW).trans hnewDat))]
      have hidx₂ : files₂.names .IDX = some idx' :=
        (hmoved .IDX).trans ((hsaved .IDX_NEW).trans hnewIdx)
      cases hdata : o.data with
      | false =>
        have hrenames : o.renames = false := by rw [Outcomes.renames, hdata, Bool.and_false]
        obtain ⟨hidx', hdat'⟩ := hback ((hmoved .IDX_BAK).trans ((hsaved .IDX_BAK).trans hidx))
        rw [hrenames]
        exact ⟨_, rfl, hdat'.trans ((hmoved .DAT).trans ((hsaved .DAT).trans hdat)),
          hidx'.trans (congrArg _ hidx₂)⟩
      | true =>
        have hrenames : o.renames = true := by rw [Outcomes.renames, hsave, hindex, hdata]; rfl
        have hlast := rename_names files₂ .DAT_NEW .DAT
        have hdat₂ := (hmoved .DAT_NEW).trans ((hsaved .DAT_NEW).trans hnewDat)
        rw [hrenames]
        simp only [if_true]
        generalize files₂.rename .DAT_NEW .DAT = files₃ at hlast
        refine ⟨_, rfl, ?_⟩
        split
        · exact ⟨(hlast .DAT).trans hdat₂, (hlast .IDX).trans hidx₂⟩
        · exact ⟨(hlast .DAT).trans hdat₂, (hlast .IDX).trans hidx₂⟩

/-- The index and the data file are of one generation. -/
def OneGeneration (idx dat idx' dat' : Nat) (files : Files) : Prop :=
  files.names .IDX = some idx ∧ files.names .DAT = some dat ∨ files.names .IDX = some idx' ∧
    files.names .DAT = some dat'

theorem oneGeneration_iff (hready : Ready files idx dat idx' dat') :
    OneGeneration idx dat idx' dat' (tdxDataRebuildFinish o files).2 ↔ o.renames ∨ o.save = false ∨
      o.restore := by
  have hdistinct : dat ≠ dat' := by
    rintro rfl
    exact absurd (files.distinct .DAT .DAT_NEW dat hready.dat hready.newDat) (by decide)
  have hdistinct' : idx ≠ idx' := by
    rintro rfl
    exact absurd (files.distinct .IDX .IDX_NEW idx hready.idx hready.newIdx) (by decide)
  obtain ⟨files', heq, hdat, hidx⟩ := tdxDataRebuildFinish_eq (o := o) hready
  rw [heq, OneGeneration, hdat, hidx]
  cases o.renames with
  | true => simp
  | false => cases o.save <;> cases o.restore <;> cases o.index <;> simp [hdistinct,
      hdistinct'.symm]

end Finishing

section Building

variable {files : Files} {rebuild rebuild' : Rebuild}

structure Building (files : Files) (rebuild : Rebuild) : Prop where
  idx : rebuild.files.names .IDX = files.names .IDX
  dat : rebuild.files.names .DAT = files.names .DAT
  newIdx : rebuild.files.names .IDX_NEW = some rebuild.newData.indexinode
  newDat : rebuild.files.names .DAT_NEW = some rebuild.newData.datafd
  fresh : files.inode ≤ rebuild.newData.indexinode

theorem building_start (files : Files) (mmap : Bool) :
    ∃ files' newData, tdxDataRebuildStart files mmap = some (files', newData) ∧ newData.base = 0 ∧
      ∀ index, Building files ⟨files', newData, index⟩ := by
  refine ⟨_, _, tdxDataRebuildStart_made files mmap, rfl,
    fun index => ⟨?_, ?_, ?_, ?_, Nat.le_refl _⟩⟩
  all_goals simp [Files.restarted, Files.unlink, Files.create, update]

theorem tdxDataStore_keeps (files : Files) (data : GroupData) (article : Article) :
    (tdxDataStore files data article).2.1.names = files.names ∧
      (tdxDataStore files data article).2.2.indexinode = data.indexinode ∧
      (tdxDataStore files data article).2.2.datafd = data.datafd ∧
      (data.base ≠ 0 → (tdxDataStore files data article).2.2.base = data.base) := by
  rw [tdxDataStore]
  split
  · exact ⟨rfl, rfl, rfl, fun _ => rfl⟩
  by_cases hbase : data.base = 0
  · simp only [if_pos hbase]
    split
    · exact ⟨rfl, rfl, rfl, fun hne => absurd hbase hne⟩
    · exact ⟨rfl, rfl, rfl, fun hne => absurd hbase hne⟩
  · simp only [if_neg hbase]
    split
    · exact ⟨rfl, rfl, rfl, fun _ => rfl⟩
    · exact ⟨rfl, rfl, rfl, fun _ => rfl⟩

theorem Building.store (hbuilding : Building files rebuild) (article : Article)
    (index : GroupEntry) :
    Building files ⟨(tdxDataStore rebuild.files rebuild.newData article).2.1,
      (tdxDataStore rebuild.files rebuild.newData article).2.2, index⟩ := by
  obtain ⟨hnames, hinode, hdatafd, -⟩ := tdxDataStore_keeps rebuild.files rebuild.newData article
  obtain ⟨hidx, hdat, hnewIdx, hnewDat, hfresh⟩ := hbuilding
  refine ⟨?_, ?_, ?_, ?_, ?_⟩
  · rwa [hnames]
  · rwa [hnames]
  · rwa [hnames, hinode]
  · rwa [hnames, hdatafd]
  · rwa [hinode]

structure Described (rebuild : Rebuild) : Prop where
  indexinode : rebuild.index.indexinode = rebuild.newData.indexinode
  base : rebuild.index.base = rebuild.newData.base

theorem Building.expire (hbuilding : Building files rebuild) (hdescribed : Described rebuild)
    {keep : Article → Bool} {found : Found} (hexpire : rebuild.expire keep found = some rebuild') :
    Building files rebuild' ∧ Described rebuild' := by
  rw [Rebuild.expire] at hexpire
  dsimp only at hexpire
  split at hexpire
  · cases hexpire
    exact ⟨hbuilding, hdescribed⟩
  split at hexpire
  · cases hexpire
  have hstore := hbuilding.store found.artdata
  split at hexpire
  · cases hexpire
  next files' newData hstored =>
    cases hexpire
    obtain ⟨-, hinode, -, hbase⟩ := tdxDataStore_keeps rebuild.files rebuild.newData found.artdata
    rw [hstored] at hstore hinode hbase
    refine ⟨hstore _, ?_⟩
    dsimp only at hinode hbase
    by_cases hzero : rebuild.index.base = 0
    · simp only [if_pos hzero]
      split
      · exact ⟨hdescribed.indexinode.trans hinode.symm, rfl⟩
      · exact ⟨hdescribed.indexinode.trans hinode.symm, rfl⟩
    · have hbase' := hdescribed.base.trans (hbase (hdescribed.base ▸ hzero)).symm
      simp only [if_neg hzero]
      split
      · exact ⟨hdescribed.indexinode.trans hinode.symm, hbase'⟩
      · exact ⟨hdescribed.indexinode.trans hinode.symm, hbase'⟩

theorem Building.foldlM (delivered : List Found) (hbuilding : Building files rebuild)
    (hdescribed : Described rebuild) {keep : Article → Bool}
    (hfold : delivered.foldlM (Rebuild.expire keep) rebuild = some rebuild') :
    Building files rebuild' ∧ Described rebuild' := by
  induction delivered generalizing rebuild with
  | nil =>
    cases hfold
    exact ⟨hbuilding, hdescribed⟩
  | cons found rest ih =>
    rw [List.foldlM_cons] at hfold
    obtain ⟨next, hexpire, hrest⟩ := Option.bind_eq_some_iff.mp hfold
    obtain ⟨hbuilding', hdescribed'⟩ := hbuilding.expire hdescribed hexpire
    exact ih hbuilding' hdescribed' hrest

theorem tdxDataExpireStart_builds {memory : Memory} {keep : Article → Bool} {data : GroupData}
    {index : GroupEntry} (hzero : index.base = 0)
    (hstart : tdxDataExpireStart files memory keep data index = some rebuild) :
    Building files rebuild ∧ Described rebuild := by
  obtain ⟨files', newData, hbegin, hbase, hbuilding⟩ := building_start files data.mmap
  rw [tdxDataExpireStart, hbegin] at hstart
  dsimp only at hstart
  split at hstart
  · cases hstart
  · refine Building.foldlM _ ?_ ?_ hstart
    · obtain ⟨hidx, hdat, hnewIdx, hnewDat, hfresh⟩ := hbuilding index
      exact ⟨hidx, hdat, hnewIdx, hnewDat, hfresh⟩
    · exact ⟨rfl, hzero.trans hbase.symm⟩

theorem Building.add (hbuilding : Building files rebuild) (candidate : Candidate) :
    Building files (Rebuild.add rebuild candidate) := by
  rw [Rebuild.add]
  split
  · obtain ⟨hidx, hdat, hnewIdx, hnewDat, hfresh⟩ := hbuilding
    exact ⟨hidx, hdat, hnewIdx, hnewDat, hfresh⟩
  · exact hbuilding.store _ _

theorem rebuildStart_builds (files : Files) (mmap : Bool) (entry : GroupEntry)
    (found : List Candidate) :
    ∃ rebuild, rebuildStart files mmap entry found = some rebuild ∧ Building files rebuild ∧
      Described rebuild := by
  obtain ⟨files', data, hbegin, -, hbuilding⟩ := building_start files mmap
  rw [rebuildStart, hbegin]
  refine ⟨_, rfl, ?_, ⟨rfl, rfl⟩⟩
  have hall : ∀ (found : List Candidate) (rebuild : Rebuild), Building files rebuild →
      Building files (found.foldl Rebuild.add rebuild) := by
    intro found
    induction found with
    | nil => exact fun _ hbuilding => hbuilding
    | cons candidate rest ih => exact fun rebuild hbuilding => ih _ (hbuilding.add candidate)
  obtain ⟨hidx, hdat, hnewIdx, hnewDat, hfresh⟩ := hall found _ (hbuilding _)
  exact ⟨hidx, hdat, hnewIdx, hnewDat, hfresh⟩

theorem Building.ready (hbuilding : Building files rebuild) {idx dat : Nat}
    (hidx : files.names .IDX = some idx) (hdat : files.names .DAT = some dat) :
    Ready rebuild.files idx dat rebuild.newData.indexinode rebuild.newData.datafd :=
  ⟨hbuilding.idx.trans hidx, hbuilding.dat.trans hdat, hbuilding.newIdx, hbuilding.newDat⟩

end Building

section Switching

variable {o : Outcomes} {files : Files} {entry : GroupEntry} {before : Generation}

def expired (files : Files) (memory : Memory) (keep : Article → Bool) (mmap : Bool)
    (entry : GroupEntry) :
    Option Generation :=
  ((expireStart files memory keep mmap entry).bind fun start => start.2.2).map fun rebuild =>
    generation rebuild (lowMark rebuild.index)

def rebuilt (files : Files) (mmap : Bool) (entry : GroupEntry) (found : List Candidate) :
    Option Generation :=
  (rebuildStart files mmap entry found).map fun rebuild => generation rebuild rebuild.index.low

theorem tdxExpire_switched_iff (hbefore : before.Stands files entry) (memory : Memory) (keep : Article → Bool)
    (mmap : Bool) :
    Switched before (expired files memory keep mmap entry) (tdxExpire o files memory keep mmap entry) ↔
      ((expired files memory keep mmap entry).isSome → o.renames) := by
  obtain ⟨files₁, data, hopen, hextends, -⟩ := tdxDataOpen_writable files entry mmap
  have hidx := hextends.names .IDX _ hbefore.idx
  have hdat := hextends.names .DAT _ hbefore.dat
  generalize hstart : tdxDataExpireStart files₁ memory keep data { entry with low := 0, count := 0, base := 0 } = start
  have hexpireStart : expireStart files memory keep mmap entry = some (files₁, data, start) := by
    rw [expireStart, hopen]
    dsimp only
    rw [hstart]
  rw [tdxExpire, expired, hexpireStart, Option.bind_some]
  cases start with
  | none =>
    refine ⟨fun _ => by rintro ⟨⟩, fun _ => ⟨_, rfl, .inl ?_⟩⟩
    refine ⟨?_, ?_, hbefore.indexinode, hbefore.base, hbefore.low, hbefore.high⟩
    · simpa [tdxDataDeleteNew, Files.unlink, update] using hidx
    · simpa [tdxDataDeleteNew, Files.unlink, update] using hdat
  | some rebuild =>
    obtain ⟨hbuilding, hdescribed⟩ := tdxDataExpireStart_builds rfl hstart
    obtain ⟨files', hfinish, hdat', hidx'⟩ :=
      tdxDataRebuildFinish_eq (o := o) (hbuilding.ready hidx hdat)
    simp only [tdxDataClose, bind, Except.bind, hfinish, Option.map_some,
      Option.isSome_some, true_imp_iff]
    cases hrenames : o.renames with
    | false =>
      constructor
      · rintro ⟨after, hafter, -⟩
        cases hafter
      · rintro ⟨⟩
    | true =>
      rw [hrenames] at hdat' hidx'
      refine ⟨fun _ => rfl, fun _ => ⟨_, rfl, .inr ⟨_, rfl, ?_⟩⟩⟩
      exact ⟨hidx', hdat', hdescribed.indexinode, hdescribed.base, rfl, rfl⟩

theorem groupRebuild_switched_iff (hbefore : before.Stands files entry) (mmap : Bool)
    (found : List Candidate) :
    Switched before (rebuilt files mmap entry found) (groupRebuild o files mmap entry found) ↔
      o.renames := by
  obtain ⟨rebuild, hstart, hbuilding, hdescribed⟩ := rebuildStart_builds files mmap entry found
  have hready := hbuilding.ready hbefore.idx hbefore.dat
  obtain ⟨files', hfinish, hdat', hidx'⟩ := tdxDataRebuildFinish_eq (o := o) hready
  rw [groupRebuild, rebuilt, hstart]
  simp only [hfinish, Option.map_some]
  cases hrenames : o.renames with
  | true =>
    rw [hrenames] at hdat' hidx'
    refine ⟨fun _ => rfl, fun _ => ⟨_, rfl, .inr ⟨_, rfl, ?_⟩⟩⟩
    exact ⟨hidx', hdat', hdescribed.indexinode, hdescribed.base, rfl, rfl⟩
  | false =>
    rw [hrenames] at hdat'
    refine ⟨?_, nofun⟩
    rintro ⟨after, hafter, hstands⟩
    cases hafter
    rcases hstands with hold | ⟨generation, hmem, hnew⟩
    · -- the entry describes the new index file
      have hinode := hdescribed.indexinode.symm.trans hold.indexinode
      have hless := files.named .IDX before.idx hbefore.idx
      have hfresh := hbuilding.fresh
      omega
    · cases hmem
      have hsame : before.dat = rebuild.newData.datafd :=
        Option.some.inj (hdat'.symm.trans hnew.dat)
      have hold := hready.dat
      rw [hsame] at hold
      exact absurd (rebuild.files.distinct .DAT .DAT_NEW _ hold hready.newDat) (by decide)

/-- Both callers leave the group in order exactly if all three files are renamed. The files alone
are in order also if the old index file has kept its name or got it back. -/
theorem switched_iff (o : Outcomes) :
    (∀ {files : Files} {idx dat idx' dat' : Nat}, Ready files idx dat idx' dat' →
      (OneGeneration idx dat idx' dat' (tdxDataRebuildFinish o files).2 ↔
        o.renames ∨ o.save = false ∨ o.restore)) ∧
    ∀ {files : Files} {entry : GroupEntry} {before : Generation}, before.Stands files entry →
      (∀ (memory : Memory) (keep : Article → Bool) (mmap : Bool),
        Switched before (expired files memory keep mmap entry)
          (tdxExpire o files memory keep mmap entry) ↔
          ((expired files memory keep mmap entry).isSome → o.renames)) ∧
      ∀ (mmap : Bool) (found : List Candidate),
        Switched before (rebuilt files mmap entry found) (groupRebuild o files mmap entry found) ↔
          o.renames :=
  ⟨oneGeneration_iff, fun hbefore =>
    ⟨tdxExpire_switched_iff hbefore, groupRebuild_switched_iff hbefore⟩⟩

def threeNumbersGeneration : Generation := ⟨0, 1, 1, 1, 3⟩

theorem stands_threeNumbers :
    threeNumbersGeneration.Stands (threeNumbers .zero) threeNumbersEntry :=
  ⟨rfl, rfl, rfl, rfl, rfl, rfl⟩

def threeNumbersBuilt : Files :=
  ((tdxDataRebuildStart (threeNumbers .zero) true).get (by decide)).1

/-- Every system call succeeds. -/
theorem switched_threeNumbers :
    OneGeneration 0 1 2 3 (tdxDataRebuildFinish ⟨true, true, true, true,
      true⟩ threeNumbersBuilt).2 ∧
      Switched threeNumbersGeneration
        (expired (threeNumbers .zero) nowhere butFirst true threeNumbersEntry)
        (tdxExpire ⟨true, true, true, true,
          true⟩ (threeNumbers .zero) nowhere butFirst true threeNumbersEntry) ∧
      Switched threeNumbersGeneration (rebuilt (threeNumbers .zero) true threeNumbersEntry [])
        (groupRebuild ⟨true, true, true, true,
          true⟩ (threeNumbers .zero) true threeNumbersEntry []) := by
  obtain ⟨hfiles, hcallers⟩ := switched_iff ⟨true, true, true, true, true⟩
  obtain ⟨hexpire, hrebuild⟩ := hcallers stands_threeNumbers
  have hready : Ready threeNumbersBuilt 0 1 2 3 := ⟨by decide, by decide, by decide, by decide⟩
  exact ⟨(hfiles hready).mpr (.inl rfl), (hexpire nowhere butFirst true).mpr fun _ => rfl,
    (hrebuild true []).mpr rfl⟩

/-- The data file does not get its permanent name. -/
theorem not_switched :
    ¬∀ (o : Outcomes) (files : Files) (memory : Memory) (keep : Article →
      Bool) (mmap : Bool) (entry : GroupEntry)
      (before : Generation), before.Stands files entry →
      Switched before (expired files memory keep mmap entry)
        (tdxExpire o files memory keep mmap entry) := by
  intro hall
  have hswitched :=
    hall ⟨true, true, false, true,
      true⟩ (threeNumbers .zero) nowhere butFirst true threeNumbersEntry
    threeNumbersGeneration stands_threeNumbers
  have hreleased :
      (tdxExpire ⟨true, true, false, true, true⟩ (threeNumbers .zero) nowhere butFirst true
      threeNumbersEntry).toOption.isNone := by decide
  obtain ⟨after, hafter, -⟩ := hswitched
  rw [hafter] at hreleased
  cases hreleased

end Switching

end Inn.Tradindexed.Renames
