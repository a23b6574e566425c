import Inn.Foundation.Runs
import Inn.Dbz.Contents

/-!
# The in-core modes

Each of the two files has the records of its first table in core, or mapped, or only in the file. A
mode changes neither what a call on the database returns nor, once the database is synchronised,
what records the files hold. The files may differ in length: a mapping needs a file that covers the
table, and `putcore` writes the whole table, where a file that is written record by record ends with
its last one.
-/

namespace Inn.Dbz

open Foundation.Runs

structure Files where
  dir : Config
  idx : RecordFile (0 : Int)
  hash : RecordFile emptyRec

def Files.created (conf : Config) : Files := ⟨conf, .empty 0, .empty emptyRec⟩

def RecordFile.mappable {ρ : Type} {zero : ρ} (file : RecordFile zero) (tsize : Nat)
    (incore : IncoreVal) (readonly : Bool) :
    Bool :=
  incore ≠ .mmap || !readonly || tsize ≤ file.size

def Files.dbzinit (files : Files) (options : Options) (readonly : Bool) : Option Database :=
  if files.idx.mappable files.dir.tsize options.pagIncore readonly &&
      files.hash.mappable files.dir.tsize options.existsIncore readonly then
    some
      { conf := files.dir
        options := options
        srch := ⟨0, 0, 0, HashClear, 0, false⟩
        prevp := false
        idxtab := HashTable.openhashtable files.idx files.dir.tsize options.pagIncore
        etab := HashTable.openhashtable files.hash files.dir.tsize options.existsIncore
        readonly := readonly
        dirty := false }
  else none

theorem RecordFile.pwrite_self {ρ : Type} {zero : ρ} (file : RecordFile zero)
    (place : Nat) (value : ρ) :
    (file.pwrite place value).record place = value := Function.update_self ..

theorem RecordFile.pwrite_of_ne {ρ : Type} {zero : ρ} (file : RecordFile zero) {place other : Nat}
    (hne : other ≠ place)
    (value : ρ) : (file.pwrite place value).record other = file.record other :=
    Function.update_of_ne hne ..

def RecordFile.overwrite {ρ : Type} {zero : ρ} (file : RecordFile zero) (core : Nat → ρ)
    (length : Nat) :
    RecordFile zero where
  size := max file.size length
  record place := if place < length then core place else file.record place
  unwritten place hle := by
    rw [if_neg (Nat.not_lt.mpr (Nat.max_le.mp hle).2), file.unwritten place (Nat.max_le.mp hle).1]

def HashTable.putcore {ρ : Type} {zero : ρ} (tab : HashTable zero) (writethrough : Bool)
    (tsize : Nat) : HashTable zero :=
  match tab.incore with
  | .mem => if writethrough then tab else { tab with file := tab.file.overwrite tab.core tsize }
  | _ => tab

def Database.dbzsync (db : Database) : Database :=
  if db.dirty then
    { db with
      idxtab := db.idxtab.putcore db.options.writethrough db.conf.tsize
      etab := db.etab.putcore db.options.writethrough db.conf.tsize }
  else db

inductive System
  | closed (files : Files)
  | opened (dir : Config) (db : Database)

def System.files : System → Files
  | .closed files => files
  | .opened dir db => ⟨dir, db.idxtab.file, db.etab.file⟩

inductive Operation
  | dbzinit (choice : Nat) (readonly : Bool)
  | dbzsync
  | dbzclose
  | call (call : Call)

inductive Reply
  | done (ret : Bool)
  | answer (answer : Answer)
  deriving DecidableEq

inductive Fault
  | notOpened

def Call.refused : Call → Answer
  | .dbzexists _ => .exists false
  | .dbzfetch _ => .fetched none
  | .dbzstore _ _ => .stored .error

structure Session where
  system : System
  replies : List Reply

namespace Session

def perform (options : Nat → Options) : System → Operation → Except Fault (System × Reply)
  | .closed files, .dbzinit choice readonly =>
    match files.dbzinit (options choice) readonly with
    | none => .error .notOpened
    | some db => .ok (.opened files.dir db, .done true)
  | .opened dir db, .dbzinit _ _ => .ok (.opened dir db, .done false)
  | .closed files, .dbzsync => .ok (.closed files, .done false)
  | .opened dir db, .dbzsync =>
      .ok (.opened (if db.dirty then db.conf else dir) db.dbzsync, .done true)
  | .closed files, .dbzclose => .ok (.closed files, .done false)
  | .opened dir db, .dbzclose =>
    .ok (.closed (System.opened (if db.dirty then db.conf else dir) db.dbzsync).files, .done true)
  | .closed files, .call call => .ok (.closed files, .answer call.refused)
  | .opened dir db, .call call => .ok (.opened dir (db.call call).1, .answer (db.call call).2)

def step (options : Nat → Options) (s : Session) (operation : Operation) : Except Fault Session :=
  (perform options s.system operation).map fun next => ⟨next.1, s.replies ++ [next.2]⟩

def created (conf : Config) : Session := ⟨.closed (.created conf), []⟩

end Session

structure Files.SameRecords (files files' : Files) : Prop where
  dir : files.dir = files'.dir
  idx : files.idx.record = files'.idx.record
  hash : files.hash.record = files'.hash.record

namespace HashTable

variable {ρ : Type} {zero : ρ} {tab : HashTable zero} {file : RecordFile zero} {incore : IncoreVal}
    {writethrough : Bool}
  {tsize place : Nat} {value : ρ}

theorem recordAt_open (file : RecordFile zero) (tsize : Nat) (incore : IncoreVal) (place : Nat) :
    (openhashtable file tsize incore).recordAt tsize place = file.record place := by
  rw [recordAt_eq]
  cases incore with
  | no => rfl
  | mmap => rfl
  | mem =>
    have hpread : (file.pread place).getD zero = file.record place := by
      rw [RecordFile.pread]
      split
      · rfl
      next hsize => exact (file.unwritten place (Nat.le_of_not_lt hsize)).symm
    split
    · exact hpread
    · rfl

theorem size_open (file : RecordFile zero) (tsize : Nat) (incore : IncoreVal) :
    file.size ≤ (openhashtable file tsize incore).file.size := by
  cases incore with
  | no => exact Nat.le_refl _
  | mem => exact Nat.le_refl _
  | mmap => exact Nat.le_max_left ..

def InFile (tab : HashTable zero) (tsize : Nat) : Prop :=
  tab.incore = .mem → ∀ place < tsize, tab.core place = tab.file.record place

theorem inFile_open (file : RecordFile zero) (tsize : Nat) (incore : IncoreVal) :
    (openhashtable file tsize incore).InFile tsize := by
  intro hmem place hplace
  have hrecord := recordAt_open file tsize incore place
  rw [recordAt_eq, if_pos ⟨hmem, hplace⟩] at hrecord
  rw [hrecord]
  cases incore <;> rfl

def stored (tab : HashTable zero) (writethrough : Bool) (tsize place : Nat) (value : ρ) :
    HashTable zero :=
  { tab with
    core := if tab.incore = .mem ∧ place < tsize then Function.update tab.core place
      value else tab.core
    file := if tab.incore = .mem ∧ place < tsize ∧ writethrough = false then tab.file
      else tab.file.pwrite place value }

theorem size_stored : tab.file.size ≤ (tab.stored writethrough tsize place value).file.size := by
  rw [stored]
  dsimp only
  split
  · exact Nat.le_refl _
  · exact Nat.le_max_left ..

theorem stored_size : place < (tab.stored writethrough tsize place value).file.size ∨
    tab.incore = .mem ∧ writethrough = false ∧ place < tsize := by
  rw [stored]
  dsimp only
  split
  next hcore => exact .inr ⟨hcore.1, hcore.2.2, hcore.2.1⟩
  · exact .inl (Nat.lt_of_lt_of_le (Nat.lt_succ_self place) (Nat.le_max_right ..))

theorem inFile_stored (hkept : tab.InFile tsize) (hwritethrough : writethrough = true) :
    (tab.stored writethrough tsize place value).InFile tsize := by
  intro hmem other hother
  have hmem : tab.incore = .mem := hmem
  have hold := hkept hmem other hother
  rw [stored]
  dsimp only
  rw [if_neg (show ¬ (tab.incore = .mem ∧ place < tsize ∧
    writethrough = false) by simp [hwritethrough])]
  by_cases heq : other = place
  · rw [heq, if_pos ⟨hmem, heq ▸ hother⟩, Function.update_self, RecordFile.pwrite_self]
  · rw [RecordFile.pwrite_of_ne tab.file heq]
    split
    · rw [Function.update_of_ne heq, hold]
    · exact hold

theorem putcore_incore : (tab.putcore writethrough tsize).incore = tab.incore := by
  rw [putcore]
  split
  · split <;> rfl
  · rfl

theorem putcore_record (hkept : writethrough = true → tab.InFile tsize) (place : Nat) :
    (tab.putcore writethrough tsize).file.record place = tab.recordAt tsize place := by
  rw [recordAt_eq, putcore]
  split
  next hmem =>
    split
    next hwritethrough =>
      split
      next hcore => exact (hkept hwritethrough hmem place hcore.2).symm
      · rfl
    · simp only [RecordFile.overwrite, hmem, true_and]
  next hmode =>
    rw [if_neg]
    rintro ⟨hmem, -⟩
    exact hmode hmem

theorem recordAt_putcore (place : Nat) :
    (tab.putcore writethrough tsize).recordAt tsize place = tab.recordAt tsize place := by
  rw [putcore]
  split
  next hmem =>
    split
    · rfl
    · rw [recordAt_eq, recordAt_eq]
      split
      · rfl
      next hcore => exact if_neg fun hplace => hcore ⟨hmem, hplace⟩
  · rfl

theorem size_putcore : tab.file.size ≤ (tab.putcore writethrough tsize).file.size := by
  rw [putcore]
  split
  · split
    · exact Nat.le_refl _
    · exact Nat.le_max_left ..
  · exact Nat.le_refl _

theorem putcore_size (hmem : tab.incore = .mem) (hwritethrough : writethrough = false) :
    tsize ≤ (tab.putcore writethrough tsize).file.size := by
  rw [putcore, hmem, hwritethrough]
  exact Nat.le_max_right ..

end HashTable

namespace Database

section Searching

variable {db db' : Database} {sp : Searcher} {taboffset fuel : Nat}

def advance (tsize : Nat) (sp : Searcher) (taboffset : Nat) : Searcher × Nat :=
  if sp.run = (MAXRUN : Int) then
    ({ sp with
      tabno := sp.tabno + 1, run := 0,
      place := (sp.shorthash + 0) % tsize + (sp.tabno + 1) * tsize },
      (sp.tabno + 1) * tsize)
  else
    ({ sp with
      run := sp.run + 1,
      place := (sp.shorthash + (sp.run + 1).toNat) % tsize + taboffset }, taboffset)

theorem advance_same (tsize : Nat) (sp : Searcher) (taboffset : Nat) :
    (advance tsize sp taboffset).1.aborted = sp.aborted ∧
      (advance tsize sp taboffset).1.hash = sp.hash := by
  rw [advance]
  split <;> exact ⟨rfl, rfl⟩

section Mode

variable (hmode : db.etab.incore = db.options.existsIncore)

include hmode

theorem searchLoop_advance (fuel : Nat) (sp : Searcher) (taboffset : Nat) :
    db.searchLoop (fuel + 1) sp taboffset =
      if db.erecAt (advance db.conf.tsize sp taboffset).1.place = emptyRec then
        ((advance db.conf.tsize sp taboffset).1, false)
      else if db.erecAt (advance db.conf.tsize sp taboffset).1.place = erecOf sp.hash then
        ((advance db.conf.tsize sp taboffset).1, true)
      else db.searchLoop fuel (advance db.conf.tsize sp taboffset).1
        (advance db.conf.tsize sp taboffset).2 := by
  rw [searchLoop, advance]
  by_cases hshift : sp.run = (MAXRUN : Int)
  · simp only [hshift, if_true, ← hmode]
    rfl
  · simp only [hshift, if_false, ← hmode]
    rfl

def needed (db : Database) (sp : Searcher) : Nat :=
  ((MAXRUN : Int) - sp.run).toNat + 1 + (db.etab.file.size - sp.tabno) * (MAXRUN + 1)

omit hmode in
theorem advance_run (hrun : -1 ≤ sp.run ∧ sp.run ≤ (MAXRUN : Int)) (tsize taboffset : Nat) :
    0 ≤ (advance tsize sp taboffset).1.run ∧
      (advance tsize sp taboffset).1.run ≤ (MAXRUN : Int) := by
  rw [advance]
  split
  · simp [MAXRUN]
  · dsimp only
    omega

omit hmode in
theorem needed_advance (hrun : -1 ≤ sp.run ∧ sp.run ≤ (MAXRUN : Int))
    (hne : db.erecAt (advance db.conf.tsize sp taboffset).1.place ≠ emptyRec) :
    db.needed (advance db.conf.tsize sp taboffset).1 < db.needed sp := by
  rw [needed, needed]
  rw [advance] at hne ⊢
  split at hne
  next hshift =>
    rw [if_pos hshift]
    dsimp only at hne ⊢
    -- A table that is not vacant starts among the records of the file.
    have hinside : sp.tabno + 1 < db.etab.file.size := by
      by_contra hbeyond
      refine hne ?_
      have htable := Nat.le_mul_of_pos_right (sp.tabno + 1) db.conf.tsize_pos
      rw [erecAt, HashTable.recordAt_eq, if_neg]
      · exact db.etab.file.unwritten _ (by omega)
      · rintro ⟨-, hplace⟩
        have := Nat.le_mul_of_pos_left db.conf.tsize (show 0 < sp.tabno + 1 by omega)
        omega
    have hsplit : db.etab.file.size - sp.tabno = db.etab.file.size - (sp.tabno + 1) + 1 := by omega
    rw [hsplit, Nat.add_mul, hshift]
    simp only [MAXRUN]
    omega
  next hshift =>
    rw [if_neg hshift]
    dsimp only
    omega

theorem searchLoop_enough {fuel' : Nat}
    (hrun : -1 ≤ sp.run ∧ sp.run ≤ (MAXRUN : Int)) (hfuel : db.needed sp ≤ fuel)
    (hfuel' : fuel ≤ fuel') :
    db.searchLoop fuel' sp taboffset = db.searchLoop fuel sp taboffset := by
  induction fuel generalizing sp taboffset fuel' with
  | zero =>
    rw [needed] at hfuel
    omega
  | succ fuel ih =>
    cases fuel' with
    | zero => omega
    | succ fuel' =>
      rw [searchLoop_advance hmode, searchLoop_advance hmode]
      split
      · rfl
      next hne =>
        split
        · rfl
        · have hless := needed_advance hrun hne
          have hnext := advance_run hrun db.conf.tsize taboffset
          exact ih ⟨by omega, hnext.2⟩ (by omega) (Nat.le_of_succ_le_succ hfuel')

theorem searchLoop_result (hrun : -1 ≤ sp.run ∧ sp.run ≤ (MAXRUN : Int)) :
    let found := db.searchLoop (fuel + 1) sp taboffset
    (0 ≤ found.1.run ∧ found.1.run ≤ (MAXRUN : Int)) ∧ found.1.aborted = sp.aborted ∧
      found.1.hash = sp.hash ∧
      (found.2 = true → db.erecAt found.1.place ≠ emptyRec) := by
  induction fuel generalizing sp taboffset with
  | zero =>
    have hnext := advance_run hrun db.conf.tsize taboffset
    have hsame := advance_same db.conf.tsize sp taboffset
    rw [searchLoop_advance hmode]
    split
    · exact ⟨hnext, hsame.1, hsame.2, nofun⟩
    next hne =>
      split
      · exact ⟨hnext, hsame.1, hsame.2, fun _ => hne⟩
      · exact ⟨hnext, hsame.1, hsame.2, nofun⟩
  | succ fuel ih =>
    have hnext := advance_run hrun db.conf.tsize taboffset
    have hsame := advance_same db.conf.tsize sp taboffset
    rw [searchLoop_advance hmode]
    split
    · exact ⟨hnext, hsame.1, hsame.2, nofun⟩
    next hne =>
      split
      · exact ⟨hnext, hsame.1, hsame.2, fun _ => hne⟩
      · obtain ⟨hrun', haborted, hhash, hfound⟩ := @ih (advance db.conf.tsize sp taboffset).1
          (advance db.conf.tsize sp taboffset).2 ⟨by omega, hnext.2⟩
        exact ⟨hrun', haborted.trans hsame.1, hhash.trans hsame.2, hfound⟩

theorem searchLoop_congr
    (hmode' : db'.etab.incore = db'.options.existsIncore) (hconf : db.conf = db'.conf)
    (hrecords : ∀ place, db.erecAt place = db'.erecAt place) (fuel : Nat) (sp : Searcher)
    (taboffset : Nat) :
    db.searchLoop fuel sp taboffset = db'.searchLoop fuel sp taboffset := by
  induction fuel generalizing sp taboffset with
  | zero => rfl
  | succ fuel ih => rw [searchLoop_advance hmode, searchLoop_advance hmode', ← hconf, hrecords, ih]

theorem search_congr
    (hmode' : db'.etab.incore = db'.options.existsIncore) (hconf : db.conf = db'.conf)
    (hrecords : ∀ place, db.erecAt place = db'.erecAt place)
    (hrun : -1 ≤ sp.run ∧ sp.run ≤ (MAXRUN : Int)) :
    db.search sp = db'.search sp := by
  have henough (db : Database) (hmode : db.etab.incore = db.options.existsIncore) {fuel : Nat}
      (hfuel : db.searchFuel ≤ fuel) :
        db.searchLoop fuel sp 0 = db.searchLoop db.searchFuel sp 0 := by
    refine searchLoop_enough hmode hrun ?_ hfuel
    rw [needed, searchFuel, Nat.add_mul]
    have := Nat.mul_le_mul_right (MAXRUN + 1) (Nat.sub_le db.etab.file.size sp.tabno)
    simp only [MAXRUN] at this ⊢
    omega
  rw [search, search, ← henough db hmode (Nat.le_add_right db.searchFuel db'.searchFuel),
    ← henough db' hmode' (Nat.le_add_left db'.searchFuel db.searchFuel),
      searchLoop_congr hmode hmode' hconf hrecords]

theorem search_result (hrun : -1 ≤ sp.run ∧ sp.run ≤ (MAXRUN : Int))
    (haborted : sp.aborted = false) :
    (0 ≤ (db.search sp).1.run ∧ (db.search sp).1.run ≤ (MAXRUN : Int)) ∧
      (db.search sp).1.aborted = false ∧
      ((db.search sp).2 = true → db.erecAt (db.search sp).1.place ≠ emptyRec) := by
  have hfuel : db.searchFuel = (db.searchFuel - 1) + 1 := by
    simp only [searchFuel, MAXRUN]
    omega
  have hresult := @searchLoop_result db sp 0 (db.searchFuel - 1) hmode hrun
  rw [← hfuel] at hresult
  rw [search, haborted, if_neg (by rintro ⟨⟩)]
  exact ⟨hresult.1, hresult.2.1.trans haborted, hresult.2.2.2⟩

end Mode

end Searching

theorem set_eq {ρ : Type} {zero : ρ} {db : Database} {sp : Searcher} (tab : HashTable zero)
    (haborted : sp.aborted = false) (value : ρ) :
    db.set sp tab value =
      some (tab.stored db.options.writethrough db.conf.tsize sp.place value) := by
  unfold set HashTable.stored
  rw [if_neg (by simp [haborted])]
  split
  next hcore =>
    split
    next hmode => simp [hmode]
    next hmode =>
      have hmem : tab.incore = .mem := by
        cases h : tab.incore <;> simp_all
      cases hwritethrough : db.options.writethrough <;> simp [hmem, hcore.2]
  next hcore =>
    have hnot : ¬ (tab.incore = .mem ∧ sp.place < db.conf.tsize) := fun ⟨hmem, hplace⟩ =>
      hcore ⟨by rw [hmem]; nofun, hplace⟩
    rw [if_neg hnot, if_neg fun hall => hnot ⟨hall.1, hall.2.1⟩]

theorem recordAt_stored {ρ : Type} {zero : ρ} (db : Database) (tab : HashTable zero)
    (place : Nat) (value : ρ) (other : Nat) :
    (tab.stored db.options.writethrough db.conf.tsize place value).recordAt db.conf.tsize other =
      if other = place then value else tab.recordAt db.conf.tsize other := by
  obtain ⟨tab', heq, hwrote⟩ := @exists_set _ _ db ⟨place, 0, 0, HashClear, 0, false⟩ tab rfl value
  cases (set_eq tab rfl value).symm.trans heq
  exact hwrote.recordAt other

/-- A table in core agrees with its file, as far as it is written. -/
structure Sound (db : Database) : Prop where
  idxmode : db.idxtab.incore = db.options.pagIncore
  emode : db.etab.incore = db.options.existsIncore
  idx : db.options.writethrough = true ∨ db.dirty = false → db.idxtab.InFile db.conf.tsize
  erecs : db.options.writethrough = true ∨ db.dirty = false → db.etab.InFile db.conf.tsize
  covered : ∀ place, db.erecAt place ≠ emptyRec → place < db.idxtab.file.size ∨
    db.idxtab.incore = .mem ∧ db.options.writethrough = false ∧ db.dirty = true ∧
      place < db.conf.tsize
  resumed : db.prevp = true → (0 ≤ db.srch.run ∧ db.srch.run ≤ (MAXRUN : Int)) ∧
    db.srch.aborted = false

/-- Two databases that look the same to their callers. -/
structure Similar (db db' : Database) : Prop where
  conf : db.conf = db'.conf
  srch : db.srch = db'.srch
  prevp : db.prevp = db'.prevp
  readonly : db.readonly = db'.readonly
  dirty : db.dirty = db'.dirty
  erecs : ∀ place, db.erecAt place = db'.erecAt place
  idx : ∀ place, db.idxtab.recordAt db.conf.tsize place = db'.idxtab.recordAt db'.conf.tsize place

section Calls

variable {db db' : Database} {key : HASH}

theorem start_fresh (sp : Searcher) (key : HASH) :
    (-1 ≤ (start sp key none).run ∧ (start sp key none).run ≤ (MAXRUN : Int)) ∧
      (start sp key none).aborted = false :=
  ⟨⟨Int.le_refl _, by simp [start, MAXRUN]⟩, rfl⟩

theorem Sound.start_prev (hsound : db.Sound) (key : HASH) :
    (-1 ≤ (start db.srch key db.prev).run ∧ (start db.srch key db.prev).run ≤ (MAXRUN : Int)) ∧
      (start db.srch key db.prev).aborted = false := by
  rw [prev]
  split
  next hprevp =>
    obtain ⟨⟨hge, hle⟩, haborted⟩ := hsound.resumed hprevp
    rw [start]
    split
    · exact ⟨⟨by dsimp only; omega, by dsimp only; omega⟩, haborted⟩
    · exact start_fresh db.srch key
  · exact start_fresh db.srch key

theorem Sound.get_idx (hsound : db.Sound) {place : Nat} (hplace : db.erecAt place ≠ emptyRec) :
    db.idxtab.get db.options.pagIncore db.conf.tsize place =
      some (db.idxtab.recordAt db.conf.tsize place) := by
  rw [← hsound.idxmode]
  refine HashTable.get_eq_some_iff.mpr ⟨?_, rfl⟩
  rcases hsound.covered place hplace with hsize | ⟨hmem, -, -, hcore⟩
  · exact .inr hsize
  · exact .inl ⟨by rw [hmem]; nofun, hcore⟩

theorem Similar.search (hsimilar : Similar db db') (hsound : db.Sound) (hsound' : db'.Sound)
    {sp : Searcher} (hrun : -1 ≤ sp.run ∧ sp.run ≤ (MAXRUN : Int)) : db.search sp = db'.search sp :=
  search_congr hsound.emode hsound'.emode hsimilar.conf hsimilar.erecs hrun

theorem Sound.searched (hsound : db.Sound) {sp : Searcher} {prevp : Bool}
    (hresumed : prevp = true → (0 ≤ sp.run ∧ sp.run ≤ (MAXRUN : Int)) ∧ sp.aborted = false) :
    ({ db with prevp := prevp, srch := sp } : Database).Sound :=
  ⟨hsound.idxmode, hsound.emode, hsound.idx, hsound.erecs, hsound.covered, hresumed⟩

theorem Similar.searched (hsimilar : Similar db db') (sp : Searcher) (prevp : Bool) :
    Similar { db with prevp := prevp, srch := sp } { db' with prevp := prevp, srch := sp } :=
  ⟨hsimilar.conf, rfl, rfl, hsimilar.readonly, hsimilar.dirty, hsimilar.erecs, hsimilar.idx⟩

theorem Sound.dbzexists (hsound : db.Sound) (key : HASH) : (db.dbzexists key).1.Sound :=
    hsound.searched nofun

theorem Similar.dbzexists (hsimilar : Similar db db') (hsound : db.Sound) (hsound' : db'.Sound)
    (key : HASH) :
    Similar (db.dbzexists key).1 (db'.dbzexists key).1 ∧
      (db.dbzexists key).2 = (db'.dbzexists key).2 := by
  have hsearch := hsimilar.search hsound hsound' (start_fresh db.srch key).1
  rw [Database.dbzexists, Database.dbzexists, ← hsimilar.srch, ← hsearch]
  exact ⟨hsimilar.searched _ _, rfl⟩

theorem Sound.dbzfetch_eq (hsound : db.Sound) (key : HASH) :
    db.dbzfetch key =
      let found := db.search (start db.srch key none)
      if found.2 then
        ({ db with prevp := false, srch := found.1 },
          some (db.idxtab.recordAt db.conf.tsize found.1.place))
      else ({ db with prevp := true, srch := found.1 }, none) := by
  obtain ⟨hrun, haborted⟩ := start_fresh db.srch key
  have hresult := search_result hsound.emode hrun haborted
  rw [Database.dbzfetch]
  dsimp only
  split
  next hfound => rw [hsound.get_idx (hresult.2.2 hfound)]
  · rfl

theorem Sound.dbzfetch (hsound : db.Sound) (key : HASH) : (db.dbzfetch key).1.Sound := by
  obtain ⟨hrun, haborted⟩ := start_fresh db.srch key
  have hresult := search_result hsound.emode hrun haborted
  rw [hsound.dbzfetch_eq]
  dsimp only
  split
  · exact hsound.searched nofun
  · exact hsound.searched fun _ => ⟨hresult.1, hresult.2.1⟩

theorem Similar.dbzfetch (hsimilar : Similar db db') (hsound : db.Sound) (hsound' : db'.Sound)
    (key : HASH) :
    Similar (db.dbzfetch key).1 (db'.dbzfetch key).1 ∧
      (db.dbzfetch key).2 = (db'.dbzfetch key).2 := by
  have hsearch := hsimilar.search hsound hsound' (start_fresh db.srch key).1
  rw [hsound.dbzfetch_eq, hsound'.dbzfetch_eq, ← hsimilar.srch, ← hsearch]
  dsimp only
  split
  · exact ⟨hsimilar.searched _ _, congrArg some (hsimilar.idx _)⟩
  · exact ⟨hsimilar.searched _ _, rfl⟩

def withRecord (db : Database) (sp : Searcher) (data : Int) : Database :=
  { db with
    srch := sp
    prevp := false
    conf := { db.conf with used := db.conf.used + 1 }
    dirty := true
    idxtab := db.idxtab.stored db.options.writethrough db.conf.tsize sp.place data
    etab := db.etab.stored db.options.writethrough db.conf.tsize sp.place (erecOf sp.hash) }

theorem Sound.dbzstore_eq (hsound : db.Sound) (key : HASH) (data : Int) :
    db.dbzstore key data =
      if db.readonly then (db, .error)
      else
        let found := db.search (start db.srch key db.prev)
        if found.2 then ({ db with srch := found.1 },
          .exists) else (db.withRecord found.1 data, .ok) := by
  obtain ⟨hrun, haborted⟩ := hsound.start_prev key
  have hresult := search_result hsound.emode hrun haborted
  rw [Database.dbzstore]
  split
  · rfl
  · dsimp only
    split
    · rfl
    · rw [set_eq db.idxtab hresult.2.1]
      dsimp only
      rw [set_eq db.etab hresult.2.1]
      rfl

theorem Sound.withRecord (hsound : db.Sound) (sp : Searcher) (data : Int) :
    (db.withRecord sp data).Sound where
  idxmode := hsound.idxmode
  emode := hsound.emode
  idx hkept := by
    have hwritethrough := hkept.resolve_right nofun
    exact HashTable.inFile_stored (hsound.idx (.inl hwritethrough)) hwritethrough
  erecs hkept := by
    have hwritethrough := hkept.resolve_right nofun
    exact HashTable.inFile_stored (hsound.erecs (.inl hwritethrough)) hwritethrough
  covered place hplace := by
    change (db.etab.stored db.options.writethrough db.conf.tsize sp.place (erecOf sp.hash)).recordAt
      db.conf.tsize place ≠
      emptyRec at hplace
    change place < (db.idxtab.stored db.options.writethrough db.conf.tsize sp.place
      data).file.size ∨
      db.idxtab.incore = .mem ∧ db.options.writethrough = false ∧ true = true ∧
        place < db.conf.tsize
    rw [recordAt_stored] at hplace
    split at hplace
    next heq =>
      rw [heq]
      exact HashTable.stored_size.imp_right fun ⟨hmem, hwritethrough, hcore⟩ =>
        ⟨hmem, hwritethrough, rfl, hcore⟩
    · rcases hsound.covered place hplace with hsize | ⟨hmem, hwritethrough, -, hcore⟩
      · exact .inl (Nat.lt_of_lt_of_le hsize HashTable.size_stored)
      · exact .inr ⟨hmem, hwritethrough, rfl, hcore⟩
  resumed := nofun

theorem Similar.withRecord (hsimilar : Similar db db') (sp : Searcher) (data : Int) :
    Similar (db.withRecord sp data) (db'.withRecord sp data) where
  conf := by rw [Database.withRecord, Database.withRecord, hsimilar.conf]
  srch := rfl
  prevp := rfl
  readonly := hsimilar.readonly
  dirty := rfl
  erecs place := by
    change (db.etab.stored db.options.writethrough db.conf.tsize sp.place (erecOf sp.hash)).recordAt
      db.conf.tsize place =
      (db'.etab.stored db'.options.writethrough db'.conf.tsize sp.place (erecOf sp.hash)).recordAt
        db'.conf.tsize place
    rw [recordAt_stored, recordAt_stored]
    split
    · rfl
    · exact hsimilar.erecs place
  idx place := by
    change (db.idxtab.stored db.options.writethrough db.conf.tsize sp.place data).recordAt
      db.conf.tsize place =
      (db'.idxtab.stored db'.options.writethrough db'.conf.tsize sp.place data).recordAt
        db'.conf.tsize place
    rw [recordAt_stored, recordAt_stored]
    split
    · rfl
    · exact hsimilar.idx place

theorem Sound.dbzstore (hsound : db.Sound) (key : HASH) (data : Int) :
    (db.dbzstore key data).1.Sound := by
  obtain ⟨hrun, haborted⟩ := hsound.start_prev key
  have hresult := search_result hsound.emode hrun haborted
  rw [hsound.dbzstore_eq]
  split
  · exact hsound
  · dsimp only
    split
    · exact hsound.searched fun _ => ⟨hresult.1, hresult.2.1⟩
    · exact hsound.withRecord _ _

theorem Similar.dbzstore (hsimilar : Similar db db') (hsound : db.Sound) (hsound' : db'.Sound)
    (key : HASH) (data : Int) :
    Similar (db.dbzstore key data).1 (db'.dbzstore key data).1 ∧
      (db.dbzstore key data).2 = (db'.dbzstore key data).2 := by
  have hsearch := hsimilar.search hsound hsound' (hsound.start_prev key).1
  have hprev : db.prev = db'.prev := by rw [prev, prev, hsimilar.prevp, hsimilar.srch]
  rw [hsound.dbzstore_eq, hsound'.dbzstore_eq, ← hsimilar.readonly, ← hsimilar.srch,
    ← hprev, ← hsearch]
  split
  · exact ⟨hsimilar, rfl⟩
  · dsimp only
    split
    · exact ⟨⟨hsimilar.conf, rfl, hsimilar.prevp, rfl, hsimilar.dirty, hsimilar.erecs,
        hsimilar.idx⟩, rfl⟩
    · exact ⟨hsimilar.withRecord _ _, rfl⟩

theorem Sound.call (hsound : db.Sound) (call : Call) : (db.call call).1.Sound := by
  cases call with
  | dbzexists key => exact hsound.dbzexists key
  | dbzfetch key => exact hsound.dbzfetch key
  | dbzstore key data => exact hsound.dbzstore key data

theorem Similar.call (hsimilar : Similar db db') (hsound : db.Sound)
    (hsound' : db'.Sound) (call : Call) :
    Similar (db.call call).1 (db'.call call).1 ∧ (db.call call).2 = (db'.call call).2 := by
  cases call with
  | dbzexists key =>
    exact (hsimilar.dbzexists hsound hsound' key).imp_right (congrArg Answer.exists)
  | dbzfetch key => exact (hsimilar.dbzfetch hsound hsound' key).imp_right (congrArg Answer.fetched)
  | dbzstore key data =>
      exact (hsimilar.dbzstore hsound hsound' key data).imp_right (congrArg Answer.stored)

end Calls

section Syncing

variable {db db' : Database}

theorem Sound.dbzsync (hsound : db.Sound) : db.dbzsync.Sound := by
  rw [Database.dbzsync]
  split
  next hdirty =>
    have hwritten {ρ : Type} {zero : ρ} (tab : HashTable zero)
        (hwritethrough : db.options.writethrough = true) :
        tab.putcore db.options.writethrough db.conf.tsize = tab := by
      rw [HashTable.putcore, hwritethrough]
      split <;> rfl
    refine ⟨HashTable.putcore_incore.trans hsound.idxmode,
      HashTable.putcore_incore.trans hsound.emode, fun hkept => ?_,
      fun hkept => ?_, fun place hplace => ?_, hsound.resumed⟩
    · have hwritethrough := hkept.resolve_right (by rw [hdirty]; nofun)
      change HashTable.InFile (db.idxtab.putcore _ _) _
      rw [hwritten db.idxtab hwritethrough]
      exact hsound.idx (.inl hwritethrough)
    · have hwritethrough := hkept.resolve_right (by rw [hdirty]; nofun)
      change HashTable.InFile (db.etab.putcore _ _) _
      rw [hwritten db.etab hwritethrough]
      exact hsound.erecs (.inl hwritethrough)
    · have hold : db.erecAt place ≠ emptyRec := by
        rw [erecAt, ← HashTable.recordAt_putcore]
        exact hplace
      rcases hsound.covered place hold with hsize | ⟨hmem, hwritethrough, -, hcore⟩
      · exact .inl (Nat.lt_of_lt_of_le hsize HashTable.size_putcore)
      · exact .inl (Nat.lt_of_lt_of_le hcore (HashTable.putcore_size hmem hwritethrough))
  · exact hsound

theorem Sound.sync_record (hsound : db.Sound) (place : Nat) :
    db.dbzsync.idxtab.file.record place = db.idxtab.recordAt db.conf.tsize place ∧
      db.dbzsync.etab.file.record place = db.erecAt place := by
  have hclean {ρ : Type} {zero : ρ} (tab : HashTable zero) (hkept : tab.InFile db.conf.tsize) :
      tab.file.record place = tab.recordAt db.conf.tsize place := by
    rw [HashTable.recordAt_eq]
    split
    next hcore => exact (hkept hcore.1 place hcore.2).symm
    · rfl
  rw [Database.dbzsync]
  split
  · exact ⟨HashTable.putcore_record (fun hwritethrough => hsound.idx (.inl hwritethrough)) place,
      HashTable.putcore_record (fun hwritethrough => hsound.erecs (.inl hwritethrough)) place⟩
  next hdirty =>
    have hdirty := Bool.eq_false_iff.mpr hdirty
    exact ⟨hclean db.idxtab (hsound.idx (.inr hdirty)), hclean db.etab (hsound.erecs (.inr hdirty))⟩

theorem Sound.sync_covered (hsound : db.Sound) (place : Nat)
    (hplace : db.dbzsync.etab.file.record place ≠ emptyRec) :
    place < db.dbzsync.idxtab.file.size := by
  rw [(hsound.sync_record place).2] at hplace
  rw [Database.dbzsync]
  rcases hsound.covered place hplace with hsize | ⟨hmem, hwritethrough, hdirty, hcore⟩
  · split
    · exact Nat.lt_of_lt_of_le hsize HashTable.size_putcore
    · exact hsize
  · rw [if_pos hdirty]
    exact Nat.lt_of_lt_of_le hcore (HashTable.putcore_size hmem hwritethrough)

theorem Similar.dbzsync (hsimilar : Similar db db') : Similar db.dbzsync db'.dbzsync := by
  rw [Database.dbzsync, Database.dbzsync, ← hsimilar.dirty]
  split
  · refine ⟨hsimilar.conf, hsimilar.srch, hsimilar.prevp, hsimilar.readonly, rfl, fun place => ?_,
      fun place => ?_⟩
    · exact (HashTable.recordAt_putcore place).trans
        ((hsimilar.erecs place).trans (HashTable.recordAt_putcore place).symm)
    · exact (HashTable.recordAt_putcore place).trans
        ((hsimilar.idx place).trans (HashTable.recordAt_putcore place).symm)
  · exact hsimilar

end Syncing

end Database

def Files.Covered (files : Files) : Prop :=
    ∀ place, files.hash.record place ≠ emptyRec → place < files.idx.size

section Opening

variable {files files' : Files} {options options' : Options} {readonly : Bool} {db db' : Database}

theorem Files.dbzinit_sound (hcovered : files.Covered)
    (hopen : files.dbzinit options readonly = some db) : db.Sound := by
  rw [Files.dbzinit] at hopen
  split at hopen
  · cases hopen
    refine ⟨HashTable.incore_openhashtable .., HashTable.incore_openhashtable ..,
      fun _ => HashTable.inFile_open _ _ _,
      fun _ => HashTable.inFile_open _ _ _, fun place hplace => ?_, nofun⟩
    have hrecord : files.hash.record place ≠ emptyRec := by
      rw [← HashTable.recordAt_open files.hash files.dir.tsize options.existsIncore]
      exact hplace
    exact .inl (Nat.lt_of_lt_of_le (hcovered place hrecord) (HashTable.size_open ..))
  · cases hopen

theorem Files.dbzinit_similar (hsame : files.SameRecords files')
    (hopen : files.dbzinit options readonly = some db)
    (hopen' : files'.dbzinit options' readonly = some db') : db.Similar db' := by
  rw [Files.dbzinit] at hopen hopen'
  split at hopen
  · split at hopen'
    · cases hopen
      cases hopen'
      refine ⟨hsame.dir, rfl, rfl, rfl, rfl, fun place => ?_, fun place => ?_⟩
      · rw [Database.erecAt, Database.erecAt]
        rw [HashTable.recordAt_open, HashTable.recordAt_open, hsame.hash]
      · dsimp only
        rw [HashTable.recordAt_open, HashTable.recordAt_open, hsame.idx]
    · cases hopen'
  · cases hopen

end Opening

namespace Session

inductive Alike : System → System → Prop
  | closed {files files' : Files} (hsame : files.SameRecords files') (hcovered : files.Covered)
      (hcovered' : files'.Covered) : Alike (.closed files) (.closed files')
  | opened {dir : Config} {db db' : Database} (hsimilar : db.Similar db') (hsound : db.Sound)
      (hsound' : db'.Sound) :
      Alike (.opened dir db) (.opened dir db')

def Operation.settles : Operation → Bool
  | .dbzsync | .dbzclose => true
  | _ => false

theorem Alike.synced {db db' : Database} (hsimilar : db.Similar db') (hsound : db.Sound)
    (hsound' : db'.Sound) (dir : Config) : (System.opened dir db.dbzsync).files.SameRecords
    (System.opened dir db'.dbzsync).files where
  dir := rfl
  idx := by
    funext place
    exact (hsound.sync_record place).1.trans
      ((hsimilar.idx place).trans (hsound'.sync_record place).1.symm)
  hash := by
    funext place
    exact (hsound.sync_record place).2.trans
      ((hsimilar.erecs place).trans (hsound'.sync_record place).2.symm)

variable {options options' : Nat → Options} {system system' next next' : System}
    {operation : Operation}
  {reply reply' : Reply}

theorem Alike.perform (halike : Alike system system')
    (hstep : perform options system operation = .ok (next, reply))
    (hstep' : perform options' system' operation = .ok (next', reply')) :
    reply = reply' ∧ Alike next next' ∧
      (Operation.settles operation = true → next.files.SameRecords next'.files) := by
  cases halike with
  | @closed files files' hsame hcovered hcovered' =>
    cases operation with
    | dbzinit choice readonly =>
      rw [Session.perform] at hstep hstep'
      split at hstep
      · cases hstep
      next db hopen =>
        split at hstep'
        · cases hstep'
        next db' hopen' =>
          cases hstep
          cases hstep'
          rw [hsame.dir]
          exact ⟨rfl, .opened (Files.dbzinit_similar hsame hopen hopen')
            (Files.dbzinit_sound hcovered hopen)
            (Files.dbzinit_sound hcovered' hopen'), nofun⟩
    | dbzsync =>
      cases hstep
      cases hstep'
      exact ⟨rfl, .closed hsame hcovered hcovered', fun _ => hsame⟩
    | dbzclose =>
      cases hstep
      cases hstep'
      exact ⟨rfl, .closed hsame hcovered hcovered', fun _ => hsame⟩
    | call call =>
      cases hstep
      cases hstep'
      exact ⟨rfl, .closed hsame hcovered hcovered', nofun⟩
  | @opened dir db db' hsimilar hsound hsound' =>
    have hsynced := Alike.synced hsimilar hsound hsound' (if db.dirty then db.conf else dir)
    cases operation with
    | dbzinit choice readonly =>
      cases hstep
      cases hstep'
      exact ⟨rfl, .opened hsimilar hsound hsound', nofun⟩
    | dbzsync =>
      cases hstep
      cases hstep'
      rw [← hsimilar.conf, ← hsimilar.dirty]
      exact ⟨rfl, .opened hsimilar.dbzsync hsound.dbzsync hsound'.dbzsync, fun _ => hsynced⟩
    | dbzclose =>
      cases hstep
      cases hstep'
      rw [← hsimilar.conf, ← hsimilar.dirty]
      exact ⟨rfl, .closed hsynced hsound.sync_covered hsound'.sync_covered, fun _ => hsynced⟩
    | call call =>
      cases hstep
      cases hstep'
      obtain ⟨hcall, hanswer⟩ := hsimilar.call hsound hsound' call
      exact ⟨congrArg Reply.answer hanswer,
        .opened hcall (hsound.call call) (hsound'.call call), nofun⟩

variable {s s' t t' : Session} {operations : List Operation}

theorem step_ok (hstep : step options s operation = .ok t) :
    ∃ reply, perform options s.system operation = .ok (t.system, reply) ∧
      t.replies = s.replies ++ [reply] := by
  rw [step] at hstep
  cases hperform : perform options s.system operation with
  | error fault =>
    rw [hperform] at hstep
    cases hstep
  | ok next =>
    rw [hperform] at hstep
    cases hstep
    exact ⟨next.2, rfl, rfl⟩

theorem Alike.run (halike : Alike s.system s'.system) (hreplies : s.replies = s'.replies)
    (hrun : run (step options) operations s = .ok t)
    (hrun' : run (step options') operations s' = .ok t') :
    t.replies = t'.replies ∧ Alike t.system t'.system := by
  induction operations generalizing s s' with
  | nil =>
    cases hrun
    cases hrun'
    exact ⟨hreplies, halike⟩
  | cons operation operations ih =>
    rw [Foundation.Runs.run] at hrun hrun'
    split at hrun
    · cases hrun
    next s₁ hstep =>
      split at hrun'
      · cases hrun'
      next s₁' hstep' =>
        obtain ⟨reply, hperform, hsame⟩ := step_ok hstep
        obtain ⟨reply', hperform', hsame'⟩ := step_ok hstep'
        obtain ⟨rfl, halike₁, -⟩ := halike.perform hperform hperform'
        exact ih halike₁ (by rw [hsame, hsame', hreplies]) hrun hrun'

theorem created_alike (conf : Config) : Alike (created conf).system (created conf).system :=
  .closed ⟨rfl, rfl, rfl⟩ (fun _ hplace => absurd rfl hplace) fun _ hplace => absurd rfl hplace

/-- Whatever modes are chosen each time a database is opened, its operations return the same, as
long as it can be opened, and once it is synchronised or closed the files hold the same records. -/
theorem modes_agree (conf : Config) (options options' : Nat → Options) (operations : List Operation)
    (hrun : run (step options) operations (created conf) = .ok s)
    (hrun' : run (step options') operations (created conf) = .ok s') :
    s.replies = s'.replies ∧
      ∀ front operation, operations = front ++ [operation] → Operation.settles operation = true →
        s.system.files.SameRecords s'.system.files := by
  refine ⟨((created_alike conf).run rfl hrun hrun').1, ?_⟩
  rintro front operation rfl hsettles
  obtain ⟨t, hfront, hlast⟩ := of_run_append hrun
  obtain ⟨t', hfront', hlast'⟩ := of_run_append hrun'
  have halike := ((created_alike conf).run rfl hfront hfront').2
  rw [Foundation.Runs.run] at hlast hlast'
  split at hlast
  · cases hlast
  next s₁ hstep =>
    split at hlast'
    · cases hlast'
    next s₁' hstep' =>
      obtain rfl := Except.ok.inj hlast
      obtain rfl := Except.ok.inj hlast'
      obtain ⟨reply, hperform, -⟩ := step_ok hstep
      obtain ⟨reply', hperform', -⟩ := step_ok hstep'
      exact (halike.perform hperform hperform').2.2 hsettles

def four : Config := ⟨4, by decide, 0⟩

def inCore : Options := ⟨false, .mem, .mem, true⟩

def storedOne : List Operation := [.dbzinit 0 false, .call (.dbzstore (HASH.fill 1) 5), .dbzclose]

theorem modes_agree_storedOne :
    ∃ s s', run (step fun _ => onDisk) storedOne (created four) = .ok s ∧
    run (step fun _ => inCore) storedOne (created four) = .ok s' ∧ s.replies = s'.replies ∧
    s.system.files.SameRecords s'.system.files := by
  have hagree := modes_agree four (fun _ => onDisk) (fun _ => inCore) storedOne rfl rfl
  exact ⟨_, _, rfl, rfl, hagree.1,
    hagree.2 [.dbzinit 0 false, .call (.dbzstore (HASH.fill 1) 5)] .dbzclose rfl rfl⟩

/-- The file that was written record by record is shorter. -/
theorem not_same_files : ¬ ∀ (options options' : Nat → Options) (s s' : Session),
    run (step options) storedOne (created four) = .ok s →
      run (step options') storedOne (created four) = .ok s' →
      s.system.files = s'.system.files := by
  intro hsame
  have hfiles := hsame (fun _ => onDisk) (fun _ => inCore) _ _ rfl rfl
  have hsize := congrArg (fun files => files.idx.size) hfiles
  revert hsize
  decide

end Session

end Inn.Dbz
