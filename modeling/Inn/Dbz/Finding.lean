import Inn.Dbz.Modes

/-!
# What a database finds

A search that starts afresh finds a hash exactly if one of its probes has its
octets and no probe up to that one is vacant. What is found depends on nothing
but the records, and is still found after a record is put in a vacant place.
-/

namespace Inn.Dbz

open Function (update update_of_ne update_self)

section Records

variable {tsize : Nat} {erecs : Nat → Erec} {key other : HASH} {n place : Nat} {value : Erec}

/-- The probe is the first one that has the octets of the key, and none up to it is vacant. -/
structure FoundAt (tsize : Nat) (erecs : Nat → Erec) (key : HASH) (n : Nat) : Prop where
  record : erecs (probe tsize key n) = erecOf key
  occupied : ∀ m ≤ n, erecs (probe tsize key m) ≠ emptyRec
  first : ∀ m < n, erecs (probe tsize key m) ≠ erecOf key

/-- The probe is the first one that is vacant, and none in front of it has the octets of the key. -/
structure VacantAt (tsize : Nat) (erecs : Nat → Erec) (key : HASH) (n : Nat) : Prop where
  vacant : erecs (probe tsize key n) = emptyRec
  occupied : ∀ m < n, erecs (probe tsize key m) ≠ emptyRec
  first : ∀ m < n, erecs (probe tsize key m) ≠ erecOf key

/-- A probe of the key has its octets, and none up to it is vacant. -/
def Finds (tsize : Nat) (erecs : Nat → Erec) (key : HASH) : Prop :=
  ∃ n, erecs (probe tsize key n) = erecOf key ∧ ∀ m ≤ n, erecs (probe tsize key m) ≠ emptyRec

theorem finds_iff : Finds tsize erecs key ↔ ∃ n, FoundAt tsize erecs key n := by
  constructor
  · rintro ⟨n, hrecord, hoccupied⟩
    -- the least probe that has the octets
    have hexists : ∃ m, erecs (probe tsize key m) = erecOf key := ⟨n, hrecord⟩
    have hle : Nat.find hexists ≤ n := Nat.find_min' hexists hrecord
    exact ⟨Nat.find hexists, Nat.find_spec hexists, fun m hm => hoccupied m (hm.trans hle),
      fun m hm => Nat.find_min hexists hm⟩
  · rintro ⟨n, hfound⟩
    exact ⟨n, hfound.record, hfound.occupied⟩

theorem FoundAt.unique {n' : Nat} (hfound : FoundAt tsize erecs key n)
    (hfound' : FoundAt tsize erecs key n') : n = n' := by
  apply Nat.le_antisymm
  · exact Nat.le_of_not_lt fun hlt => hfound.first n' hlt hfound'.record
  · exact Nat.le_of_not_lt fun hlt => hfound'.first n hlt hfound.record

theorem VacantAt.unique {n' : Nat} (hvacant : VacantAt tsize erecs key n)
    (hvacant' : VacantAt tsize erecs key n') : n = n' := by
  apply Nat.le_antisymm
  · exact Nat.le_of_not_lt fun hlt => hvacant.occupied n' hlt hvacant'.vacant
  · exact Nat.le_of_not_lt fun hlt => hvacant'.occupied n hlt hvacant.vacant

theorem VacantAt.not_finds (hvacant : VacantAt tsize erecs key n) : ¬Finds tsize erecs key := by
  rintro ⟨m, hrecord, hoccupied⟩
  rcases Nat.lt_or_ge m n with hlt | hge
  · exact hvacant.first m hlt hrecord
  · exact hoccupied n hge hvacant.vacant

theorem Finds.not_empty (hfinds : Finds tsize erecs key) : erecOf key ≠ emptyRec := by
  obtain ⟨n, hrecord, hoccupied⟩ := hfinds
  rw [← hrecord]
  exact hoccupied n (Nat.le_refl n)

theorem FoundAt.ne_vacant (hfound : FoundAt tsize erecs key n)
    (hplace : erecs place = emptyRec) {m : Nat} (hm : m ≤ n) : probe tsize key m ≠ place := by
  rintro rfl
  exact hfound.occupied m hm hplace

theorem FoundAt.update (hfound : FoundAt tsize erecs key n) (hplace : erecs place = emptyRec)
    (value : Erec) :
    FoundAt tsize (update erecs place value) key n where
  record := by rw [update_of_ne (hfound.ne_vacant hplace (Nat.le_refl n)), hfound.record]
  occupied m hm := by
    rw [update_of_ne (hfound.ne_vacant hplace hm)]
    exact hfound.occupied m hm
  first m hm := by
    rw [update_of_ne (hfound.ne_vacant hplace (Nat.le_of_lt hm))]
    exact hfound.first m hm

theorem Finds.update (hfinds : Finds tsize erecs key) (hplace : erecs place = emptyRec)
    (value : Erec) :
    Finds tsize (update erecs place value) key := by
  obtain ⟨n, hfound⟩ := finds_iff.mp hfinds
  exact finds_iff.mpr ⟨n, hfound.update hplace value⟩

theorem VacantAt.ne_probe (hvacant : VacantAt tsize erecs key n) {m : Nat} (hm : m < n) :
    probe tsize key m ≠ probe tsize key n := by
  intro heq
  refine hvacant.occupied m hm ?_
  rw [heq]
  exact hvacant.vacant

theorem VacantAt.found (hvacant : VacantAt tsize erecs key n) (hkey : erecOf key ≠ emptyRec) :
    FoundAt tsize (Function.update erecs (probe tsize key n) (erecOf key)) key n where
  record := update_self ..
  occupied m hm := by
    rcases Nat.lt_or_eq_of_le hm with hlt | rfl
    · rw [update_of_ne (hvacant.ne_probe hlt)]
      exact hvacant.occupied m hlt
    · rwa [update_self]
  first m hm := by
    rw [update_of_ne (hvacant.ne_probe hm)]
    exact hvacant.first m hm

end Records

namespace Database

variable {db : Database} {sp : Searcher} {key : HASH}

section Searching

variable (hmode : db.etab.incore = db.options.existsIncore)

include hmode

theorem searchLoop_vacant {fuel taboffset : Nat} (hrun : -1 ≤ sp.run ∧ sp.run ≤ (MAXRUN : Int))
    (hfuel : db.needed sp ≤ fuel) (hmissed : (db.searchLoop fuel sp taboffset).2 = false) :
    db.erecAt (db.searchLoop fuel sp taboffset).1.place = emptyRec := by
  induction fuel generalizing sp taboffset with
  | zero =>
    rw [needed] at hfuel
    omega
  | succ fuel ih =>
    rw [searchLoop_advance hmode] at hmissed ⊢
    split at hmissed
    next hvacant => rw [if_pos hvacant, hvacant]
    next hne =>
      split at hmissed
      · cases hmissed
      next hother =>
        rw [if_neg hne, if_neg hother]
        have hless := needed_advance hrun hne
        have hnext := advance_run hrun db.conf.tsize taboffset
        exact ih ⟨by omega, hnext.2⟩ (by omega) hmissed

theorem searchLoop_found {fuel taboffset : Nat}
    (hfound : (db.searchLoop fuel sp taboffset).2 = true) :
    db.erecAt (db.searchLoop fuel sp taboffset).1.place = erecOf sp.hash := by
  induction fuel generalizing sp taboffset with
  | zero => cases hfound
  | succ fuel ih =>
    rw [searchLoop_advance hmode] at hfound ⊢
    split at hfound
    · cases hfound
    next hne =>
      rw [if_neg hne]
      split at hfound
      next hsame => rw [if_pos hsame, hsame]
      next hother =>
        rw [if_neg hother, ih hfound, (advance_same db.conf.tsize sp taboffset).2]

/-- Where a search ends there is a vacant place, or the octets it looks for. -/
theorem search_place (hrun : -1 ≤ sp.run ∧ sp.run ≤ (MAXRUN : Int))
    (haborted : sp.aborted = false) :
    db.erecAt (db.search sp).1.place = if (db.search sp).2 then erecOf sp.hash else emptyRec := by
  rw [search, haborted, if_neg (by rintro ⟨⟩)]
  split
  next hfound => exact searchLoop_found hmode hfound
  next hmissed =>
    refine searchLoop_vacant hmode hrun ?_ (by simpa using hmissed)
    rw [needed, searchFuel, Nat.add_mul]
    have := Nat.mul_le_mul_right (MAXRUN + 1) (Nat.sub_le db.etab.file.size sp.tabno)
    simp only [MAXRUN] at this ⊢
    omega

theorem search_fresh (sp : Searcher) (key : HASH) :
    Stops db (start sp key none) 0 (db.search (start sp key none)) :=
  search_stops hmode ⟨rfl, by simp [start], by simp [start, MAXRUN], by simp [start]⟩ rfl rfl

theorem search_fresh_cases (sp : Searcher) (key : HASH) : ∃ n,
    (db.search (start sp key none)).1.place = probe db.conf.tsize key n ∧
      (((db.search (start sp key none)).2 = true ∧ FoundAt db.conf.tsize db.erecAt key n) ∨
        ((db.search (start sp key none)).2 = false ∧ VacantAt db.conf.tsize db.erecAt key n)) := by
  have hstops := search_fresh hmode sp key
  generalize db.search (start sp key none) = found at hstops ⊢
  cases hstops with
  | vacant stop _ hpassed hempty =>
    exact ⟨stop, rfl, .inr ⟨rfl, hempty, fun m hm => (hpassed m (Nat.zero_le m) hm).1,
      fun m hm => (hpassed m (Nat.zero_le m) hm).2⟩⟩
  | found stop _ hpassed hne hfound =>
    refine ⟨stop, rfl, .inl ⟨rfl, hfound, fun m hm => ?_,
      fun m hm => (hpassed m (Nat.zero_le m) hm).2⟩⟩
    rcases Nat.lt_or_eq_of_le hm with hlt | rfl
    · exact (hpassed m (Nat.zero_le m) hlt).1
    · exact hne

theorem search_fresh_iff (sp : Searcher) (key : HASH) :
    (db.search (start sp key none)).2 = true ↔ Finds db.conf.tsize db.erecAt key := by
  obtain ⟨n, -, ⟨hfound, hat⟩ | ⟨hmissed, hvacant⟩⟩ := search_fresh_cases hmode sp key
  · exact iff_of_true hfound (finds_iff.mpr ⟨n, hat⟩)
  · exact iff_of_false (by simp [hmissed]) hvacant.not_finds

end Searching

def idxAt (db : Database) (place : Nat) : Int := db.idxtab.recordAt db.conf.tsize place

/-- What `dbzstore` leaves when one of its two writes fails. A write that fails leaves its file
alone. -/
def unstored (db : Database) (sp : Searcher) (data : Int) (indexed : Bool) : Database :=
  { db with
    srch := { sp with aborted := true }
    prevp := false
    conf := { db.conf with used := db.conf.used + 1 }
    dirty := true
    idxtab :=
      if indexed then db.idxtab.stored db.options.writethrough db.conf.tsize sp.place data
      else db.idxtab }

theorem Sound.unstored (hsound : db.Sound) (sp : Searcher) (data : Int) (indexed : Bool) :
    (db.unstored sp data indexed).Sound where
  idxmode := by
    rw [Database.unstored]
    dsimp only
    split <;> exact hsound.idxmode
  emode := hsound.emode
  idx hkept := by
    have hwritethrough := hkept.resolve_right (by rintro ⟨⟩)
    rw [Database.unstored]
    dsimp only
    split
    · exact HashTable.inFile_stored (hsound.idx (.inl hwritethrough)) hwritethrough
    · exact hsound.idx (.inl hwritethrough)
  erecs hkept := hsound.erecs (.inl (hkept.resolve_right (by rintro ⟨⟩)))
  covered place hplace := by
    have hsize : db.idxtab.file.size ≤ (db.unstored sp data indexed).idxtab.file.size := by
      rw [Database.unstored]
      dsimp only
      split
      · exact HashTable.size_stored
      · exact Nat.le_refl _
    have hincore : (db.unstored sp data indexed).idxtab.incore = db.idxtab.incore := by
      rw [Database.unstored]
      dsimp only
      split <;> rfl
    rw [hincore]
    rcases hsound.covered place hplace with hold | ⟨hmem, hwritethrough, -, hcore⟩
    · exact .inl (Nat.lt_of_lt_of_le hold hsize)
    · exact .inr ⟨hmem, hwritethrough, rfl, hcore⟩
  resumed := by rintro ⟨⟩

/-- The records are the same, and so are the offsets that belong to them. -/
structure Keeps (db db' : Database) : Prop where
  tsize : db'.conf.tsize = db.conf.tsize
  erecs : db'.erecAt = db.erecAt
  idx : ∀ place, db.erecAt place ≠ emptyRec → db'.idxAt place = db.idxAt place

theorem keeps_unstored (sp : Searcher) (data : Int) (indexed : Bool)
    (hplace : db.erecAt sp.place = emptyRec) : db.Keeps (db.unstored sp data indexed) where
  tsize := rfl
  erecs := rfl
  idx place hne := by
    rw [idxAt, unstored]
    dsimp only
    split
    · rw [recordAt_stored, if_neg, idxAt]
      rintro rfl
      exact hne hplace
    · rfl

theorem erecAt_withRecord (db : Database) (sp : Searcher) (data : Int) :
    (db.withRecord sp data).erecAt = update db.erecAt sp.place (erecOf sp.hash) := by
  funext place
  rw [erecAt, withRecord]
  dsimp only
  rw [recordAt_stored, Function.update_apply]
  rfl

theorem idxAt_withRecord (db : Database) (sp : Searcher) (data : Int) :
    (db.withRecord sp data).idxAt = update db.idxAt sp.place data := by
  funext place
  rw [idxAt, withRecord]
  dsimp only
  rw [recordAt_stored, Function.update_apply]
  rfl

end Database

/-- A database while it is open. -/
structure Opened where
  db : Database
  sound : db.Sound

namespace Opened

variable {o : Opened} {key : HASH} {data : Int} {stores indexed : Bool}

def Finds (o : Opened) (key : HASH) : Prop := Dbz.Finds o.db.conf.tsize o.db.erecAt key

def dbzexists (o : Opened) (key : HASH) : Bool × Opened :=
  ((o.db.dbzexists key).2, ⟨(o.db.dbzexists key).1, o.sound.dbzexists key⟩)

def dbzfetch (o : Opened) (key : HASH) : Option Int × Opened :=
  ((o.db.dbzfetch key).2, ⟨(o.db.dbzfetch key).1, o.sound.dbzfetch key⟩)

/-- The search of `dbzstore`, which exploits the previous one if it can. -/
def storing (o : Opened) (key : HASH) : Searcher × Bool :=
    o.db.search (start o.db.srch key o.db.prev)

/-- `dbzstore`, where both writes work, the index alone gets written, or neither does. -/
def dbzstore (o : Opened) (key : HASH) (data : Int) (stores indexed : Bool) :
    StoreResult × Opened :=
  if (o.db.dbzstore key data).2 = .ok ∧ stores = false then
    (.error, ⟨o.db.unstored (o.storing key).1 data indexed, o.sound.unstored _ data indexed⟩)
  else ((o.db.dbzstore key data).2, ⟨(o.db.dbzstore key data).1, o.sound.dbzstore key data⟩)

theorem dbzexists_iff : (o.dbzexists key).1 = true ↔ o.Finds key :=
  Database.search_fresh_iff o.sound.emode o.db.srch key

theorem keeps_dbzexists (o : Opened) (key : HASH) : o.db.Keeps (o.dbzexists key).2.db :=
  ⟨rfl, rfl, fun _ _ => rfl⟩

theorem dbzfetch_eq_some_iff {value : Int} : (o.dbzfetch key).1 = some value ↔
    ∃ n, FoundAt o.db.conf.tsize o.db.erecAt key n ∧
      o.db.idxAt (probe o.db.conf.tsize key n) = value := by
  obtain ⟨n, hplace, ⟨hfound, hat⟩ | ⟨hmissed, hvacant⟩⟩ :=
    Database.search_fresh_cases o.sound.emode o.db.srch key
  · change (o.db.dbzfetch key).2 = some value ↔ _
    rw [o.sound.dbzfetch_eq]
    dsimp only
    rw [if_pos hfound, hplace, Option.some.injEq]
    constructor
    · exact fun hvalue => ⟨n, hat, hvalue⟩
    · rintro ⟨n', hat', hvalue⟩
      rwa [hat'.unique hat] at hvalue
  · change (o.db.dbzfetch key).2 = some value ↔ _
    rw [o.sound.dbzfetch_eq]
    dsimp only
    rw [if_neg (by simp [hmissed])]
    refine iff_of_false (by rintro ⟨⟩) ?_
    rintro ⟨n', hat', -⟩
    exact hvacant.not_finds (finds_iff.mpr ⟨n', hat'⟩)

theorem dbzfetch_eq_none_iff : (o.dbzfetch key).1 = none ↔ ¬o.Finds key := by
  rw [Opened.Finds, finds_iff, ← not_iff_not, not_not, ← ne_eq, ← Option.isSome_iff_ne_none,
    Option.isSome_iff_exists]
  constructor
  · rintro ⟨value, hvalue⟩
    obtain ⟨n, hfound, -⟩ := dbzfetch_eq_some_iff.mp hvalue
    exact ⟨n, hfound⟩
  · rintro ⟨n, hfound⟩
    exact ⟨_, dbzfetch_eq_some_iff.mpr ⟨n, hfound, rfl⟩⟩

theorem keeps_dbzfetch (o : Opened) (key : HASH) : o.db.Keeps (o.dbzfetch key).2.db := by
  change o.db.Keeps (o.db.dbzfetch key).1
  rw [o.sound.dbzfetch_eq]
  dsimp only
  split <;> exact ⟨rfl, rfl, fun _ _ => rfl⟩

theorem Finds.of_keeps {o' : Opened} (hkeeps : o.db.Keeps o'.db) : o'.Finds key ↔ o.Finds key := by
  rw [Opened.Finds, Opened.Finds, hkeeps.tsize, hkeeps.erecs]

theorem dbzfetch_of_keeps {o' : Opened} (hkeeps : o.db.Keeps o'.db) (key : HASH) :
    (o'.dbzfetch key).1 = (o.dbzfetch key).1 := by
  refine Option.ext fun value => ?_
  rw [dbzfetch_eq_some_iff, dbzfetch_eq_some_iff, hkeeps.tsize, hkeeps.erecs]
  refine exists_congr fun n => and_congr_right fun hfound => ?_
  rw [hkeeps.idx _ (hfound.occupied n (Nat.le_refl n))]

theorem hash_start (sp : Searcher) (key : HASH) (osp : Option Searcher) :
    (start sp key osp).hash = key := by
  cases osp with
  | none => rfl
  | some old =>
    rw [start]
    split
    next hhash => exact hhash
    · rfl

theorem storing_place (o : Opened) (key : HASH) :
    o.db.erecAt (o.storing key).1.place = if (o.storing key).2 then erecOf key else emptyRec := by
  obtain ⟨hrun, haborted⟩ := o.sound.start_prev key
  have hplace := Database.search_place o.sound.emode hrun haborted
  rwa [hash_start] at hplace

theorem storing_hash (o : Opened) (key : HASH) : (o.storing key).1.hash = key := by
  obtain ⟨hrun, haborted⟩ := o.sound.start_prev key
  have hfuel : o.db.searchFuel = (o.db.searchFuel - 1) + 1 := by
    simp only [Database.searchFuel, MAXRUN]
    omega
  have hresult :=
    @Database.searchLoop_result o.db (start o.db.srch key o.db.prev) 0 (o.db.searchFuel - 1)
    o.sound.emode hrun
  rw [← hfuel] at hresult
  rw [storing, Database.search, haborted, if_neg (by rintro ⟨⟩), hresult.2.2.1, hash_start]

theorem dbzstore_fst (o : Opened) (key : HASH) (data : Int) (stores indexed : Bool) :
    (o.dbzstore key data stores indexed).1 =
      if (o.db.dbzstore key data).2 = .ok ∧ stores = false then .error
        else (o.db.dbzstore key data).2 := by
  rw [dbzstore]
  split <;> rfl

theorem dbzstore_db (o : Opened) (key : HASH) (data : Int) (stores indexed : Bool) :
    (o.dbzstore key data stores indexed).2.db =
      if (o.db.dbzstore key data).2 = .ok ∧ stores = false then o.db.unstored
        (o.storing key).1 data indexed
      else (o.db.dbzstore key data).1 := by
  rw [dbzstore]
  split <;> rfl

/-- `dbzstore` leaves the records alone, or puts its own in the vacant place where its search has
ended. -/
theorem dbzstore_cases (o : Opened) (key : HASH) (data : Int) (stores indexed : Bool) :
    let result := o.dbzstore key data stores indexed
    (result.1 = .ok ∧ o.db.readonly = false ∧ (o.storing key).2 = false ∧ stores = true ∧
        result.2.db = o.db.withRecord (o.storing key).1 data) ∨
      (result.1 = .exists ∧ o.db.readonly = false ∧ (o.storing key).2 = true ∧
        result.2.db = { o.db with srch := (o.storing key).1 }) ∨
      (result.1 = .error ∧ (o.db.readonly = true ∨ (o.storing key).2 = false ∧ stores = false) ∧
        o.db.Keeps result.2.db ∧ (o.db.prevp = false → result.2.db.prevp = false)) := by
  have hplace := storing_place o key
  have hstore := o.sound.dbzstore_eq key data
  rw [← storing] at hstore
  dsimp only at hstore ⊢
  split at hstore
  next hreadonly =>
    rw [dbzstore_fst, dbzstore_db, hstore, if_neg (by simp), if_neg (by simp)]
    exact .inr (.inr ⟨rfl, .inl hreadonly, ⟨rfl, rfl, fun _ _ => rfl⟩, id⟩)
  next hwritable =>
    have hwritable : o.db.readonly = false := by simpa using hwritable
    split at hstore
    next hfound =>
      rw [dbzstore_fst, dbzstore_db, hstore, if_neg (by simp), if_neg (by simp)]
      exact .inr (.inl ⟨rfl, hwritable, hfound, rfl⟩)
    next hmissed =>
      have hmissed : (o.storing key).2 = false := by simpa using hmissed
      rw [hmissed, if_neg (by rintro ⟨⟩)] at hplace
      rw [dbzstore_fst, dbzstore_db, hstore]
      dsimp only
      cases stores with
      | true =>
        rw [if_neg (by simp), if_neg (by simp)]
        exact .inl ⟨rfl, hwritable, hmissed, rfl, rfl⟩
      | false =>
        rw [if_pos ⟨rfl, rfl⟩, if_pos ⟨rfl, rfl⟩]
        exact .inr (.inr ⟨rfl, .inr ⟨hmissed, rfl⟩, Database.keeps_unstored _ data indexed hplace,
          fun _ => rfl⟩)

/-- A store that works, or finds the hash, leaves its record where the search has ended. -/
theorem erecAt_dbzstore (hwritable : o.db.readonly = false) (key : HASH)
    (hworks : (o.storing key).2 = true ∨ stores = true) (data : Int) (indexed : Bool) :
    let result := o.dbzstore key data stores indexed
    result.1 ≠ .error ∧ result.2.db.readonly = false ∧ result.2.db.conf.tsize = o.db.conf.tsize ∧
      result.2.db.erecAt = update o.db.erecAt (o.storing key).1.place (erecOf key) := by
  have hplace := storing_place o key
  rcases dbzstore_cases o key data stores indexed with ⟨hok, -, hmissed, -, hdb⟩ |
    ⟨hexists, -, hfound, hdb⟩ | ⟨-, hfails, -⟩
  · refine ⟨by rw [hok]; simp, by rw [hdb]; exact hwritable, by rw [hdb]; rfl, ?_⟩
    rw [hdb, Database.erecAt_withRecord, storing_hash]
  · refine ⟨by rw [hexists]; simp, by rw [hdb]; exact hwritable, by rw [hdb], ?_⟩
    rw [if_pos hfound] at hplace
    rw [hdb, ← hplace, Function.update_eq_self]
    rfl
  · exfalso
    rcases hfails with hfails | ⟨hmissed, hfails⟩
    · rw [hwritable] at hfails
      cases hfails
    · rcases hworks with hworks | hworks
      · rw [hmissed] at hworks
        cases hworks
      · rw [hfails] at hworks
        cases hworks

section Fresh

variable {o o' : Opened} {key other : HASH} {data : Int} {n : Nat}

/-- The record of the key has come to its first vacant probe. -/
structure Puts (o o' : Opened) (key : HASH) (data : Int) (n : Nat) : Prop where
  vacant : VacantAt o.db.conf.tsize o.db.erecAt key n
  tsize : o'.db.conf.tsize = o.db.conf.tsize
  erecs : o'.db.erecAt = update o.db.erecAt (probe o.db.conf.tsize key n) (erecOf key)
  idx : o'.db.idxAt = update o.db.idxAt (probe o.db.conf.tsize key n) data

theorem storing_fresh (hprevp : o.db.prevp = false) (key : HASH) :
    o.storing key = o.db.search (start o.db.srch key none) := by
  rw [storing, Database.prev, hprevp, if_neg (by rintro ⟨⟩)]

/-- A store that resumes no search puts its record where a search will find it, or leaves the
records alone. -/
theorem dbzstore_fresh (hprevp : o.db.prevp = false) (key : HASH) (data : Int)
    (stores indexed : Bool) :
    let result := o.dbzstore key data stores indexed
    result.2.db.prevp = false ∧
      ((result.1 = .ok ∧ ∃ n, Puts o result.2 key data n) ∨
        (o.db.Keeps result.2.db ∧ (result.1 ≠ .error → o.Finds key))) := by
  have hstoring := storing_fresh hprevp key
  obtain ⟨n, hplace, hcases⟩ := Database.search_fresh_cases o.sound.emode o.db.srch key
  rw [← hstoring] at hplace hcases
  rcases dbzstore_cases o key data stores indexed with ⟨hok, -, hmissed, -, hdb⟩ |
    ⟨hexists, -, hfound, hdb⟩ | ⟨herror, -, hkeeps, hprevp'⟩
  · rcases hcases with ⟨hfound, -⟩ | ⟨-, hvacant⟩
    · rw [hmissed] at hfound
      cases hfound
    · refine ⟨by rw [hdb]; rfl, .inl ⟨hok, n, hvacant, by rw [hdb]; rfl, ?_, ?_⟩⟩
      · rw [hdb, Database.erecAt_withRecord, hplace, storing_hash]
      · rw [hdb, Database.idxAt_withRecord, hplace]
  · rcases hcases with ⟨-, hat⟩ | ⟨hmissed, -⟩
    · refine ⟨by rw [hdb]; exact hprevp, .inr ⟨?_, fun _ => finds_iff.mpr ⟨n, hat⟩⟩⟩
      rw [hdb]
      exact ⟨rfl, rfl, fun _ _ => rfl⟩
    · rw [hfound] at hmissed
      cases hmissed
  · exact ⟨hprevp' hprevp, .inr ⟨hkeeps, fun hne => absurd herror hne⟩⟩

theorem Puts.finds (hputs : Puts o o' key data n) (hfinds : o.Finds other) : o'.Finds other := by
  rw [Opened.Finds, hputs.tsize, hputs.erecs]
  exact Dbz.Finds.update hfinds hputs.vacant.vacant (erecOf key)

theorem Puts.fetched {value : Int} (hputs : Puts o o' key data n)
    (hfetch : (o.dbzfetch other).1 = some value) :
    (o'.dbzfetch other).1 = some value := by
  obtain ⟨m, hfound, hvalue⟩ := dbzfetch_eq_some_iff.mp hfetch
  refine dbzfetch_eq_some_iff.mpr ⟨m, ?_, ?_⟩
  · rw [hputs.tsize, hputs.erecs]
    exact hfound.update hputs.vacant.vacant (erecOf key)
  · rw [hputs.tsize, hputs.idx,
      update_of_ne (hfound.ne_vacant hputs.vacant.vacant (Nat.le_refl m)), hvalue]

theorem Puts.fetched_new (hputs : Puts o o' key data n) (hkey : erecOf key ≠ emptyRec) :
    (o'.dbzfetch key).1 = some data := by
  refine dbzfetch_eq_some_iff.mpr ⟨n, ?_, ?_⟩
  · rw [hputs.tsize, hputs.erecs]
    exact hputs.vacant.found hkey
  · rw [hputs.tsize, hputs.idx, update_self]

end Fresh

/-- The records are the same, and neither database resumes a search nor is read-only. -/
structure Alike (o o' : Opened) : Prop where
  tsize : o'.db.conf.tsize = o.db.conf.tsize
  erecs : o'.db.erecAt = o.db.erecAt
  writable : o.db.readonly = false ∧ o'.db.readonly = false
  fresh : o.db.prevp = false ∧ o'.db.prevp = false

theorem Alike.finds (halike : Alike o o') : o'.Finds key ↔ o.Finds key := by
  rw [Opened.Finds, Opened.Finds, halike.tsize, halike.erecs]

theorem Alike.dbzexists (halike : Alike o o') (key : HASH) : Alike (o.dbzexists key).2 o' :=
  ⟨halike.tsize, halike.erecs, halike.writable, rfl, halike.fresh.2⟩

theorem Alike.place (halike : Alike o o') (key : HASH) :
    (o'.storing key).1.place = (o.storing key).1.place := by
  rw [storing_fresh halike.fresh.1, storing_fresh halike.fresh.2]
  obtain ⟨n, hplace, hcases⟩ := Database.search_fresh_cases o.sound.emode o.db.srch key
  obtain ⟨n', hplace', hcases'⟩ := Database.search_fresh_cases o'.sound.emode o'.db.srch key
  rw [halike.tsize, halike.erecs] at hcases'
  rw [hplace, hplace', halike.tsize]
  rcases hcases with ⟨-, hfound⟩ | ⟨-, hvacant⟩
  · rcases hcases' with ⟨-, hfound'⟩ | ⟨-, hvacant'⟩
    · rw [hfound.unique hfound']
    · exact absurd (finds_iff.mpr ⟨n, hfound⟩) hvacant'.not_finds
  · rcases hcases' with ⟨-, hfound'⟩ | ⟨-, hvacant'⟩
    · exact absurd (finds_iff.mpr ⟨n', hfound'⟩) hvacant.not_finds
    · rw [hvacant.unique hvacant']

theorem Alike.dbzstore {data' : Int} (halike : Alike o o') (key : HASH) (data : Int) :
    Alike (o.dbzstore key data true true).2 (o'.dbzstore key data' true true).2 := by
  obtain ⟨-, hwritable, htsize, herecs⟩ :=
    erecAt_dbzstore halike.writable.1 key (.inr rfl) data true
  obtain ⟨-, hwritable', htsize', herecs'⟩ :=
    erecAt_dbzstore halike.writable.2 key (.inr rfl) data' true
  refine ⟨?_, ?_, ⟨hwritable, hwritable'⟩, ?_, ?_⟩
  · rw [htsize, htsize', halike.tsize]
  · rw [herecs, herecs', halike.erecs, halike.place]
  · exact (dbzstore_fresh halike.fresh.1 key data true true).1
  · exact (dbzstore_fresh halike.fresh.2 key data' true true).1

theorem sound_dbzinit (conf : Config) (options : Options) : (dbzinit conf options).Sound := by
  have hopen : (Files.created conf).dbzinit options false = some (dbzinit conf options) := by
    rw [Files.dbzinit]
    simp only [RecordFile.mappable, Bool.not_false, Bool.or_true, Bool.true_or,
      Bool.and_self, if_true]
    rfl
  exact Files.dbzinit_sound (fun place hplace => absurd rfl hplace) hopen

/-- A database that has just been made. -/
def fresh (conf : Config) (options : Options) : Opened :=
    ⟨dbzinit conf options, sound_dbzinit conf options⟩

theorem erecAt_fresh (conf : Config) (options : Options) (place : Nat) :
    (fresh conf options).db.erecAt place = emptyRec :=
  HashTable.recordAt_openhashtable options.existsIncore

end Opened

end Inn.Dbz
