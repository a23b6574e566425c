import Inn.Dbz.Search

/-!
# The contents of a dbz database

A database holds the records whose `dbzstore` returned `DBZSTORE_OK`, as an
open-addressed table of whole keys in place of the octets that the files keep.
The keys in use have to differ in those octets. The refinement holds along
every run in which no store resumes a search that had left the first table.
-/

namespace Inn.Dbz

open Foundation.Probing

inductive Call
  | dbzexists (key : HASH)
  | dbzfetch (key : HASH)
  | dbzstore (key : HASH) (data : Int)
deriving DecidableEq

def Call.key : Call → HASH
  | .dbzexists key => key
  | .dbzfetch key => key
  | .dbzstore key _ => key

def Call.isStore : Call → Bool
  | .dbzstore _ _ => true
  | _ => false

inductive Answer
  | exists (found : Bool)
  | fetched (value : Option Int)
  | stored (result : StoreResult)
deriving DecidableEq

namespace Database

def call (db : Database) : Call → Database × Answer
  | .dbzexists key => ((db.dbzexists key).1, .exists (db.dbzexists key).2)
  | .dbzfetch key => ((db.dbzfetch key).1, .fetched (db.dbzfetch key).2)
  | .dbzstore key data => ((db.dbzstore key data).1, .stored (db.dbzstore key data).2)

def run (db : Database) : List Call → Database
  | [] => db
  | call :: rest => (db.call call).1.run rest

def log (db : Database) : List Call → List (Call × Answer)
  | [] => []
  | call :: rest => (call, (db.call call).2) :: (db.call call).1.log rest

end Database

def Stored (log : List (Call × Answer)) (key : HASH) (value : Int) : Prop :=
  (Call.dbzstore key value, Answer.stored .ok) ∈ log

structure DistinctKeys (keys : Set HASH) : Prop where
  nonzero : ∀ key ∈ keys, erecOf key ≠ emptyRec
  injective : ∀ key ∈ keys, ∀ other ∈ keys, erecOf key = erecOf other → key = other

/-- The calls answer as the stores that succeeded say. -/
def Database.AgreesWith (db : Database) (keys : Set HASH) (log : List (Call × Answer)) : Prop :=
  ∀ key ∈ keys,
    (∀ value, (db.dbzfetch key).2 = some value ↔ Stored log key value) ∧
    ((db.dbzexists key).2 = true ↔ ∃ value, Stored log key value)

def Database.ResumesLate (db : Database) (key : HASH) : Prop :=
  db.prevp = true ∧ db.srch.hash = key ∧ db.srch.tabno ≠ 0

instance (db : Database) (key : HASH) : Decidable (db.ResumesLate key) :=
  inferInstanceAs (Decidable (_ ∧ _))

def NeverResumesLate : Database → List Call → Prop
  | _, [] => True
  | db, call :: rest =>
    (call.isStore = true → ¬ db.ResumesLate call.key) ∧
    NeverResumesLate (db.call call).1 rest

instance decidableNeverResumesLate :
    (db : Database) → (calls : List Call) → Decidable (NeverResumesLate db calls)
  | _, [] => inferInstanceAs (Decidable True)
  | db, call :: rest =>
    have := decidableNeverResumesLate (db.call call).1 rest
    inferInstanceAs (Decidable (_ ∧ _))

structure Searcher.StoppedBy (sp : Searcher) (tsize : Nat) (slots : Slots Nat HASH Int)
    (n : Nat) : Prop where
  shorthash : sp.shorthash = shorthashOf sp.hash
  aborted : sp.aborted = false
  tabno : sp.tabno = n / (MAXRUN + 1)
  run : sp.run = (n % (MAXRUN + 1) : Nat)
  place : sp.place = probe tsize sp.hash n
  blocked : Blocked (probe tsize) slots sp.hash n

/-- The entries in use are the slots of an abstract table. -/
structure Represents (db : Database) (keys : Set HASH) (slots : Slots Nat HASH Int) : Prop where
  idxMode : db.idxtab.incore = db.options.pagIncore
  etabMode : db.etab.incore = db.options.existsIncore
  writable : db.readonly = false
  wellProbed : WellProbed (probe db.conf.tsize) slots
  vacant : ∀ place, slots place = none → db.erecAt place = emptyRec
  record : ∀ place key value, slots place = some (key, value) →
    key ∈ keys ∧ db.erecAt place = erecOf key ∧
      db.idxtab.get db.idxtab.incore db.conf.tsize place = some value
  remembered : db.prevp = true →
    db.srch.hash ∈ keys ∧ ∃ n, db.srch.StoppedBy db.conf.tsize slots n

section

variable {db : Database} {keys : Set HASH} {slots : Slots Nat HASH Int} {sp : Searcher}
  {key : HASH} {n : Nat}

theorem Searcher.Before.stoppedBy {tsize stop : Nat} (hbefore : sp.Before n)
    (haborted : sp.aborted = false) (hblocked : Blocked (probe tsize) slots sp.hash stop) :
    (sp.stoppedAt tsize stop).StoppedBy tsize slots stop :=
  ⟨hbefore.shorthash, haborted, rfl, rfl, rfl, hblocked⟩

structure Searcher.ReadyAt (sp : Searcher) (tsize : Nat) (slots : Slots Nat HASH Int)
    (key : HASH) (n : Nat) : Prop where
  hash : sp.hash = key
  before : sp.Before n
  aborted : sp.aborted = false
  tabno : sp.tabno = 0
  blocked : Blocked (probe tsize) slots key n

theorem start_fresh_readyAt (tsize : Nat) (slots : Slots Nat HASH Int) (sp : Searcher)
    (key : HASH) : (start sp key none).ReadyAt tsize slots key 0 where
  hash := rfl
  before := ⟨rfl, by simp [start], by simp [start, MAXRUN], by simp [start]⟩
  aborted := rfl
  tabno := rfl
  blocked := fun _ hm => absurd hm (Nat.not_lt_zero _)

section Representing

variable (hrep : Represents db keys slots)

include hrep

theorem Represents.exists_readyAt (hlate : ¬ db.ResumesLate key) :
    ∃ n, (start db.srch key db.prev).ReadyAt db.conf.tsize slots key n := by
  by_cases hresume : db.prevp = true ∧ db.srch.hash = key
  · obtain ⟨hprevp, hhash⟩ := hresume
    have htabno : db.srch.tabno = 0 := by
      by_contra hne
      exact hlate ⟨hprevp, hhash, hne⟩
    obtain ⟨_, n, hstopped⟩ := hrep.remembered hprevp
    have hstart : start db.srch key db.prev = { db.srch with run := db.srch.run - 1 } := by
      simp [start, Database.prev, hprevp, hhash]
    have hnext := hstopped.tabno
    have hrun := hstopped.run
    rw [htabno] at hnext
    rw [hstart]
    refine ⟨n, hhash, ⟨hstopped.shorthash, ?_, ?_, ?_⟩, hstopped.aborted, htabno,
      hhash ▸ hstopped.blocked⟩
    all_goals
      simp only [MAXRUN, htabno] at hnext hrun ⊢
      omega
  · have hstart : start db.srch key db.prev = start db.srch key none := by
      by_cases hprevp : db.prevp = true
      · have hne : db.srch.hash ≠ key := fun heq => hresume ⟨hprevp, heq⟩
        simp [start, Database.prev, hprevp, hne]
      · simp [start, Database.prev, hprevp]
    rw [hstart]
    exact ⟨0, start_fresh_readyAt _ _ _ _⟩

theorem Represents.search (hkeys : DistinctKeys keys)
    (hkey : key ∈ keys) (hready : sp.ReadyAt db.conf.tsize slots key n) :
    ∃ stop, (db.search sp).1.hash = key ∧
      (db.search sp).1.StoppedBy db.conf.tsize slots stop ∧
      (((db.search sp).2 = false ∧ VacantAt (probe db.conf.tsize) slots key stop) ∨
        ((db.search sp).2 = true ∧
          ∃ value, FoundAt (probe db.conf.tsize) slots key value stop)) := by
  obtain ⟨rfl, hbefore, haborted, htabno, hblocked⟩ := hready
  have hoccupied {m : Nat} (hne : db.erecAt (probe db.conf.tsize sp.hash m) ≠ emptyRec) :
      ∃ other value, slots (probe db.conf.tsize sp.hash m) = some (other, value) := by
    cases hslot : slots (probe db.conf.tsize sp.hash m) with
    | none => exact absurd (hrep.vacant _ hslot) hne
    | some record => exact ⟨record.1, record.2, rfl⟩
  have hpass {stop : Nat} (hpassed : ∀ m, n ≤ m → m < stop →
      db.erecAt (probe db.conf.tsize sp.hash m) ≠ emptyRec ∧
      db.erecAt (probe db.conf.tsize sp.hash m) ≠ erecOf sp.hash) :
      Blocked (probe db.conf.tsize) slots sp.hash stop := by
    intro m hm
    rcases Nat.lt_or_ge m n with hlt | hge
    · exact hblocked m hlt
    · obtain ⟨hne, hother⟩ := hpassed m hge hm
      obtain ⟨other, value, hslot⟩ := hoccupied hne
      refine ⟨other, value, hslot, ?_⟩
      rintro rfl
      exact hother (hrep.record _ _ _ hslot).2.1
  have hstops := Database.search_stops hrep.etabMode hbefore haborted htabno
  generalize hresult : db.search sp = result at hstops
  cases hstops with
  | vacant stop hle hpassed hempty =>
    refine ⟨stop, rfl, hbefore.stoppedBy haborted (hpass hpassed),
      Or.inl ⟨rfl, ?_, hpass hpassed⟩⟩
    cases hslot : slots (probe db.conf.tsize sp.hash stop) with
    | none => rfl
    | some record =>
      obtain ⟨hmem, herec, _⟩ := hrep.record _ _ _ hslot
      exact absurd (herec.symm.trans hempty) (hkeys.nonzero _ hmem)
  | found stop hle hpassed hne hfound =>
    refine ⟨stop, rfl, hbefore.stoppedBy haborted (hpass hpassed), Or.inr ⟨rfl, ?_⟩⟩
    obtain ⟨other, value, hslot⟩ := hoccupied hne
    obtain ⟨hmem, herec, _⟩ := hrep.record _ _ _ hslot
    have heq := hkeys.injective _ hmem _ hkey (herec.symm.trans hfound)
    subst heq
    exact ⟨value, hslot, hpass hpassed⟩

theorem Represents.dbzexists_eq (hkeys : DistinctKeys keys) (hkey : key ∈ keys) :
    (db.dbzexists key).2 = true ↔ ∃ value, Holds slots key value := by
  obtain ⟨stop, -, -, hvacant | hfound⟩ :=
    hrep.search hkeys hkey (start_fresh_readyAt _ _ db.srch _)
  · simp only [Database.dbzexists, hvacant.1, Bool.false_eq_true, false_iff]
    rintro ⟨value, hholds⟩
    exact hvacant.2.not_holds hrep.wellProbed hholds
  · simp only [Database.dbzexists, hfound.1, true_iff]
    exact hfound.2.imp fun _ h => h.holds

theorem Represents.dbzfetch_eq (hkeys : DistinctKeys keys) (hkey : key ∈ keys) (value : Int) :
    (db.dbzfetch key).2 = some value ↔ Holds slots key value := by
  obtain ⟨stop, hhash, hstopped, hvacant | ⟨hfound, stored, hstored⟩⟩ :=
    hrep.search hkeys hkey (start_fresh_readyAt _ _ db.srch _)
  · simp only [Database.dbzfetch, hvacant.1, Bool.false_eq_true, if_false, reduceCtorEq, false_iff]
    exact hvacant.2.not_holds hrep.wellProbed
  · have hget := (hrep.record _ _ _ hstored.1).2.2
    have hplace := hstopped.place
    rw [hhash] at hplace
    rw [← hplace, hrep.idxMode] at hget
    simp only [Database.dbzfetch, hfound, if_true, hget, Option.some.injEq]
    rw [hstored.holds_iff hrep.wellProbed]
    exact eq_comm

theorem Represents.dbzexists (key : HASH) :
    Represents (db.dbzexists key).1 keys slots :=
  ⟨hrep.idxMode, hrep.etabMode, hrep.writable, hrep.wellProbed, hrep.vacant, hrep.record,
    fun hprevp => by cases hprevp⟩

theorem Represents.dbzfetch (hkeys : DistinctKeys keys)
    (hkey : key ∈ keys) : Represents (db.dbzfetch key).1 keys slots := by
  have hkeep (sp : Searcher) (prevp : Bool) (hremembered : prevp = true →
      sp.hash ∈ keys ∧ ∃ n, sp.StoppedBy db.conf.tsize slots n) :
      Represents { db with prevp := prevp, srch := sp } keys slots :=
    ⟨hrep.idxMode, hrep.etabMode, hrep.writable, hrep.wellProbed, hrep.vacant, hrep.record,
      hremembered⟩
  obtain ⟨stop, hhash, hstopped, _⟩ :=
    hrep.search hkeys hkey (start_fresh_readyAt _ _ db.srch _)
  unfold Database.dbzfetch
  dsimp only
  split
  · split
    · exact hkeep _ false (by simp)
    · exact hkeep _ false (by simp)
  · exact hkeep _ true fun _ => ⟨by rw [hhash]; exact hkey, stop, hstopped⟩

omit hrep in
theorem Database.dbzstore_of_found (hwritable : db.readonly = false) (data : Int)
    (hfound : (db.search (start db.srch key db.prev)).2 = true) :
    db.dbzstore key data =
      ({ db with srch := (db.search (start db.srch key db.prev)).1 }, .exists) := by
  unfold dbzstore
  rw [if_neg (by simp [hwritable]), if_pos hfound]

omit hrep in
theorem Database.dbzstore_of_vacant (hwritable : db.readonly = false) (data : Int)
    (hvacant : (db.search (start db.srch key db.prev)).2 = false)
    (haborted : (db.search (start db.srch key db.prev)).1.aborted = false) :
    let sp := (db.search (start db.srch key db.prev)).1
    ∃ idxtab etab, db.dbzstore key data =
        ({ db with
          srch := sp, prevp := false, conf := { db.conf with used := db.conf.used + 1 },
          dirty := true, idxtab := idxtab, etab := etab }, .ok) ∧
      HashTable.Wrote db.idxtab idxtab db.conf.tsize sp.place data ∧
      HashTable.Wrote db.etab etab db.conf.tsize sp.place (erecOf sp.hash) := by
  intro sp
  let db' : Database := { db with
    srch := sp, prevp := false, conf := { db.conf with used := db.conf.used + 1 }, dirty := true }
  obtain ⟨idxtab, hidx, hwroteIdx⟩ := @exists_set _ _ db' _ db.idxtab haborted data
  obtain ⟨etab, hetab, hwroteEtab⟩ :=
    @exists_set _ _ { db' with idxtab := idxtab } _ db.etab haborted (erecOf sp.hash)
  refine ⟨idxtab, etab, ?_, hwroteIdx, hwroteEtab⟩
  unfold dbzstore
  rw [if_neg (by simp [hwritable])]
  dsimp only
  rw [if_neg (by simp [hvacant])]
  rw [hidx]
  dsimp only
  rw [hetab]

theorem Represents.dbzstore (hkeys : DistinctKeys keys)
    (hkey : key ∈ keys) (hlate : ¬ db.ResumesLate key) (data : Int) :
    ∃ slots', Represents (db.dbzstore key data).1 keys slots' ∧
      ∀ key' value, Holds slots' key' value ↔
        Holds slots key' value ∨
          ((db.dbzstore key data).2 = .ok ∧ key' = key ∧ value = data) := by
  obtain ⟨n, hready⟩ := hrep.exists_readyAt hlate
  obtain ⟨stop, hhash, hstopped, hvacant | hfound⟩ := hrep.search hkeys hkey hready
  · obtain ⟨hnot, hvacant⟩ := hvacant
    obtain ⟨idxtab, etab, heq, hidx, hetab⟩ :=
      Database.dbzstore_of_vacant hrep.writable data hnot hstopped.aborted
    have hplace := hstopped.place
    rw [hhash] at hplace
    rw [hhash, hplace] at hetab
    rw [hplace] at hidx
    rw [heq]
    refine ⟨Function.update slots (probe db.conf.tsize key stop) (some (key, data)),
      ⟨hidx.incore.trans hrep.idxMode, hetab.incore.trans hrep.etabMode, hrep.writable,
        hrep.wellProbed.store hvacant, ?_, ?_, fun hprevp => by cases hprevp⟩, ?_⟩
    · intro place hslot
      have hne : place ≠ probe db.conf.tsize key stop := by
        rintro rfl
        simp at hslot
      rw [Function.update_of_ne hne] at hslot
      exact (hetab.recordAt place).trans ((if_neg hne).trans (hrep.vacant place hslot))
    · intro place key' value hslot
      by_cases hne : place = probe db.conf.tsize key stop
      · subst hne
        rw [Function.update_self] at hslot
        cases hslot
        refine ⟨hkey, (hetab.recordAt _).trans (if_pos rfl), ?_⟩
        exact HashTable.get_eq_some_iff.mpr
          ⟨hidx.readable _ (Or.inl rfl), (hidx.recordAt _).trans (if_pos rfl)⟩
      · rw [Function.update_of_ne hne] at hslot
        obtain ⟨hmem, herec, hget⟩ := hrep.record place key' value hslot
        obtain ⟨hreadable, hrecord⟩ := HashTable.get_eq_some_iff.mp hget
        refine ⟨hmem, (hetab.recordAt _).trans ((if_neg hne).trans herec), ?_⟩
        exact HashTable.get_eq_some_iff.mpr
          ⟨hidx.readable _ (Or.inr hreadable), (hidx.recordAt _).trans ((if_neg hne).trans hrecord)⟩
    · intro key' value
      simpa using holds_store hvacant.1
  · rw [Database.dbzstore_of_found hrep.writable data hfound.1]
    refine ⟨slots, ⟨hrep.idxMode, hrep.etabMode, hrep.writable, hrep.wellProbed, hrep.vacant,
      hrep.record, fun _ => ⟨by simpa only [hhash] using hkey, stop, hstopped⟩⟩, ?_⟩
    simp

theorem Represents.call (hkeys : DistinctKeys keys) (call : Call) (hkey : call.key ∈ keys)
    (hlate : call.isStore = true → ¬ db.ResumesLate call.key) :
    ∃ slots', Represents (db.call call).1 keys slots' ∧
      ∀ key value, Holds slots' key value ↔
        Holds slots key value ∨ Stored [(call, (db.call call).2)] key value := by
  cases call with
  | dbzexists key => exact ⟨slots, hrep.dbzexists key, by simp [Stored]⟩
  | dbzfetch key => exact ⟨slots, hrep.dbzfetch hkeys hkey, by simp [Stored]⟩
  | dbzstore key data =>
    obtain ⟨slots', hrep', hholds⟩ := hrep.dbzstore hkeys hkey (hlate rfl) data
    refine ⟨slots', hrep', fun key' value => ?_⟩
    rw [hholds, Stored, List.mem_singleton, Database.call, Prod.mk.injEq, Call.dbzstore.injEq,
      Answer.stored.injEq]
    tauto

end Representing

end

theorem Represents.run {keys : Set HASH} (hkeys : DistinctKeys keys) (calls : List Call) :
    ∀ {db : Database} {slots : Slots Nat HASH Int}, Represents db keys slots →
      (∀ call ∈ calls, call.key ∈ keys) → NeverResumesLate db calls →
      ∃ slots', Represents (db.run calls) keys slots' ∧
        ∀ key value, Holds slots' key value ↔
          Holds slots key value ∨ Stored (db.log calls) key value := by
  induction calls with
  | nil =>
    intro db slots hrep _ _
    exact ⟨slots, hrep, by simp [Stored, Database.log]⟩
  | cons call rest ih =>
    intro db slots hrep hmem hnever
    obtain ⟨middle, hmiddle, hfirst⟩ :=
      hrep.call hkeys call (hmem call List.mem_cons_self) hnever.1
    obtain ⟨slots', hrep', hrest⟩ :=
      ih hmiddle (fun other hother => hmem other (List.mem_cons_of_mem _ hother)) hnever.2
    refine ⟨slots', hrep', fun key value => ?_⟩
    rw [hrest, hfirst, or_assoc]
    simp [Stored, Database.log]

theorem represents_dbzinit (conf : Config) (options : Options) (keys : Set HASH) :
    Represents (dbzinit conf options) keys (fun _ => none) where
  idxMode := HashTable.incore_openhashtable _ _
  etabMode := HashTable.incore_openhashtable _ _
  writable := rfl
  wellProbed := wellProbed_empty
  vacant _ _ := HashTable.recordAt_openhashtable _
  record _ _ _ hslot := by cases hslot
  remembered hprevp := by cases hprevp

/-- A database answers as its successful stores tell, whatever the table size
and the in-core modes, as long as no store resumes a search beyond the first
table. -/
theorem agreesWith_of_neverResumesLate (conf : Config) (options : Options) (keys : Set HASH)
    (hkeys : DistinctKeys keys) (calls : List Call) (hmem : ∀ call ∈ calls, call.key ∈ keys)
    (hnever : NeverResumesLate (dbzinit conf options) calls) :
    ((dbzinit conf options).run calls).AgreesWith keys ((dbzinit conf options).log calls) := by
  obtain ⟨slots, hrep, hholds⟩ :=
    (represents_dbzinit conf options keys).run hkeys calls hmem hnever
  have hstored (key : HASH) (value : Int) :
      Holds slots key value ↔ Stored ((dbzinit conf options).log calls) key value := by
    rw [hholds]
    exact or_iff_right not_holds_empty
  intro key hkey
  refine ⟨fun value => (hrep.dbzfetch_eq hkeys hkey value).trans (hstored key value), ?_⟩
  rw [hrep.dbzexists_eq hkeys hkey]
  exact exists_congr fun value => hstored key value

def narrow : Config := ⟨1, Nat.one_pos, 0⟩

def onDisk : Options := ⟨false, .no, .no, true⟩

theorem distinctKeys_fill : DistinctKeys {HASH.fill 1, HASH.fill 2} where
  nonzero := by rintro key (rfl | rfl) <;> decide
  injective := by rintro key (rfl | rfl) other (rfl | rfl) <;> decide

def freshOverflow : List Call :=
  [.dbzfetch (HASH.fill 1), .dbzstore (HASH.fill 1) 10, .dbzstore (HASH.fill 2) 20]

theorem agreesWith_freshOverflow :
    ((dbzinit narrow onDisk).run freshOverflow).AgreesWith {HASH.fill 1, HASH.fill 2}
      ((dbzinit narrow onDisk).log freshOverflow) :=
  agreesWith_of_neverResumesLate narrow onDisk _ distinctKeys_fill freshOverflow
    (by simp [freshOverflow, Call.key]) (by decide)

def overflowing : List Call :=
  [.dbzstore (HASH.fill 1) 10, .dbzfetch (HASH.fill 2), .dbzstore (HASH.fill 2) 20]

/-- The resumed store reports success, but no later search finds its record. -/
theorem not_agreesWith_overflowing :
    ¬ ∀ (conf : Config) (options : Options) (keys : Set HASH) (calls : List Call),
      DistinctKeys keys → (∀ call ∈ calls, call.key ∈ keys) →
      ((dbzinit conf options).run calls).AgreesWith keys ((dbzinit conf options).log calls) := by
  intro hall
  have hagrees := hall narrow onDisk _ overflowing distinctKeys_fill
    (by simp [overflowing, Call.key])
  have hstored : Stored ((dbzinit narrow onDisk).log overflowing) (HASH.fill 2) 20 := by
    unfold Stored
    decide +kernel
  have hfetch : (((dbzinit narrow onDisk).run overflowing).dbzfetch (HASH.fill 2)).2 = none := by
    decide +kernel
  have := ((hagrees (HASH.fill 2) (by simp)).1 20).mpr hstored
  rw [hfetch] at this
  cases this

end Inn.Dbz
