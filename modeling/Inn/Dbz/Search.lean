import Inn.Foundation.Probing
import Inn.Dbz.Model

/-!
# What a search visits

A search that starts afresh, or resumes inside the first table, visits the
places of one fixed probe sequence in order and stops at the first one that is
vacant or holds its key. `search` counts the table offset from zero whenever it
is entered, so only such a search keeps to the sequence.
-/

namespace Inn.Dbz

open Foundation.Probing

namespace HashTable

variable {ρ : Type} {zero : ρ} {tab : HashTable zero} {tsize place : Nat}

def recordAt (tab : HashTable zero) (tsize place : Nat) : ρ :=
  (tab.get tab.incore tsize place).getD zero

def Readable (tab : HashTable zero) (tsize place : Nat) : Prop :=
  (tab.incore ≠ .no ∧ place < tsize) ∨ place < tab.file.size

theorem recordAt_eq : tab.recordAt tsize place =
    if tab.incore = .mem ∧ place < tsize then tab.core place else tab.file.record place := by
  have hfile : (tab.file.pread place).getD zero = tab.file.record place := by
    unfold RecordFile.pread
    split
    · rfl
    next hsize => exact (tab.file.unwritten place (Nat.le_of_not_lt hsize)).symm
  by_cases hplace : place < tsize
  · cases hmode : tab.incore <;> simp [recordAt, get, hmode, hplace, coreRecord, hfile]
  · simp [recordAt, get, hplace, hfile]

theorem get_eq_some_iff {value : ρ} : tab.get tab.incore tsize place = some value ↔
    tab.Readable tsize place ∧ tab.recordAt tsize place = value := by
  unfold recordAt Readable get RecordFile.pread
  grind

theorem recordAt_openhashtable (incore : IncoreVal) :
    (openhashtable (RecordFile.empty zero) tsize incore).recordAt tsize place = zero := by
  rw [recordAt_eq]
  cases incore <;> simp [openhashtable, getcore, RecordFile.empty, RecordFile.extend,
    RecordFile.pread]

theorem incore_openhashtable (file : RecordFile zero) (incore : IncoreVal) :
    (openhashtable file tsize incore).incore = incore := by
  cases incore <;> rfl

structure Wrote (tab tab' : HashTable zero) (tsize place : Nat) (value : ρ) : Prop where
  incore : tab'.incore = tab.incore
  recordAt : ∀ other, tab'.recordAt tsize other =
    if other = place then value else tab.recordAt tsize other
  readable : ∀ other, other = place ∨ tab.Readable tsize other → tab'.Readable tsize other

theorem wrote_pwrite (value : ρ) (hfile : tab.incore = .mem → tsize ≤ place) :
    Wrote tab { tab with file := tab.file.pwrite place value } tsize place value where
  incore := rfl
  recordAt other := by
    simp only [recordAt_eq, RecordFile.pwrite, Function.update_apply]
    split
    next hcore =>
      have hne : other ≠ place := fun heq => by
        have := hfile hcore.1
        omega
      rw [if_neg hne]
    next => rfl
  readable other hother := by
    rcases hother with rfl | hcore | hsize
    · exact Or.inr (Nat.lt_of_lt_of_le (Nat.lt_succ_self _) (Nat.le_max_right _ _))
    · exact Or.inl hcore
    · exact Or.inr (Nat.lt_of_lt_of_le hsize (Nat.le_max_left _ _))

theorem wrote_core (value : ρ) (hmode : tab.incore = .mem) (hplace : place < tsize)
    {file : RecordFile zero} (hfile : file = tab.file ∨ file = tab.file.pwrite place value) :
    Wrote tab { tab with core := Function.update tab.core place value, file := file }
      tsize place value where
  incore := rfl
  recordAt other := by
    by_cases hother : other < tsize
    · simp [recordAt_eq, hmode, hother, Function.update_apply]
    · have hne : other ≠ place := by omega
      rcases hfile with rfl | rfl
      · simp [recordAt_eq, hother, hne]
      · simp [recordAt_eq, hother, hne, RecordFile.pwrite]
  readable other hother := by
    have hgrown : tab.file.size ≤ file.size := by
      rcases hfile with rfl | rfl
      · exact Nat.le_refl _
      · exact Nat.le_max_left _ _
    rcases hother with rfl | hcore | hsize
    · exact Or.inl ⟨by simp [hmode], hplace⟩
    · exact Or.inl hcore
    · exact Or.inr (Nat.lt_of_lt_of_le hsize hgrown)

end HashTable

namespace Database

theorem exists_set {ρ : Type} {zero : ρ} {db : Database} {sp : Searcher} (tab : HashTable zero)
    (haborted : sp.aborted = false) (value : ρ) :
    ∃ tab', db.set sp tab value = some tab' ∧
      HashTable.Wrote tab tab' db.conf.tsize sp.place value := by
  unfold set
  rw [if_neg (by simp [haborted])]
  split
  next hcore =>
    obtain ⟨hincore, hplace⟩ := hcore
    split
    next hmode => exact ⟨_, rfl, HashTable.wrote_pwrite value (by simp [hmode])⟩
    next hmode =>
      have hmem : tab.incore = .mem := by
        cases h : tab.incore <;> simp_all
      split
      · exact ⟨_, rfl, HashTable.wrote_core value hmem hplace (Or.inr rfl)⟩
      · exact ⟨_, rfl, HashTable.wrote_core value hmem hplace (Or.inl rfl)⟩
  next hcore =>
    refine ⟨_, rfl, HashTable.wrote_pwrite value fun hmem => ?_⟩
    exact Nat.le_of_not_lt fun hplace => hcore ⟨by simp [hmem], hplace⟩

end Database

def probe (tsize : Nat) (key : HASH) (n : Nat) : Nat :=
  (shorthashOf key + n % (MAXRUN + 1)) % tsize + n / (MAXRUN + 1) * tsize

def Searcher.stoppedAt (sp : Searcher) (tsize n : Nat) : Searcher :=
  { sp with
    tabno := n / (MAXRUN + 1)
    run := (n % (MAXRUN + 1) : Nat)
    place := probe tsize sp.hash n }

structure Searcher.Before (sp : Searcher) (n : Nat) : Prop where
  shorthash : sp.shorthash = shorthashOf sp.hash
  run_ge : -1 ≤ sp.run
  run_le : sp.run ≤ (MAXRUN : Int)
  next : (MAXRUN + 1 : Int) * sp.tabno + sp.run + 1 = n

theorem Searcher.Before.stoppedAt {sp : Searcher} {n : Nat} (hbefore : sp.Before n)
    (tsize m : Nat) : (sp.stoppedAt tsize m).Before (m + 1) where
  shorthash := hbefore.shorthash
  run_ge := by simp only [Searcher.stoppedAt]; omega
  run_le := by simp only [Searcher.stoppedAt, MAXRUN]; omega
  next := by simp only [Searcher.stoppedAt, MAXRUN]; omega

namespace Database

variable {db : Database} {sp : Searcher} {key : HASH} {n : Nat}

def erecAt (db : Database) (place : Nat) : Erec := db.etab.recordAt db.conf.tsize place

theorem erecAt_probe_eq_empty (key : HASH) (hn : (MAXRUN + 1) * (db.etab.file.size + 1) ≤ n) :
    db.erecAt (probe db.conf.tsize key n) = emptyRec := by
  have htable : db.etab.file.size + 1 ≤ n / (MAXRUN + 1) := by
    rw [Nat.le_div_iff_mul_le (by decide), Nat.mul_comm]
    exact hn
  have hplace : (db.etab.file.size + 1) * db.conf.tsize ≤ probe db.conf.tsize key n :=
    Nat.le_trans (Nat.mul_le_mul_right _ htable) (Nat.le_add_left _ _)
  have hsize := Nat.le_mul_of_pos_right db.etab.file.size db.conf.tsize_pos
  rw [Nat.succ_mul] at hplace
  rw [erecAt, HashTable.recordAt_eq, if_neg (fun hcore => by omega)]
  exact db.etab.file.unwritten _ (by omega)

theorem searchLoop_succ (hmode : db.etab.incore = db.options.existsIncore)
    (hbefore : sp.Before n) (fuel : Nat) :
    db.searchLoop (fuel + 1) sp (sp.tabno * db.conf.tsize) =
      let sp' := sp.stoppedAt db.conf.tsize n
      let value := db.erecAt (probe db.conf.tsize sp.hash n)
      if value = emptyRec then (sp', false)
      else if value = erecOf sp.hash then (sp', true)
      else db.searchLoop fuel sp' (sp'.tabno * db.conf.tsize) := by
  obtain ⟨hsh, hge, hle, hnext⟩ := hbefore
  simp only [MAXRUN] at hle hnext
  by_cases hshift : sp.run = (MAXRUN : Int)
  · have hdiv : n / (MAXRUN + 1) = sp.tabno + 1 := by simp only [MAXRUN] at hshift ⊢; omega
    have hmod : n % (MAXRUN + 1) = 0 := by simp only [MAXRUN] at hshift ⊢; omega
    simp only [searchLoop, hshift, if_true, Searcher.stoppedAt, probe, hdiv, hmod, hsh, ← hmode]
    rfl
  · have hdiv : n / (MAXRUN + 1) = sp.tabno := by simp only [MAXRUN] at hshift ⊢; omega
    have hmod : n % (MAXRUN + 1) = (sp.run + 1).toNat := by
      simp only [MAXRUN] at hshift ⊢
      omega
    have hcast : ((sp.run + 1).toNat : Int) = sp.run + 1 := Int.toNat_of_nonneg (by omega)
    simp only [searchLoop, hshift, if_false, Searcher.stoppedAt, probe, hdiv, hmod, hcast, hsh,
      ← hmode]
    rfl

inductive Stops (db : Database) (sp : Searcher) (n : Nat) : Searcher × Bool → Prop
  | vacant (stop : Nat) (hle : n ≤ stop)
      (hpassed : ∀ m, n ≤ m → m < stop →
        db.erecAt (probe db.conf.tsize sp.hash m) ≠ emptyRec ∧
        db.erecAt (probe db.conf.tsize sp.hash m) ≠ erecOf sp.hash)
      (hempty : db.erecAt (probe db.conf.tsize sp.hash stop) = emptyRec) :
      Stops db sp n (sp.stoppedAt db.conf.tsize stop, false)
  | found (stop : Nat) (hle : n ≤ stop)
      (hpassed : ∀ m, n ≤ m → m < stop →
        db.erecAt (probe db.conf.tsize sp.hash m) ≠ emptyRec ∧
        db.erecAt (probe db.conf.tsize sp.hash m) ≠ erecOf sp.hash)
      (hne : db.erecAt (probe db.conf.tsize sp.hash stop) ≠ emptyRec)
      (hfound : db.erecAt (probe db.conf.tsize sp.hash stop) = erecOf sp.hash) :
      Stops db sp n (sp.stoppedAt db.conf.tsize stop, true)

theorem Stops.of_succ {result : Searcher × Bool}
    (hne : db.erecAt (probe db.conf.tsize sp.hash n) ≠ emptyRec)
    (hother : db.erecAt (probe db.conf.tsize sp.hash n) ≠ erecOf sp.hash)
    (hstops : Stops db (sp.stoppedAt db.conf.tsize n) (n + 1) result) :
    Stops db sp n result := by
  have hextend {stop : Nat} (hpassed : ∀ m, n + 1 ≤ m → m < stop →
      db.erecAt (probe db.conf.tsize sp.hash m) ≠ emptyRec ∧
      db.erecAt (probe db.conf.tsize sp.hash m) ≠ erecOf sp.hash) :
      ∀ m, n ≤ m → m < stop →
        db.erecAt (probe db.conf.tsize sp.hash m) ≠ emptyRec ∧
        db.erecAt (probe db.conf.tsize sp.hash m) ≠ erecOf sp.hash := by
    intro m hge hlt
    rcases Nat.eq_or_lt_of_le hge with rfl | hgt
    · exact ⟨hne, hother⟩
    · exact hpassed m hgt hlt
  cases hstops with
  | vacant stop hle hpassed hempty =>
    exact .vacant stop (Nat.le_of_succ_le hle) (hextend hpassed) hempty
  | found stop hle hpassed hne' hfound =>
    exact .found stop (Nat.le_of_succ_le hle) (hextend hpassed) hne' hfound

theorem searchLoop_stops (hmode : db.etab.incore = db.options.existsIncore) (fuel : Nat) :
    ∀ {sp : Searcher} {n : Nat}, sp.Before n →
      (∃ m, n ≤ m ∧ m < n + fuel ∧ db.erecAt (probe db.conf.tsize sp.hash m) = emptyRec) →
      Stops db sp n (db.searchLoop fuel sp (sp.tabno * db.conf.tsize)) := by
  induction fuel with
  | zero =>
    rintro sp n _ ⟨m, hge, hlt, _⟩
    omega
  | succ fuel ih =>
    rintro sp n hbefore ⟨m, hge, hlt, hempty⟩
    rw [searchLoop_succ hmode hbefore]
    dsimp only
    have hnone : ∀ m, n ≤ m → m < n →
        db.erecAt (probe db.conf.tsize sp.hash m) ≠ emptyRec ∧
        db.erecAt (probe db.conf.tsize sp.hash m) ≠ erecOf sp.hash := by
      intro m hge hlt
      omega
    split
    next hvacant => exact .vacant n (Nat.le_refl n) hnone hvacant
    next hne =>
      split
      next hfound => exact .found n (Nat.le_refl n) hnone hne hfound
      next hother =>
        refine .of_succ hne hother (ih (hbefore.stoppedAt _ n) ⟨m, ?_, by omega, hempty⟩)
        rcases Nat.eq_or_lt_of_le hge with rfl | hgt
        · exact absurd hempty hne
        · exact hgt

theorem search_stops (hmode : db.etab.incore = db.options.existsIncore)
    (hbefore : sp.Before n) (haborted : sp.aborted = false) (htabno : sp.tabno = 0) :
    Stops db sp n (db.search sp) := by
  have hn : n ≤ MAXRUN + 1 := by
    have := hbefore.next
    have := hbefore.run_le
    simp only [MAXRUN] at *
    omega
  have hloop := searchLoop_stops hmode db.searchFuel hbefore
    ⟨(MAXRUN + 1) * (db.etab.file.size + 1), by simp only [MAXRUN] at *; omega,
      by simp only [searchFuel, MAXRUN] at *; omega, erecAt_probe_eq_empty _ (Nat.le_refl _)⟩
  rw [htabno, Nat.zero_mul] at hloop
  rwa [search, haborted, if_neg (by decide)]

end Database

end Inn.Dbz
