import Inn.Foundation.Caching
import Inn.History.Replace

/-!
# The cache in front of the history

A handle remembers what has been said of a hash: that the history has it, or
that it has not. A hash it has been found to lack gets into dbz by a write. The
cache takes notice of a write that works, but one may fail after dbz has taken
the record, when the history cannot be synchronised.
-/

namespace Inn.History

open Foundation Foundation.Runs

structure hiscache where
  /-- Hash value of the message-id. -/
  Hash : HASH
  /-- Whether this entry is in the dbz file yet. -/
  Found : Bool
  deriving DecidableEq

def hiscacheSize : Nat := 17

structure Table where
  cachesize : Nat
  nonempty : 0 < cachesize
  cache : Fin cachesize → hiscache

structure histstats where
  hitpos : Nat
  hitneg : Nat
  misses : Nat
  dne : Nat
  deriving DecidableEq

def nullhist : histstats := ⟨0, 0, 0, 0⟩

/-- A history file with the cache in front of it. -/
structure history where
  sub : Hisv6
  cache : Option Table
  stats : histstats

inductive HISRESULT
  | HIScachehit
  | HIScachemiss
  | HIScachedne
  deriving DecidableEq

def loc (MessageID : HASH) : Nat := littleEndian (MessageID.hash.drop 12)

def Table.slot (t : Table) (MessageID : HASH) : Fin t.cachesize :=
  ⟨loc MessageID % t.cachesize, Nat.mod_lt _ t.nonempty⟩

def hisCacheadd (h : history) (MessageID : HASH) (Found : Bool) : history :=
  match h.cache with
  | none => h
  | some t => { h with cache := some { t with cache := Function.update t.cache (t.slot MessageID) ⟨MessageID, Found⟩ } }

def hisCachelookup (h : history) (MessageID : HASH) : HISRESULT :=
  match h.cache with
  | none => .HIScachedne
  | some t =>
    if (t.cache (t.slot MessageID)).Hash = MessageID then
      if (t.cache (t.slot MessageID)).Found then .HIScachehit else .HIScachemiss
    else .HIScachedne

def HISopen (sub : Hisv6) : history := ⟨sub, none, nullhist⟩

def HISsetcache (h : history) (size : Nat) : history :=
  { h with
    cache :=
      if hsize : 0 < size / hiscacheSize then
        -- `xcalloc`
        some ⟨size / hiscacheSize, hsize, fun _ => ⟨HashClear, false⟩⟩
      else none
    stats := nullhist }

def HIScheck (h : history) (hash : HASH) : Bool × history :=
  match hisCachelookup h hash with
  | .HIScachehit => (true, { h with stats := { h.stats with hitpos := h.stats.hitpos + 1 } })
  | .HIScachemiss => (false, { h with stats := { h.stats with hitneg := h.stats.hitneg + 1 } })
  | .HIScachedne =>
    let r := (h.sub.check hash).1
    let h := hisCacheadd { h with sub := (h.sub.check hash).2 } hash r
    if r then (r, { h with stats := { h.stats with misses := h.stats.misses + 1 } })
    else (r, { h with stats := { h.stats with dne := h.stats.dne + 1 } })

def noting (h : history) (hash : HASH) (result : Bool × Hisv6) : Bool × history :=
  let h := { h with sub := result.2 }
  (result.1, if result.1 then hisCacheadd h hash true else h)

def HISwrite (h : history) (fields : Fields) (o : Outcome) : Bool × history :=
  noting h fields.hash (h.sub.writeline fields o)

def HISremember (h : history) (hash : HASH) (arrived posted : time_t) (o : Outcome) :
    Bool × history :=
  noting h hash (h.sub.writeline ⟨hash, arrived, posted, 0, none⟩ o)

def HISreplace (h : history) (fields : Fields) (works : Bool) (reached n : Nat) : Bool × history :=
  noting h fields.hash (h.sub.replace fields works reached n)

inductive Call
  | HIScheck (hash : HASH)
  | HISwrite (fields : Fields) (o : Outcome)
  | HISremember (hash : HASH) (arrived posted : time_t) (o : Outcome)
  | HISreplace (fields : Fields) (works : Bool) (reached n : Nat)

def history.step (h : history) : Call → history
  | .HIScheck hash => (HIScheck h hash).2
  | .HISwrite fields o => (HISwrite h fields o).2
  | .HISremember hash arrived posted o => (HISremember h hash arrived posted o).2
  | .HISreplace fields works reached n => (HISreplace h fields works reached n).2

namespace Hisv6

/-- The line is written, and `dbzstore` has the hash or works. -/
def Stores (h : Hisv6) (fields : Fields) (o : Outcome) : Prop :=
  h.dbzowner = true ∧ h.rdwr = true ∧ ¬h.Fails fields o ∧ h.dbz.db.readonly = false ∧
    ((h.dbz.storing fields.hash).2 = true ∨ o.stores = true)

instance (h : Hisv6) (fields : Fields) (o : Outcome) : Decidable (h.Stores fields o) :=
  inferInstanceAs (Decidable (_ ∧ _))

/-- The other hash is found once the place where `dbzstore` ends its search for the hash has its
record. -/
def FindsWith (h : Hisv6) (hash other : HASH) : Prop :=
  Dbz.Finds h.dbz.db.conf.tsize
    (Function.update h.dbz.db.erecAt (h.dbz.storing hash).1.place (Dbz.erecOf hash)) other

def Syncs (h : Hisv6) (fields : Fields) (o : Outcome) : Prop :=
  h.synccount = 0 ∨ h.dirty + 1 < h.synccount ∨
    o.dbzsyncs = true ∧
      (o.syncs = true ∨ (h.incore = true →
        (h.pending ++ (lineText fields ++ [LF])).length ≤ o.reached))

instance (h : Hisv6) (fields : Fields) (o : Outcome) : Decidable (h.Syncs fields o) :=
  inferInstanceAs (Decidable (_ ∨ _ ∨ _ ∧ (_ ∨ _)))

section Answers

variable {h : Hisv6} {fields : Fields} {o : Outcome} {hash other : HASH}

theorem check_fst (h : Hisv6) (hash : HASH) :
    (h.check hash).1 = true ↔ h.dbzowner = true ∧ h.dbz.Finds hash := by
  by_cases howner : h.dbzowner = true
  · rw [check_iff howner]
    exact (and_iff_right howner).symm
  · rw [check, if_pos (by simpa using howner)]
    exact iff_of_false (by simp) fun hboth => howner hboth.1

theorem check_of_keeps {h' : Hisv6} (hkeeps : h.dbz.db.Keeps h'.dbz.db)
    (howner : h'.dbzowner = h.dbzowner)
    (other : HASH) : (h'.check other).1 = (h.check other).1 := by
  rw [Bool.eq_iff_iff, check_fst, check_fst, howner, Dbz.Opened.Finds.of_keeps hkeeps]

theorem finds_with (hfinds : h.dbz.Finds other) (hash : HASH) : h.FindsWith hash other := by
  have hplace := h.dbz.storing_place hash
  rw [FindsWith]
  split at hplace
  · rw [← hplace, Function.update_eq_self]
    exact hfinds
  · exact hfinds.update hplace _

theorem fflush_fst (h : Hisv6) (works : Bool) (reached : Nat) :
    (h.fflush works reached).1 = true ↔ works = true ∨ h.pending = [] := by
  rw [fflush]
  by_cases hpending : h.pending = []
  · simp [hpending]
  · by_cases hworks : works = true <;> simp [hpending, hworks]

theorem sync_fst (howner : h.dbzowner = true) (hdirty : h.dirty ≠ 0) :
    (h.sync o).1 = true ↔ o.dbzsyncs = true ∧ (o.syncs = true ∨ h.pending = []) := by
  obtain ⟨disk, position, pending, heq⟩ := fflush_eq h o.syncs o.reached
  rw [← fflush_fst h o.syncs o.reached, sync]
  dsimp only
  rw [heq, if_pos ⟨hdirty, howner⟩]
  by_cases hdbzsyncs : o.dbzsyncs = true
  · rw [if_pos hdbzsyncs]
    exact (and_iff_right hdbzsyncs).symm
  · rw [if_neg hdbzsyncs]
    exact ⟨by rintro ⟨⟩, fun hboth => absurd hboth.1 hdbzsyncs⟩

theorem sync_dbz (h : Hisv6) (o : Outcome) :
    (h.sync o).2.dbz = h.dbz ∧ (h.sync o).2.dbzowner = h.dbzowner := by
  obtain ⟨disk, position, pending, heq⟩ := fflush_eq h o.syncs o.reached
  rw [sync]
  dsimp only
  rw [heq]
  split
  · split <;> exact ⟨rfl, rfl⟩
  · exact ⟨rfl, rfl⟩

theorem finds_stored (hreadonly : h.dbz.db.readonly = false)
    (hworks : (h.dbz.storing hash).2 = true ∨ o.stores = true) (offset : Nat) (indexed : Bool) :
    (h.dbz.dbzstore hash offset o.stores indexed).1 ≠ .error ∧
      ∀ other, (h.dbz.dbzstore hash offset o.stores indexed).2.Finds other ↔
        h.FindsWith hash other := by
  obtain ⟨hresult, -, htsize, herecs⟩ :=
    Dbz.Opened.erecAt_dbzstore hreadonly hash hworks offset indexed
  refine ⟨hresult, fun other => ?_⟩
  rw [Dbz.Opened.Finds, FindsWith, htsize, herecs]

theorem writedbz_stores (howner : h.dbzowner = true) (hreadonly : h.dbz.db.readonly = false)
    (hworks : (h.dbz.storing hash).2 = true ∨ o.stores = true) (offset : Nat) :
    ((h.writedbz hash offset o).1 = true ↔ h.synccount = 0 ∨ h.dirty + 1 < h.synccount ∨
      o.dbzsyncs = true ∧ (o.syncs = true ∨ h.pending = [])) ∧
    (∀ other, (h.writedbz hash offset o).2.dbz.Finds other ↔ h.FindsWith hash other) ∧
    (h.writedbz hash offset o).2.dbzowner = true := by
  obtain ⟨hresult, hfinds⟩ := finds_stored (o := o) hreadonly hworks offset o.indexed
  rw [writedbz]
  dsimp only
  rw [if_neg hresult]
  split
  next hzero => exact ⟨⟨fun _ => .inl hzero, fun _ => rfl⟩, hfinds, howner⟩
  next hcount =>
    split
    next hdue =>
      let synced := { h with
        dbz := (h.dbz.dbzstore hash offset o.stores o.indexed).2, dirty := h.dirty + 1 }
      obtain ⟨hdbz, howner'⟩ := sync_dbz synced o
      refine ⟨(sync_fst (h := synced) howner (Nat.succ_ne_zero _)).trans ?_, fun other => ?_,
        howner'.trans howner⟩
      · rw [or_iff_right hcount, or_iff_right (Nat.not_lt.mpr hdue)]
      · rw [hdbz]
        exact hfinds other
    next hearly => exact ⟨⟨fun _ => .inr (.inl (Nat.lt_of_not_le hearly)), fun _ => rfl⟩,
      hfinds, howner⟩

theorem writeline_stores (hstores : h.Stores fields o) :
    ((h.writeline fields o).1 = true ↔ h.Syncs fields o) ∧
      ∀ other, ((h.writeline fields o).2.check other).1 = true ↔ h.FindsWith fields.hash other := by
  obtain ⟨howner, hrdwr, hworks, hreadonly, hdbz⟩ := hstores
  have htaken : (lineText fields ++ [LF]).length ≤ o.taken :=
    Nat.le_of_not_lt fun hlt => hworks (.inl hlt)
  have hflushed : ¬((!h.incore) = true ∧ (!o.flushes) = true) := fun hboth =>
    hworks (.inr ⟨by simpa using hboth.1, by simpa using hboth.2⟩)
  rw [writeline, if_neg (by simp [howner]), if_neg (by simp [hrdwr]), formatline_isSome]
  dsimp only
  rw [Nat.min_eq_right htaken, if_neg (not_or.mpr ⟨Nat.lt_irrefl _, hflushed⟩), List.take_length]
  -- the stream holds nothing back that reaches the file
  have hpending (n : Nat) : (h.put (h.pending ++ (lineText fields ++ [LF])) n).pending = [] ↔
      (h.pending ++ (lineText fields ++ [LF])).length ≤ n := List.drop_eq_nil_iff
  obtain ⟨hresult, hfinds, howner'⟩ :=
    writedbz_stores (h := h.put (h.pending ++ (lineText fields ++ [LF]))
    (if h.incore then o.reached else (h.pending ++ (lineText fields ++ [LF])).length))
      (o := o) howner hreadonly
      hdbz h.offset
  refine ⟨hresult.trans ?_, fun other => ?_⟩
  · rw [hpending, Syncs]
    by_cases hincore : h.incore = true
    · rw [if_pos hincore, imp_iff_right hincore]
      rfl
    · rw [if_neg hincore, eq_true (le_refl _), eq_true (fun hin => absurd hin hincore)]
      rfl
  · rw [check_fst]
    exact (and_iff_right howner').trans (hfinds other)

theorem writedbz_fails (offset : Nat)
    (hfails : h.dbz.db.readonly = false → (h.dbz.storing hash).2 = false ∧ o.stores = false) :
    (h.writedbz hash offset o).1 = false ∧ (h.writedbz hash offset o).2.dbzowner = h.dbzowner ∧
      h.dbz.db.Keeps (h.writedbz hash offset o).2.dbz.db := by
  have hnot : (h.dbz.dbzstore hash offset o.stores o.indexed).1 = .error ∧
      h.dbz.db.Keeps (h.dbz.dbzstore hash offset o.stores o.indexed).2.db := by
    rcases h.dbz.dbzstore_cases hash offset o.stores o.indexed with ⟨-, hreadonly, -, hstores, -⟩ |
      ⟨-, hreadonly, hfound, -⟩ | ⟨herror, -, hkeeps, -⟩
    · rw [(hfails hreadonly).2] at hstores
      cases hstores
    · rw [(hfails hreadonly).1] at hfound
      cases hfound
    · exact ⟨herror, hkeeps⟩
  rw [writedbz]
  dsimp only
  rw [if_pos hnot.1]
  exact ⟨rfl, rfl, hnot.2⟩

theorem keeps_refl (db : Dbz.Database) : db.Keeps db := ⟨rfl, rfl, fun _ _ => rfl⟩

theorem writeline_fails (hfails : ¬h.Stores fields o) :
    (h.writeline fields o).1 = false ∧ ∀ other, ((h.writeline fields o).2.check other).1 =
    (h.check other).1 := by
  rw [writeline]
  split
  · exact ⟨rfl, fun _ => rfl⟩
  next howner =>
    split
    · exact ⟨rfl, fun _ => rfl⟩
    next hrdwr =>
      rw [formatline_isSome]
      dsimp only
      split
      · refine ⟨rfl, check_of_keeps ?_ ?_⟩
        · rw [rewind]
          split <;> exact keeps_refl _
        · rw [rewind]
          split <;> rfl
      next hworks =>
        have hworks : ¬h.Fails fields o :=
          fun hfails => hworks (hfails.imp (fun hlt => by omega) (by simp))
        have hdbz : h.dbz.db.readonly = false → (h.dbz.storing fields.hash).2 = false ∧
            o.stores = false := by
          intro hreadonly
          rw [← Bool.not_eq_true, ← Bool.not_eq_true, ← not_or]
          exact fun hdbz => hfails
            ⟨by simpa using howner, by simpa using hrdwr, hworks, hreadonly, hdbz⟩
        obtain ⟨hresult, howner', hkeeps⟩ := writedbz_fails (h := h.put _ _) h.offset hdbz
        exact ⟨hresult, check_of_keeps hkeeps howner'⟩

theorem fetchline_keeps (h : Hisv6) (hash : HASH) (works : Bool) (reached : Nat) :
    h.dbz.db.Keeps (h.fetchline hash works reached).2.dbz.db ∧
      (h.fetchline hash works reached).2.dbzowner = h.dbzowner := by
  obtain ⟨disk, position, pending, heq⟩ := fflush_eq h works reached
  have hflushed : (if h.rdwr && h.incore then h.fflush works reached else (true, h)).2.dbz = h.dbz ∧
      (if h.rdwr && h.incore then h.fflush works reached else (true, h)).2.dbzowner =
        h.dbzowner := by
    split
    · rw [heq]
      exact ⟨rfl, rfl⟩
    · exact ⟨rfl, rfl⟩
  rw [fetchline]
  generalize (if (h.rdwr && h.incore) = true then h.fflush works reached else (true, h)) =
    flushed at hflushed ⊢
  obtain ⟨hdbz, howner⟩ := hflushed
  have hkeeps := Dbz.Opened.keeps_dbzfetch flushed.2.dbz hash
  rw [hdbz] at hkeeps
  split
  · exact ⟨keeps_refl _, rfl⟩
  · dsimp only
    split
    · rw [hdbz]
      exact ⟨keeps_refl _, howner⟩
    · rw [← hdbz] at hkeeps ⊢
      split
      · exact ⟨hkeeps, howner⟩
      · split
        · exact ⟨hkeeps, howner⟩
        · split
          · exact ⟨hkeeps, howner⟩
          · split <;> exact ⟨hkeeps, howner⟩

theorem replace_same (h : Hisv6) (fields : Fields) (works : Bool) (reached n : Nat) :
    (∀ other, ((h.replace fields works reached n).2.check other).1 = (h.check other).1) ∧
      ((h.replace fields works reached n).1 = true → (h.check fields.hash).1 = true) := by
  obtain ⟨hkeeps, howner⟩ := fetchline_keeps h fields.hash works reached
  rw [replace]
  split
  · exact ⟨fun _ => rfl, by rintro ⟨⟩⟩
  · cases hfetch : h.fetchline fields.hash works reached with
    | mk found fetched =>
      rw [hfetch] at hkeeps howner
      cases found with
      | none => exact ⟨check_of_keeps hkeeps howner, by rintro ⟨⟩⟩
      | some found =>
        obtain ⟨buf, offset⟩ := found
        obtain ⟨howned, -, hoffset, -⟩ := fetchline_some hfetch
        have hfound : (h.check fields.hash).1 = true := by
          rw [← check_of_keeps hkeeps howner, check_iff howned]
          by_contra hmissed
          rw [Dbz.Opened.dbzfetch_eq_none_iff.mpr hmissed] at hoffset
          cases hoffset
        rw [formatline_isSome]
        dsimp only
        refine ⟨?_, fun _ => hfound⟩
        rw [List.getLast?_append, List.getLast?_singleton, Option.some_or, if_pos rfl]
        split <;> exact check_of_keeps hkeeps howner

end Answers

end Hisv6

section Truth

variable {h : history} {hash : HASH}

def Table.entries (t : Table) (i : Fin t.cachesize) : HASH × Bool :=
    ((t.cache i).Hash, (t.cache i).Found)

def history.noted (h : history) (hash : HASH) : Option Bool :=
  h.cache.bind fun t => Caching.noted t.slot t.entries hash

/-- What the cache notes is what `check` would answer. -/
def history.Truthful (h : history) : Prop :=
    ∀ t ∈ h.cache, Caching.Truthful t.slot t.entries fun hash => (h.sub.check hash).1

def history.Shares (h : history) (hash other : HASH) : Prop :=
    ∀ t ∈ h.cache, t.slot hash = t.slot other

theorem HIScheck_fst (h : history) (hash : HASH) :
    (HIScheck h hash).1 = (h.noted hash).getD (h.sub.check hash).1 := by
  rw [HIScheck, hisCachelookup, history.noted]
  cases h.cache with
  | none =>
    dsimp only [Option.bind_none]
    split <;> rfl
  | some t =>
    rw [Option.bind_some, Caching.noted]
    by_cases hhash : (t.cache (t.slot hash)).Hash = hash
    · have hentry : (t.entries (t.slot hash)).1 = hash := hhash
      rw [if_pos hentry]
      dsimp only
      rw [if_pos hhash, Option.getD_some, Table.entries]
      cases (t.cache (t.slot hash)).Found <;> rfl
    · have hentry : ¬(t.entries (t.slot hash)).1 = hash := hhash
      rw [if_neg hentry]
      dsimp only
      rw [if_neg hhash, Option.getD_none]
      dsimp only
      split <;> rfl

theorem truthful_iff : h.Truthful ↔ ∀ hash, (HIScheck h hash).1 = (h.sub.check hash).1 := by
  simp only [HIScheck_fst, history.Truthful, history.noted]
  cases h.cache with
  | none => simp
  | some t => simp [Caching.truthful_iff_getD]

theorem truthful_iff_noted :
    h.Truthful ↔ ∀ hash found, h.noted hash = some found → (h.sub.check hash).1 = found := by
  rw [history.Truthful]
  simp only [history.noted]
  cases h.cache with
  | none => simp
  | some t => simp [Caching.Truthful]

theorem entries_cacheadd (t : Table) (hash : HASH) (found : Bool) :
    Table.entries { t with cache := Function.update t.cache (t.slot hash) ⟨hash, found⟩ } =
      Caching.note t.slot t.entries hash found := by
  funext i
  by_cases hi : i = t.slot hash
  · subst hi
    simp only [Table.entries, Caching.note, Function.update_self]
  · simp only [Table.entries, Caching.note, Function.update_of_ne hi]

theorem truthful_cacheadd_iff {found : Bool} : (hisCacheadd h hash found).Truthful ↔
    (h.cache.isSome → (h.sub.check hash).1 = found) ∧
      ∀ other value, ¬h.Shares other hash → h.noted other = some value → (h.sub.check other).1 = value := by
  rw [hisCacheadd, history.Truthful]
  simp only [history.noted, history.Shares]
  cases hcache : h.cache with
  | none => simp [hcache]
  | some t =>
    simp only [Option.mem_some_iff, forall_eq', Option.isSome_some, forall_true_left,
      Option.bind_some]
    exact (entries_cacheadd t hash found) ▸ Caching.truthful_note_iff

theorem history.Truthful.cacheadd (htruthful : h.Truthful) {found : Bool}
    (hfound : (h.sub.check hash).1 = found) :
    (hisCacheadd h hash found).Truthful :=
  truthful_cacheadd_iff.mpr ⟨fun _ => hfound,
    fun other value _ => truthful_iff_noted.mp htruthful other value⟩

theorem history.Truthful.withSub (htruthful : h.Truthful) {sub : Hisv6}
    (hsame : ∀ other, (sub.check other).1 = (h.sub.check other).1) :
    history.Truthful { h with sub := sub } := by
  rw [truthful_iff_noted] at htruthful ⊢
  exact fun other found hnoted => (hsame other).trans (htruthful other found hnoted)

theorem history.Truthful.check (htruthful : h.Truthful) (hash : HASH) :
    (HIScheck h hash).2.Truthful := by
  have hsame : ∀ other, ((h.sub.check hash).2.check other).1 = (h.sub.check other).1 := by
    by_cases howner : (!h.sub.dbzowner) = true
    · have hchecked : (h.sub.check hash).2 = h.sub := by rw [Hisv6.check, if_pos howner]
      rw [hchecked]
      exact fun _ => rfl
    · refine Hisv6.check_of_keeps ?_ ?_
      · rw [Hisv6.check, if_neg howner]
        exact h.sub.dbz.keeps_dbzexists hash
      · rw [Hisv6.check, if_neg howner]
  rw [HIScheck]
  split
  · exact htruthful
  · exact htruthful
  · dsimp only
    split <;> exact (htruthful.withSub hsame).cacheadd (hsame hash)

end Truth

section Runs

variable {h : history} {hash : HASH} {fields : Fields} {o : Outcome}

theorem history.Truthful.noting (htruthful : h.Truthful) {result : Bool × Hisv6}
    (hsame : ∀ other, (result.2.check other).1 = (h.sub.check other).1)
    (hfound : result.1 = true → (h.sub.check hash).1 = true) :
    (noting h hash result).2.Truthful := by
  rw [Inn.History.noting]
  split
  next hresult => exact (htruthful.withSub hsame).cacheadd ((hsame hash).trans (hfound hresult))
  · exact htruthful.withSub hsame

structure history.Noticed (h : history) (fields : Fields) (o : Outcome) : Prop where
  /-- The hash that is noted is one dbz finds then. -/
  whole : h.cache.isSome → h.sub.Syncs fields o → h.sub.FindsWith fields.hash fields.hash
  /-- A hash noted as absent that is found then loses its place to the hash that is written. -/
  absent : ∀ other, h.noted other = some false → h.sub.FindsWith fields.hash other →
    h.sub.Syncs fields o ∧ h.Shares other fields.hash

theorem HISwrite_truthful_iff (htruthful : h.Truthful) :
    (HISwrite h fields o).2.Truthful ↔ (h.sub.Stores fields o → h.Noticed fields o) := by
  by_cases hstores : h.sub.Stores fields o
  · obtain ⟨hresult, hchecks⟩ := Hisv6.writeline_stores hstores
    have hkept {other : HASH} {value : Bool} (hnoted : h.noted other = some value)
        (hapart : value = false → ¬h.sub.FindsWith fields.hash other) :
        ((h.sub.writeline fields o).2.check other).1 = value := by
      have hsaid := truthful_iff_noted.mp htruthful other value hnoted
      cases value with
      | true =>
        exact (hchecks other).mpr
          (Hisv6.finds_with ((Hisv6.check_iff hstores.1 other).mp hsaid) _)
      | false => exact Bool.eq_false_iff.mpr (mt (hchecks other).mp (hapart rfl))
    have hlost {other : HASH} (hsame : h.sub.FindsWith fields.hash other) :
        ((h.sub.writeline fields o).2.check other).1 ≠ false := by
      rw [(hchecks other).mpr hsame]
      rintro ⟨⟩
    rw [imp_iff_right hstores, HISwrite, Inn.History.noting]
    split
    next hsynced =>
      rw [truthful_cacheadd_iff]
      constructor
      · rintro ⟨hwhole, hothers⟩
        refine ⟨fun hcache _ => (hchecks fields.hash).mp (hwhole hcache),
          fun other hnoted hsame => ⟨hresult.mp hsynced, ?_⟩⟩
        by_contra hapart
        exact hlost hsame (hothers other false hapart hnoted)
      · rintro ⟨hwhole, habsent⟩
        refine ⟨fun hcache => (hchecks fields.hash).mpr (hwhole hcache (hresult.mp hsynced)),
          fun other value hapart hnoted => hkept hnoted ?_⟩
        rintro rfl hsame
        exact hapart (habsent other hnoted hsame).2
    next hfailed =>
      rw [truthful_iff_noted]
      constructor
      · intro hothers
        refine ⟨fun _ hsyncs => absurd (hresult.mpr hsyncs) hfailed, fun other hnoted hsame => ?_⟩
        exact absurd (hothers other false hnoted) (hlost hsame)
      · rintro ⟨-, habsent⟩ other value hnoted
        refine hkept hnoted ?_
        rintro rfl hsame
        exact hfailed (hresult.mpr (habsent other hnoted hsame).1)
  · obtain ⟨hresult, hsame⟩ := Hisv6.writeline_fails hstores
    refine iff_of_true (htruthful.noting hsame fun htrue => ?_) fun h => absurd h hstores
    rw [hresult] at htrue
    cases htrue

def history.Harmless (h : history) : Call → Prop
  | .HIScheck _ => True
  | .HISwrite fields o => h.sub.Stores fields o → h.Noticed fields o
  | .HISremember hash arrived posted o =>
    h.sub.Stores ⟨hash, arrived, posted, 0, none⟩ o → h.Noticed ⟨hash, arrived, posted, 0, none⟩ o
  | .HISreplace _ _ _ _ => True

theorem step_truthful_iff (htruthful : h.Truthful) (call : Call) :
    (h.step call).Truthful ↔ h.Harmless call := by
  cases call with
  | HIScheck hash => exact iff_true_intro (htruthful.check hash)
  | HISwrite fields o => exact HISwrite_truthful_iff htruthful
  | HISremember hash arrived posted o => exact HISwrite_truthful_iff htruthful
  | HISreplace fields works reached n =>
    obtain ⟨hsame, hfound⟩ := h.sub.replace_same fields works reached n
    exact iff_true_intro (htruthful.noting hsame hfound)

theorem truthful_opened (sub : Hisv6) (size : Nat) : (HISsetcache (HISopen sub) size).Truthful := by
  intro t ht hash found hnoted
  rw [HISsetcache, Option.mem_def] at ht
  dsimp only at ht
  split at ht
  · cases ht
    rw [Caching.noted] at hnoted
    split at hnoted
    next hhash =>
      cases hnoted
      have hclear : hash = HashClear := hhash.symm
      rw [hclear]
      refine Bool.eq_false_iff.mpr fun hfound => ?_
      exact ((Hisv6.check_fst _ _).mp hfound).2.not_empty (by decide)
    · cases hnoted
  · cases ht

/-- Whatever calls there are and whatever becomes of their writes, a handle with a cache says of
each hash what its method says at every moment if and only if all records that dbz takes or has are
noticed. -/
theorem HIScheck_uncached_iff (sub : Hisv6) (size : Nat) (calls : List Call) :
    (∀ before after, calls = before ++ after → ∀ hash,
      let h := before.foldl history.step (HISsetcache (HISopen sub) size)
      (HIScheck h hash).1 = (h.sub.check hash).1) ↔
    Throughout history.step history.Harmless calls (HISsetcache (HISopen sub) size) := by
  have hstep (h : history) (call : Call) (htruthful : h.Truthful) :
      (h.step call).Truthful ↔ h.Harmless call :=
    step_truthful_iff htruthful call
  rw [← always_iff_throughout hstep calls (truthful_opened sub size)]
  simp only [truthful_iff]

/-- When the history cannot be synchronised after a write, the hash that was not there before is
still said not to be. -/
theorem not_HIScheck_uncached :
    ¬∀ (sub : Hisv6) (size : Nat) (calls : List Call) (hash : HASH),
      let h := calls.foldl history.step (HISsetcache (HISopen sub) size)
      (HIScheck h hash).1 = (h.sub.check hash).1 := by
  intro hall
  have hfails : (HIScheck ([Call.HIScheck (HASH.fill 1),
      .HISwrite (Hisv6.article 1 7) { Hisv6.smooth with dbzsyncs := false }].foldl history.step
      (HISsetcache (HISopen (Hisv6.reopen false 1 [] Hisv6.newdbz)) hiscacheSize)) (HASH.fill 1)).1 = true :=
    (hall _ _ _ _).trans (by decide +kernel)
  revert hfails
  decide +kernel

end Runs

end Inn.History
