import Inn.Tradindexed.Contents
import Inn.Tradindexed.Expire

/-!
# What expiry leaves

Expiry copies what a search delivers to new files. That is what the valid
records say as long as no damaged record stops the search in front of them or
is taken for one that is valid.
-/

namespace Inn.Tradindexed

open Function (update update_self update_of_ne)
open Foundation.Files

namespace Files

def indexAt (files : Files) (suffix : Suffix) : List IndexEntry :=
    ((files.names suffix).map files.index).getD []

def dataAt (files : Files) (suffix : Suffix) : Octets :=
    ((files.names suffix).map files.data).getD []

def articles (files : Files) (base : Nat) : List Article :=
    articlesFrom (files.dataAt .DAT) base (files.indexAt .IDX) 0

structure Extends (files files' : Files) : Prop where
  names : ∀ suffix, ∀ file ∈ files.names suffix, file ∈ files'.names suffix
  indexAt : ∀ suffix, files'.indexAt suffix = files.indexAt suffix
  dataAt : ∀ suffix, files'.dataAt suffix = files.dataAt suffix

variable {files files' : Files}

theorem Extends.refl (files : Files) : Extends files files :=
    ⟨fun _ _ hfile => hfile, fun _ => rfl, fun _ => rfl⟩

theorem Extends.trans {files'' : Files} (hfirst : Extends files files')
    (hsecond : Extends files' files'') :
    Extends files files'' where
  names suffix file hfile := hsecond.names suffix file (hfirst.names suffix file hfile)
  indexAt suffix := (hsecond.indexAt suffix).trans (hfirst.indexAt suffix)
  dataAt suffix := (hsecond.dataAt suffix).trans (hfirst.dataAt suffix)

theorem extends_create {suffix : Suffix} (hnone : files.names suffix = none) :
    Extends files (files.create suffix) := by
  have hother : ∀ other ≠ suffix, (files.create suffix).names other = files.names other :=
    fun other hne =>
    update_of_ne hne ..
  have hself : (files.create suffix).names suffix = some files.inode := update_self ..
  refine ⟨fun other file hfile => ?_, fun other => ?_, fun other => ?_⟩
  · rcases eq_or_ne other suffix with rfl | hne
    · rw [hnone] at hfile
      cases hfile
    · rwa [hother other hne]
  · rcases eq_or_ne other suffix with rfl | hne
    · rw [Files.indexAt, Files.indexAt, hself, hnone]
      exact update_self ..
    · rw [Files.indexAt, Files.indexAt, hother other hne]
      cases hfile : files.names other with
      | none => rfl
      | some file => exact update_of_ne (Nat.ne_of_lt (files.named other file hfile)) ..
  · rcases eq_or_ne other suffix with rfl | hne
    · rw [Files.dataAt, Files.dataAt, hself, hnone]
      exact update_self ..
    · rw [Files.dataAt, Files.dataAt, hother other hne]
      cases hfile : files.names other with
      | none => rfl
      | some file => exact update_of_ne (Nat.ne_of_lt (files.named other file hfile)) ..

theorem fileOpen_writable (files : Files) (suffix : Suffix) :
    ∃ file files', files.fileOpen suffix true = (some file, files') ∧ Extends files files' ∧
      files'.names suffix = some file := by
  rw [fileOpen]
  cases hfile : files.names suffix with
  | some file => exact ⟨file, files, rfl, .refl files, hfile⟩
  | none => exact ⟨files.inode, files.create suffix, rfl, extends_create hfile, update_self ..⟩

theorem indexAt_of_names {suffix : Suffix} {file : Nat} (hfile : files.names suffix = some file) :
    files.indexAt suffix = files.index file := by
  rw [indexAt, hfile]
  rfl

theorem dataAt_of_names {suffix : Suffix} {file : Nat} (hfile : files.names suffix = some file) :
    files.dataAt suffix = files.data file := by
  rw [dataAt, hfile]
  rfl

end Files

structure Opened (files : Files) (data : GroupData) : Prop where
  idx : files.names .IDX = some data.indexfd
  dat : files.names .DAT = some data.datafd
  noIndex : data.index = none
  noData : data.data = none
  indexpos : data.indexpos = 0
  datapos : data.datapos = 0
  writable : data.writable = true
  inode : data.indexinode = data.indexfd

theorem Opened.mapped {files files' : Files} {data : GroupData} (hopened : Opened files data) :
    Mapped files' data where
  records map hmap := by
    rw [hopened.noIndex] at hmap
    cases hmap
  octets map hmap := by
    rw [hopened.noData] at hmap
    cases hmap
  indexpos _ := .inr hopened.indexpos
  datapos _ := .inr hopened.datapos

theorem Opened.placed {files : Files} {data : GroupData} (hopened : Opened files data)
    (high base : Nat) :
    Opened files { data with high := high, base := base } :=
  { hopened with }

theorem fileOpenIndex_eq {files files' : Files} (data : GroupData) {suffix : Suffix} {file : Nat}
    (hopen : files.fileOpen suffix data.writable = (some file, files')) :
    data.fileOpenIndex files suffix =
      some (files', { data with indexfd := file, indexpos := 0, indexinode := file }) := by
  rw [GroupData.fileOpenIndex, hopen]

theorem fileOpenData_eq {files files' : Files} (data : GroupData) {suffix : Suffix} {file : Nat}
    (hopen : files.fileOpen suffix data.writable = (some file, files')) :
    data.fileOpenData files suffix = some (files', { data with datafd := file, datapos := 0 }) := by
  rw [GroupData.fileOpenData, hopen]

theorem openFiles_writable (files : Files) {data : GroupData} (hwritable : data.writable = true) :
    ∃ files' data', data.openFiles files = some (files', data') ∧ files.Extends files' ∧
      Opened files' data' ∧
      data'.mmap = data.mmap := by
  obtain ⟨index, files₁, hopen₁, hextends₁, hname₁⟩ := files.fileOpen_writable .IDX
  obtain ⟨octets, files₂, hopen₂, hextends₂, hname₂⟩ := files₁.fileOpen_writable .DAT
  rw [← hwritable] at hopen₁ hopen₂
  rw [GroupData.openFiles, fileOpenIndex_eq data.unmapIndex.unmapData hopen₁]
  dsimp only
  rw [fileOpenData_eq
    { data.unmapIndex.unmapData with indexfd := index, indexpos := 0, indexinode := index } hopen₂]
  exact ⟨_, _, rfl, hextends₁.trans hextends₂,
    ⟨hextends₂.names .IDX index hname₁, hname₂, rfl, rfl, rfl, rfl, hwritable, rfl⟩, rfl⟩

theorem tdxDataOpen_writable (files : Files) (entry : GroupEntry) (mmap : Bool) :
    ∃ files' data, tdxDataOpen files entry true mmap = some (files', data) ∧ files.Extends files' ∧
      Opened files' data ∧ data.high = entry.high ∧ data.base = entry.base ∧ data.mmap = mmap := by
  obtain ⟨files₁, data₁, hopen₁, hextends₁, hopened₁, hmmap₁⟩ :=
    openFiles_writable files (show (GroupData.new true mmap).writable = true from rfl)
  rw [tdxDataOpen, hopen₁]
  dsimp only
  split
  · obtain ⟨files₂, data₂, hopen₂, hextends₂, hopened₂, hmmap₂⟩ :=
      openFiles_writable files₁ hopened₁.writable
    rw [hopen₂]
    exact ⟨_, _, rfl, hextends₁.trans hextends₂, hopened₂.placed _ _, rfl, rfl, hmmap₂.trans hmmap₁⟩
  · exact ⟨_, _, rfl, hextends₁, hopened₁.placed _ _, rfl, rfl, hmmap₁⟩

section Copying

variable {article : Article}

/-- The new files hold just the articles copied so far. -/
structure Copied (high : Nat) (rebuild : Rebuild) (articles : List Article) : Prop where
  writable : rebuild.newData.writable = true
  idx : rebuild.files.names .IDX_NEW = some rebuild.newData.indexfd
  dat : rebuild.files.names .DAT_NEW = some rebuild.newData.datafd
  whole : Whole (rebuild.files.data rebuild.newData.datafd)
    (rebuild.files.index rebuild.newData.indexfd)
  contents : articlesFrom (rebuild.files.data rebuild.newData.datafd) rebuild.newData.base
    (rebuild.files.index rebuild.newData.indexfd) 0 = articles
  first : articles = [] → rebuild.files.index rebuild.newData.indexfd = []
  above : articles ≠ [] → rebuild.newData.base ≠ 0 ∧
    ∀ number, (∀ article ∈ articles, article.number < number) →
    rebuild.newData.base + (rebuild.files.index rebuild.newData.indexfd).length ≤ number
  base : rebuild.newData.base = (articles.head?.map fun article => indexBase article.number).getD 0
  entryBase : rebuild.index.base = rebuild.newData.base
  low : rebuild.index.low = (articles.head?.map Article.number).getD 0
  count : rebuild.index.count = articles.length
  high : rebuild.index.high = (articles.map Article.number).foldl max high
  positive : ∀ article ∈ articles, article.number ≠ 0

theorem Copied.store {high : Nat} {rebuild : Rebuild} {articles : List Article}
    (hcopied : Copied high rebuild articles)
    (hoverview : article.overview ≠ []) (habove : ∀ other ∈ articles, other.number < article.number)
    {files : Files} {newData : GroupData}
    (hstore : tdxDataStore rebuild.files rebuild.newData article = (true, files, newData)) :
    Copied high
      ⟨files, newData,
        { rebuild.index with
          base := if rebuild.index.base = 0 then newData.base else rebuild.index.base
          low := if rebuild.index.base = 0 then article.number else rebuild.index.low
          high := max rebuild.index.high article.number
          count := rebuild.index.count + 1 }⟩ (articles ++ [article]) := by
  rw [tdxDataStore_eq hcopied.writable] at hstore
  dsimp only at hstore
  generalize hbase :
    (if rebuild.newData.base = 0 then indexBase article.number else rebuild.newData.base) =
    base at hstore
  split at hstore
  · cases hstore
  next hle =>
    obtain ⟨-, rfl, rfl⟩ := hstore
    have hbefore :
        base + (rebuild.files.index rebuild.newData.indexfd).length ≤ article.number ∧ base ≠ 0 ∧
        base = (((articles ++ [article]).head?).map fun article =>
          indexBase article.number).getD 0 ∧
        (if rebuild.index.base = 0 then base else rebuild.index.base) = base ∧
        (if rebuild.index.base = 0 then article.number else rebuild.index.low) =
          ((articles ++ [article]).head?.map Article.number).getD 0 ∧
        articlesFrom (rebuild.files.data rebuild.newData.datafd) base
          (rebuild.files.index rebuild.newData.indexfd) 0 = articles := by
      rw [hcopied.entryBase, hcopied.low]
      cases harticles : articles with
      | nil =>
        have hzero : rebuild.newData.base = 0 := by rw [hcopied.base, harticles]; rfl
        rw [if_pos hzero] at hbase
        rw [hcopied.first harticles, if_pos hzero, if_pos hzero]
        exact ⟨Nat.le_of_not_lt hle, hbase ▸ indexBase_ne_zero _, hbase.symm, rfl, rfl, rfl⟩
      | cons first rest =>
        obtain ⟨hne, hbound⟩ := hcopied.above (by rw [harticles]; exact List.cons_ne_nil _ _)
        rw [if_neg hne] at hbase
        subst hbase
        rw [if_neg hne, if_neg hne, hcopied.contents]
        refine ⟨hbound article.number habove, hne, ?_, rfl, rfl, harticles⟩
        rw [hcopied.base, harticles]
        rfl
    obtain ⟨hlength, hne, hfirst, hentry, hlow, hcontents⟩ := hbefore
    obtain ⟨hwhole', hlength', hcontents'⟩ := articlesFrom_store hcopied.whole hoverview hlength
    have hdata :
        (((rebuild.files.xwrite rebuild.newData.datafd article.overview).xpwrite
          rebuild.newData.indexfd
        (article.number - base) [recordOf (rebuild.files.data rebuild.newData.datafd) article]).data
          rebuild.newData.datafd) = rebuild.files.data rebuild.newData.datafd ++ article.overview :=
      update_self ..
    have hindex :
        (((rebuild.files.xwrite rebuild.newData.datafd article.overview).xpwrite
          rebuild.newData.indexfd
        (article.number - base)
          [recordOf (rebuild.files.data rebuild.newData.datafd) article]).index
          rebuild.newData.indexfd) = overwrite .zero (rebuild.files.index rebuild.newData.indexfd)
            (article.number - base)
              [recordOf (rebuild.files.data rebuild.newData.datafd) article] :=
      update_self ..
    refine
      { writable := hcopied.writable
        idx := hcopied.idx
        dat := hcopied.dat
        whole := ?_
        contents := ?_
        first := fun hnil => ?_
        above := fun _ => ⟨hne, fun number hbound => ?_⟩
        base := hfirst
        entryBase := hentry
        low := hlow
        count := ?_
        high := ?_
        positive := fun other hother => ?_ }
    · dsimp only
      rw [hdata, hindex]
      exact hwhole'
    · dsimp only
      rw [hdata, hindex, hcontents', hcontents]
    · exact absurd hnil (by simp)
    · dsimp only
      rw [hindex, hlength']
      exact hbound article (by simp)
    · dsimp only
      rw [hcopied.count, List.length_append, List.length_singleton]
    · dsimp only
      rw [hcopied.high, List.map_append, List.foldl_append]
      rfl
    · rcases List.mem_append.mp hother with hother | hother
      · exact hcopied.positive other hother
      · obtain rfl := List.mem_singleton.mp hother
        omega

theorem raise_high (entry : GroupEntry) (number : Nat) :
    (if number > entry.high then { entry with high := number } else entry) =
      { entry with high := max entry.high number } := by
  split
  next hgt => rw [Nat.max_eq_right (Nat.le_of_lt hgt)]
  next hle => rw [Nat.max_eq_left (Nat.le_of_not_lt hle)]

theorem Copied.expire {high : Nat} {keep : Article → Bool} {rebuild rebuild' : Rebuild}
    {articles : List Article} (hcopied : Copied high rebuild articles) {found : Found}
    (hoverview : found.readable → found.artdata.overview ≠ [])
    (habove : ∀ other ∈ articles, other.number < found.artdata.number)
    (hexpire : rebuild.expire keep found = some rebuild') :
    Copied high rebuild' (articles ++ [found.artdata].filter keep) := by
  rw [Rebuild.expire] at hexpire
  cases hkeep : keep found.artdata with
  | false =>
    rw [hkeep, Bool.not_false, if_pos rfl] at hexpire
    cases hexpire
    rw [List.filter_cons_of_neg (by rw [hkeep]; decide), List.filter_nil, List.append_nil]
    exact hcopied
  | true =>
    rw [hkeep, Bool.not_true, if_neg Bool.false_ne_true] at hexpire
    rw [List.filter_cons_of_pos hkeep, List.filter_nil]
    split at hexpire
    · cases hexpire
    next hreadable =>
      have hreadable : found.readable = true := by simpa using hreadable
      split at hexpire
      · cases hexpire
      next files newData hstore =>
        have hnext := hcopied.store (hoverview hreadable) habove hstore
        cases hexpire
        rw [raise_high]
        by_cases hzero : rebuild.index.base = 0
        · simp only [if_pos hzero] at hnext ⊢
          exact hnext
        · simp only [if_neg hzero] at hnext ⊢
          exact hnext

theorem Copied.foldlM {high : Nat} {keep : Article → Bool} (delivered : List Found)
    {rebuild rebuild' : Rebuild} {articles : List Article} (hcopied : Copied high rebuild articles)
    (hoverview : ∀ found ∈ delivered, found.readable → found.artdata.overview ≠ [])
    (hsorted : delivered.Pairwise fun found other => found.artdata.number < other.artdata.number)
    (habove : ∀ found ∈ delivered, ∀ other ∈ articles, other.number < found.artdata.number)
    (hfold : delivered.foldlM (Rebuild.expire keep) rebuild = some rebuild') :
    Copied high rebuild' (articles ++ (delivered.map Found.artdata).filter keep) := by
  induction delivered generalizing rebuild articles with
  | nil =>
    cases hfold
    rw [List.map_nil, List.filter_nil, List.append_nil]
    exact hcopied
  | cons found rest ih =>
    rw [List.foldlM_cons] at hfold
    obtain ⟨next, hexpire, hrest⟩ := Option.bind_eq_some_iff.mp hfold
    have hfirst := List.mem_cons_self (a := found) (l := rest)
    have hnext := hcopied.expire (hoverview found hfirst) (habove found hfirst) hexpire
    rw [List.pairwise_cons] at hsorted
    have hall :=
      ih hnext (fun other hother => hoverview other (List.mem_cons_of_mem _ hother)) hsorted.2
      (fun other hother article harticle => ?_) hrest
    · rwa [List.append_assoc, ← List.filter_append, List.singleton_append, ← List.map_cons] at hall
    · rcases List.mem_append.mp harticle with harticle | harticle
      · exact habove other (List.mem_cons_of_mem _ hother) article harticle
      · obtain rfl := List.mem_singleton.mp (List.mem_of_mem_filter harticle)
        exact hsorted.1 other hother

end Copying

section Expiring

/-- The counts and marks of the entry are those of the articles. -/
structure Agrees (entry : GroupEntry) (high : Nat) (articles : List Article) : Prop where
  count : entry.count = articles.length
  high : entry.high = (articles.map Article.number).foldl max high
  low : entry.low = (articles.head?.map Article.number).getD (entry.high + 1)
  base : entry.base = (articles.head?.map fun article => indexBase article.number).getD 0

variable {files : Files}

theorem fileOpen_absent {suffix : Suffix} (hnone : files.names suffix = none) :
    files.fileOpen suffix true = (some files.inode, files.create suffix) := by
  rw [Files.fileOpen, hnone]
  rfl

/-- The files with an empty pair of new ones, the old new ones gone. -/
def Files.restarted (files : Files) : Files :=
  (((files.unlink .IDX_NEW).unlink .DAT_NEW).create .IDX_NEW).create .DAT_NEW

theorem tdxDataRebuildStart_made (files : Files) (mmap : Bool) :
    tdxDataRebuildStart files mmap = some (files.restarted, { GroupData.new true mmap with
      indexfd := files.inode, indexpos := 0, indexinode := files.inode, datafd := files.inode + 1,
        datapos := 0 }) := by
  have hidx : ((files.unlink .IDX_NEW).unlink .DAT_NEW).names .IDX_NEW = none := by
    simp [Files.unlink, update]
  have hdat :
      (((files.unlink .IDX_NEW).unlink .DAT_NEW).create .IDX_NEW).names .DAT_NEW = none := by
    simp [Files.unlink, Files.create, update]
  rw [tdxDataRebuildStart, fileOpenIndex_eq (GroupData.new true mmap) (fileOpen_absent hidx)]
  change GroupData.fileOpenData { GroupData.new true mmap with
    indexfd := files.inode, indexpos := 0, indexinode := files.inode } _ _ = _
  rw [fileOpenData_eq _ (fileOpen_absent hdat)]
  rfl

theorem tdxDataRebuildStart_eq (files : Files) (mmap : Bool) :
    ∃ files' newData, tdxDataRebuildStart files mmap = some (files', newData) ∧
      newData.writable = true ∧
      files'.names .IDX_NEW = some newData.indexfd ∧ files'.names .DAT_NEW = some newData.datafd ∧
      newData.base = 0 ∧ files'.index newData.indexfd = [] ∧ files'.data newData.datafd = [] ∧
      ∀ file < files.inode, files'.index file = files.index file ∧
        files'.data file = files.data file := by
  refine ⟨_, _, tdxDataRebuildStart_made files mmap, rfl, ?_, ?_, rfl, ?_, ?_,
    fun file hfile => ⟨?_, ?_⟩⟩
  · simp [Files.restarted, Files.unlink, Files.create, update]
  · simp [Files.restarted, Files.unlink, Files.create, update]
  · simp [Files.restarted, Files.unlink, Files.create, update]
  · simp [Files.restarted, Files.unlink, Files.create, update]
  · simp [Files.restarted, Files.unlink, Files.create, update, Nat.ne_of_lt hfile,
      Nat.ne_of_lt (Nat.lt_succ_of_lt hfile)]
  · simp [Files.restarted, Files.unlink, Files.create, update, Nat.ne_of_lt hfile,
      Nat.ne_of_lt (Nat.lt_succ_of_lt hfile)]

theorem tdxDataRebuildFinish_names (files : Files) :
    (tdxDataRebuildFinish files).names .IDX = files.names .IDX_NEW ∧
      (tdxDataRebuildFinish files).names .DAT = files.names .DAT_NEW := by
  simp [tdxDataRebuildFinish, Files.rename, Files.unlink, update]

def GroupEntry.limit (entry : GroupEntry) : Nat := if entry.high > 0 then entry.high else entry.base

def delivered (files : Files) (memory : Memory) (entry : GroupEntry) : List Found :=
  foundFrom memory (files.dataAt .DAT) entry.base (entry.limit - entry.base)
    (files.dataAt .DAT).length (files.indexAt .IDX) 0

theorem tdxExpire_copies {memory : Memory} {keep : Article → Bool} {mmap : Bool}
    {entry entry' : GroupEntry}
    {files' : Files} (hexpire : tdxExpire files memory keep mmap entry = some (files', entry')) :
    entry.base ≤ entry.limit ∧
      files'.articles entry'.base = ((delivered files memory entry).map Found.artdata).filter keep ∧
      Agrees entry' entry.high
        (((delivered files memory entry).map Found.artdata).filter keep) := by
  obtain ⟨files₁, data, hopen, hextends, hopened, hhigh, hbase, hmmap⟩ :=
    tdxDataOpen_writable files entry mmap
  obtain ⟨files₂, newData, hstart, hwritable, hidx, hdat, hzero, hnoIndex, hnoData, hsame⟩ :=
    tdxDataRebuildStart_eq files₁ data.mmap
  rw [tdxExpire, hopen] at hexpire
  dsimp only at hexpire
  rw [tdxDataExpireStart, hstart] at hexpire
  dsimp only at hexpire
  generalize hsearch : tdxSearchOpen files₂ data data.base _ _ = opened at hexpire
  obtain ⟨_ | search, data'⟩ := opened
  · cases hexpire
  dsimp only at hexpire
  split at hexpire
  · cases hexpire
  next rebuild hfold =>
    obtain ⟨hle, hbounds, -⟩ := tdxSearchOpen_cases hsearch
    have hmapped : Mapped files₂ data := hopened.mapped
    obtain ⟨hcovered, hbase', hindexfd, hdatafd⟩ :=
      hmapped.search (.inr ⟨hopened.indexpos, hopened.datapos⟩) hsearch
    have hindex : files₂.index data'.indexfd = files.indexAt .IDX := by
      rw [hindexfd, (hsame data.indexfd (files₁.named _ _ hopened.idx)).1,
        ← Files.indexAt_of_names hopened.idx,
        hextends.indexAt]
    have hdata : files₂.data data'.datafd = files.dataAt .DAT := by
      rw [hdatafd, (hsame data.datafd (files₁.named _ _ hopened.dat)).2,
        ← Files.dataAt_of_names hopened.dat,
        hextends.dataAt]
    have hfuel : (files₂.index data'.indexfd).length < data'.indexlen + 1 := by
      cases hmap : data'.index with
      | none =>
        rw [hcovered.noIndex hmap]
        exact Nat.succ_pos _
      | some map =>
        rw [(hcovered.records map hmap).1]
        exact Nat.lt_succ_self _
    have hdelivered : (searchAll files₂ memory (data'.indexlen + 1) data' search).1 =
        delivered files memory entry := by
      rw [hcovered.searchAll_eq memory search hfuel, hindex, hdata, hbounds, hbase',
        hbase, Nat.sub_self]
      rfl
    rw [hdelivered] at hfold
    have hcopied :
        Copied entry.high rebuild
        ([] ++ ((delivered files memory entry).map Found.artdata).filter keep) := by
      refine Copied.foldlM (delivered files memory entry) ?_ ?_ (foundFrom_sorted _ _)
        (fun _ _ _ hmem => ?_) hfold
      · exact
          { writable := hwritable
            idx := hidx
            dat := hdat
            whole := by
              rw [hnoIndex]
              exact nofun
            contents := by
              rw [hnoIndex]
              rfl
            first := fun _ => hnoIndex
            above := fun hne => absurd rfl hne
            base := hzero
            entryBase := hzero.symm
            low := rfl
            count := rfl
            high := rfl
            positive := nofun }
      · intro found hfound hreadable
        obtain ⟨place, record, hrecord, hused, -, hpasses, rfl⟩ := mem_foundFrom.mp hfound
        exact IndexEntry.overview_ne_nil hused (hpasses place le_rfl record hrecord) hreadable
      · cases hmem
    rw [List.nil_append] at hcopied
    obtain ⟨rfl, rfl⟩ := hexpire
    generalize ((delivered files memory entry).map Found.artdata).filter keep = articles at hcopied
    obtain ⟨hidx', hdat'⟩ := tdxDataRebuildFinish_names rebuild.files
    have harticles :
        (tdxDataRebuildFinish rebuild.files).articles rebuild.index.base = articles := by
      rw [Files.articles, Files.indexAt_of_names (hidx'.trans hcopied.idx),
        Files.dataAt_of_names (hdat'.trans hcopied.dat), hcopied.entryBase]
      exact hcopied.contents
    have hrange : entry.base ≤ entry.limit := by
      rw [hbase] at hle
      exact hle
    refine ⟨hrange, ?_⟩
    have hbaseAgrees := hcopied.entryBase.trans hcopied.base
    cases hlist : articles with
    | nil =>
      rw [hlist] at harticles hbaseAgrees hcopied
      have hlow : rebuild.index.low = 0 := hcopied.low
      rw [if_pos hlow]
      exact ⟨harticles, hcopied.count, hcopied.high, rfl, hbaseAgrees⟩
    | cons first rest =>
      rw [hlist] at harticles hbaseAgrees hcopied
      have hlow : rebuild.index.low = first.number := hcopied.low
      have hpositive := hcopied.positive first List.mem_cons_self
      rw [if_neg (by rw [hlow]; exact hpositive)]
      exact ⟨harticles, hcopied.count, hcopied.high, hlow, hbaseAgrees⟩

/-- No article to be kept stands behind a record that ends the search. -/
def Undamaged (files : Files) (memory : Memory) (keep : Article → Bool)
    (entry : GroupEntry) : Prop :=
  let octets := files.dataAt .DAT
  ∀ place, ∀ record ∈ (files.indexAt .IDX)[place]?,
    (record.Valid octets → keep (record.article octets (place + entry.base)) →
      place + entry.base ≤ entry.limit ∧ ∀ before < place, ∀ other ∈ (files.indexAt .IDX)[before]?,
        other.Passes octets.length) ∧
    (record.length ≠ 0 → ¬record.Valid octets → place + entry.base ≤ entry.limit →
      (∀ before ≤ place, ∀ other ∈ (files.indexAt .IDX)[before]?, other.Passes octets.length) →
      ¬keep (record.found memory octets (place + entry.base)).artdata)

theorem mem_delivered {memory : Memory} {entry : GroupEntry} (hrange : entry.base ≤ entry.limit)
    {found : Found} :
    found ∈ delivered files memory entry ↔
      ∃ place record, (files.indexAt .IDX)[place]? = some record ∧ record.length ≠ 0 ∧
        place + entry.base ≤ entry.limit ∧
        (∀ before ≤ place, ∀ other ∈ (files.indexAt .IDX)[before]?,
          other.Passes (files.dataAt .DAT).length) ∧
        found = record.found memory (files.dataAt .DAT) (place + entry.base) := by
  have hbound : ∀ place, place ≤ entry.limit - entry.base ↔ place + entry.base ≤ entry.limit := by
    omega
  rw [delivered, mem_foundFrom]
  simp only [Nat.zero_add, hbound]

theorem mem_articles {base : Nat} {article : Article} :
    article ∈ files.articles base ↔
      ∃ place, ∃ record :
        IndexEntry, (files.indexAt .IDX)[place]? = some record ∧ record.Valid (files.dataAt .DAT) ∧
        article = record.article (files.dataAt .DAT) (place + base) := by
  rw [Files.articles, mem_articlesFrom]
  simp only [Nat.zero_add]

theorem delivered_eq_iff (memory : Memory) (keep : Article → Bool) {entry : GroupEntry}
    (hrange : entry.base ≤ entry.limit) :
    ((delivered files memory entry).map Found.artdata).filter keep =
    (files.articles entry.base).filter keep ↔
      Undamaged files memory keep entry := by
  constructor
  · intro heq place record hrecord
    refine ⟨fun hvalid hkeep => ?_, fun hused hinvalid hle hpasses hkeep => ?_⟩
    · have hmem : record.article (files.dataAt .DAT) (place + entry.base) ∈
          (files.articles entry.base).filter keep :=
        List.mem_filter.mpr ⟨mem_articles.mpr ⟨place, record, hrecord, hvalid, rfl⟩, hkeep⟩
      rw [← heq] at hmem
      obtain ⟨found, hfound, hsame⟩ := List.mem_map.mp (List.mem_of_mem_filter hmem)
      obtain ⟨place', record', -, -, hle, hpasses, rfl⟩ := (mem_delivered hrange).mp hfound
      have hplace : place' + entry.base = place + entry.base := congrArg Article.number hsame
      obtain rfl := Nat.add_right_cancel hplace
      exact ⟨hle, fun before hbefore => hpasses before (Nat.le_of_lt hbefore)⟩
    · have hmem : (record.found memory (files.dataAt .DAT) (place + entry.base)).artdata ∈
          ((delivered files memory entry).map Found.artdata).filter keep :=
        List.mem_filter.mpr ⟨List.mem_map_of_mem
          ((mem_delivered hrange).mpr ⟨place, record, hrecord, hused, hle, hpasses, rfl⟩), hkeep⟩
      rw [heq] at hmem
      obtain ⟨place', record', hrecord', hvalid, hsame⟩ :=
        mem_articles.mp (List.mem_of_mem_filter hmem)
      have hplace : place + entry.base = place' + entry.base := congrArg Article.number hsame
      obtain rfl := Nat.add_right_cancel hplace
      rw [Option.mem_def, hrecord'] at hrecord
      cases hrecord
      exact hinvalid hvalid
  · intro hundamaged
    have hsorted : ((delivered files memory entry).map Found.artdata).Pairwise
        fun article other => article.number < other.number :=
          List.pairwise_map.mpr (foundFrom_sorted _ _)
    refine eq_of_mem_iff Article.number (hsorted.filter _) ((articlesFrom_sorted _ _).filter _)
      fun article => ?_
    rw [List.mem_filter, List.mem_filter, and_congr_left_iff, List.mem_map, mem_articles]
    intro hkeep
    constructor
    · rintro ⟨found, hfound, rfl⟩
      obtain ⟨place, record, hrecord, hused, hle, hpasses, rfl⟩ := (mem_delivered hrange).mp hfound
      by_cases hvalid : record.Valid (files.dataAt .DAT)
      · exact ⟨place, record, hrecord, hvalid, by rw [IndexEntry.found_valid hvalid]⟩
      · exact absurd hkeep ((hundamaged place record hrecord).2 hused hvalid hle hpasses)
    · rintro ⟨place, record, hrecord, hvalid, rfl⟩
      obtain ⟨hle, hpasses⟩ := (hundamaged place record hrecord).1 hvalid hkeep
      have hused : record.length ≠ 0 := by have := hvalid.2.1; omega
      refine ⟨_, (mem_delivered hrange).mpr ⟨place, record, hrecord, hused, hle,
        fun before hbefore other hother => ?_, rfl⟩,
        by rw [IndexEntry.found_valid hvalid]⟩
      rcases Nat.eq_or_lt_of_le hbefore with rfl | hlt
      · rw [hrecord] at hother
        obtain rfl := Option.mem_some_iff.mp hother
        exact .inr hvalid.2.2
      · exact hpasses before hlt other hother

/-- A successful expiry leaves just the articles that have a valid record and are kept, and the
entry agrees with them, exactly if no damaged record hides an article that is kept or is taken for
one. -/
theorem tdx_expire_iff {memory : Memory} {keep : Article → Bool} {mmap : Bool}
    {entry entry' : GroupEntry}
    {files' : Files} (hexpire : tdxExpire files memory keep mmap entry = some (files', entry')) :
    (files'.articles entry'.base = (files.articles entry.base).filter keep ∧
      Agrees entry' entry.high ((files.articles entry.base).filter keep)) ↔
        Undamaged files memory keep entry := by
  obtain ⟨hrange, harticles, hagrees⟩ := tdxExpire_copies hexpire
  rw [← delivered_eq_iff memory keep hrange, harticles]
  constructor
  · exact And.left
  · intro heq
    exact ⟨heq, heq ▸ hagrees⟩

def threeNumbers (second : IndexEntry) : Files where
  names suffix := match suffix with
    | .IDX => some 0
    | .DAT => some 1
    | _ => none
  index file := if file = 0 then [⟨0, 2, 7, 0, ⟨List.replicate 18 1, rfl⟩⟩, second,
    ⟨2, 1, 8, 0, ⟨List.replicate 18 3, rfl⟩⟩] else []
  data file := if file = 1 then [65, 66, 67] else []
  inode := 2
  named suffix file hfile := by
    cases suffix with
    | IDX => exact Option.mem_some_iff.mp hfile ▸ Nat.zero_lt_two
    | DAT => exact Option.mem_some_iff.mp hfile ▸ Nat.one_lt_two
    | IDX_NEW => cases hfile
    | DAT_NEW => cases hfile
    | IDX_BAK => cases hfile
  distinct first second file hfirst hsecond := by
    cases first <;> cases second <;> simp_all <;> omega

def threeNumbersEntry : GroupEntry :=
    { GroupEntry.zero with high := 3, low := 1, base := 1, count := 3 }

def butFirst (article : Article) : Bool := article.number ≠ 1

def nowhere : Memory := fun _ _ => none

theorem undamaged_threeNumbers :
    Undamaged (threeNumbers .zero) nowhere butFirst threeNumbersEntry := by
  have hsome : (tdxExpire (threeNumbers .zero) nowhere butFirst true threeNumbersEntry).isSome := by
    decide
  refine (tdx_expire_iff (Option.some_get hsome).symm).mp ⟨by decide, ?_⟩
  exact ⟨by decide, by decide, by decide, by decide⟩

/-- A record beyond the end of the data file takes the articles after it along. -/
theorem tdx_expire_loses :
    ¬∀ (files : Files) (memory : Memory) (keep : Article →
      Bool) (mmap : Bool) (entry entry' : GroupEntry)
      (files' : Files), tdxExpire files memory keep mmap entry = some (files', entry') →
      files'.articles entry'.base = (files.articles entry.base).filter keep := by
  intro hall
  have hsome :
      (tdxExpire (threeNumbers ⟨3, 1, 9, 0, ⟨List.replicate 18 2, rfl⟩⟩) nowhere butFirst true
      threeNumbersEntry).isSome := by decide
  have hsame := hall _ _ _ _ _ _ _ (Option.some_get hsome).symm
  revert hsame
  decide

end Expiring

end Inn.Tradindexed
