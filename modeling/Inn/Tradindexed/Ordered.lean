import Inn.Tradindexed.Add
import Inn.Tradindexed.Contents

/-!
# A group as an ordered map

What the files hold is a map from numbers to articles. A search delivers what it
has in a range, in order, from maps that are older than the files as long as
they cover what is below the high water mark of the handle.
-/

namespace Inn.Tradindexed

open Foundation.Files

abbrev ArticleMap := Nat → Option Article

def ArticleMap.range (live : ArticleMap) (low high : Nat) : List Article :=
    (List.range' low (high + 1 - low)).filterMap live

def usedAt (entries : List IndexEntry) (place : Nat) : Option IndexEntry :=
  entries[place]?.filter fun record => record.length ≠ 0

def liveAt (octets : Octets) (entries : List IndexEntry) (base : Nat) : ArticleMap := fun number =>
  if base ≤ number then (usedAt entries (number - base)).map fun record =>
    record.article octets number else none

theorem usedAt_eq_some_iff {entries : List IndexEntry} {place : Nat} {record : IndexEntry} :
    usedAt entries place = some record ↔ entries[place]? = some record ∧ record.length ≠ 0 := by
  rw [usedAt, Option.filter_eq_some_iff, decide_eq_true_eq]

theorem usedAt_overwrite (file entries : List IndexEntry) (place i : Nat) :
    usedAt (overwrite .zero file place entries) i =
      if place ≤ i ∧ i < place + entries.length then usedAt entries (i - place)
        else usedAt file i :=
  getElem?_overwrite rfl file entries place i

theorem liveAt_eq_some_iff {octets : Octets} {entries : List IndexEntry} {base number : Nat}
    {article : Article} :
    liveAt octets entries base number = some article ↔
      base ≤ number ∧ ∃ record, usedAt entries (number - base) = some record ∧
        record.article octets number = article := by
  rw [liveAt]
  split
  next hle => simp [hle]
  next hlt => simp [hlt]

theorem ArticleMap.mem_range {live : ArticleMap} {low high : Nat} {article : Article} :
    article ∈ live.range low high ↔ ∃ number, low ≤ number ∧ number ≤ high ∧
      live number = some article := by
  rw [ArticleMap.range, List.mem_filterMap]
  constructor
  · rintro ⟨number, hmem, hlive⟩
    rw [List.mem_range'_1] at hmem
    exact ⟨number, hmem.1, by omega, hlive⟩
  · rintro ⟨number, hlow, hhigh, hlive⟩
    exact ⟨number, List.mem_range'_1.mpr ⟨hlow, by omega⟩, hlive⟩

theorem ArticleMap.range_sorted {live : ArticleMap}
    (hnumber : ∀ number article, live number = some article → article.number = number)
    (low high : Nat) :
    (live.range low high).Pairwise fun article other => article.number < other.number := by
  refine List.pairwise_filterMap.mpr (List.Pairwise.imp ?_ List.pairwise_lt_range')
  intro number other hlt article harticle article' harticle'
  rw [hnumber number article harticle, hnumber other article' harticle']
  exact hlt

theorem foundFrom_eq_range {memory : Memory} {octets : Octets} {datalen base low high : Nat}
    {view : List IndexEntry} {live : ArticleMap} (hbase : base ≤ high)
    (hnumber : ∀ number article, live number = some article → article.number = number)
    (hrecord : ∀ place record, usedAt view place = some record → low ≤ place + base →
      place + base ≤ high →
      record.Passes datalen ∧ ∃ article, live (place + base) = some article ∧
        record.found memory octets (place + base) = ⟨article, true⟩)
    (hlive : ∀ number, (live number).isSome → low ≤ number → number ≤ high →
      base ≤ number ∧ (usedAt view (number - base)).isSome) :
    foundFrom memory octets base (high - base) datalen (view.drop (low - base)) (low - base) =
      (live.range low high).map fun article => ⟨article, true⟩ := by
  have hsorted : ((live.range low high).map fun article => (⟨article, true⟩ : Found)).Pairwise
      fun found other => found.artdata.number < other.artdata.number :=
    List.pairwise_map.mpr (ArticleMap.range_sorted hnumber low high)
  refine eq_of_mem_iff (fun found : Found => found.artdata.number) (foundFrom_sorted _ _) hsorted
    fun found => ?_
  rw [mem_foundFrom, List.mem_map]
  constructor
  · rintro ⟨place, record, hentry, hused, hle, -, rfl⟩
    rw [List.getElem?_drop] at hentry
    obtain ⟨-, article, harticle, hfound⟩ := hrecord (low - base + place) record
      (usedAt_eq_some_iff.mpr ⟨hentry, hused⟩) (by omega) (by omega)
    exact ⟨article, ArticleMap.mem_range.mpr ⟨_, by omega, by omega, harticle⟩, hfound.symm⟩
  · rintro ⟨article, harticle, rfl⟩
    obtain ⟨number, hlow, hhigh, hsome⟩ := ArticleMap.mem_range.mp harticle
    obtain ⟨hle, hused⟩ := hlive number (by rw [hsome]; rfl) hlow hhigh
    obtain ⟨record, hrecordAt⟩ := Option.isSome_iff_exists.mp hused
    obtain ⟨hentry, hlength⟩ := usedAt_eq_some_iff.mp hrecordAt
    have hnumber' : number - base + base = number := Nat.sub_add_cancel hle
    obtain ⟨-, article', harticle', hfound⟩ :=
      hrecord (number - base) record hrecordAt (by omega) (by omega)
    rw [hnumber', hsome] at harticle'
    cases harticle'
    refine ⟨number - base - (low - base), record, ?_, hlength, by omega, ?_, ?_⟩
    · rw [List.getElem?_drop, show low - base + (number - base - (low - base)) =
        number - base by omega]
      exact hentry
    · intro before hbefore other hother
      by_cases hunused : other.length = 0
      · exact .inl hunused
      · rw [List.getElem?_drop] at hother
        exact (hrecord (low - base + before) other (usedAt_eq_some_iff.mpr ⟨hother, hunused⟩)
          (by omega) (by omega)).1
    · rw [show low - base + (number - base - (low - base)) + base =
        number - base + base by omega, hfound]

/-- The files hold the articles of `live`. -/
structure Stored (files : Files) (data : GroupData) (live : ArticleMap) : Prop where
  whole : Whole (files.data data.datafd) (files.index data.indexfd)
  holds : live = liveAt (files.data data.datafd) (files.index data.indexfd) data.base
  unused : data.base = 0 → ∀ place, usedAt (files.index data.indexfd) place = none

/-- What is mapped reaches as far as the search goes. -/
structure Coherent (files : Files) (data : GroupData) (live : ArticleMap) : Prop where
  records : ∀ map ∈ data.index, map = .mmap data.indexfd ∧
    ∀ number, (live number).isSome → number ≤ data.high → number - data.base < data.indexlen
  octets : ∀ map ∈ data.data, map = .mmap data.datafd ∧
    ∀ number, data.base ≤ number → number ≤ data.high →
      ∀ record ∈ usedAt (files.index data.indexfd) (number - data.base),
        record.offset + record.length ≤ data.datalen

section Searching

variable {files : Files} {data : GroupData} {live : ArticleMap}

theorem Stored.number (hstored : Stored files data live) {number : Nat} {article : Article}
    (hlive : live number = some article) : article.number = number := by
  rw [hstored.holds] at hlive
  obtain ⟨-, record, -, rfl⟩ := liveAt_eq_some_iff.mp hlive
  rfl

theorem Stored.isSome_iff (hstored : Stored files data live) {number : Nat} :
    (live number).isSome ↔
      data.base ≤ number ∧ (usedAt (files.index data.indexfd) (number - data.base)).isSome := by
  rw [hstored.holds, liveAt]
  split
  next hle => simp [hle]
  next hlt => simp [hlt]

theorem Stored.valid (hstored : Stored files data live) {place : Nat} {record : IndexEntry}
    (hused : usedAt (files.index data.indexfd) place = some record) :
    record.Valid (files.data data.datafd) := by
  obtain ⟨hentry, hlength⟩ := usedAt_eq_some_iff.mp hused
  exact hstored.whole record (List.mem_of_getElem? hentry) hlength

theorem Stored.place_lt {place : Nat} (hused : (usedAt (files.index data.indexfd) place).isSome) :
    place < (files.index data.indexfd).length := by
  obtain ⟨record, hrecord⟩ := Option.isSome_iff_exists.mp hused
  exact (List.getElem?_eq_some_iff.mp (usedAt_eq_some_iff.mp hrecord).1).1

theorem mapIndex_mmap (hmmap : data.mmap = true) (files : Files) :
    data.mapIndex files = (true, { data with
      index := if (files.index data.indexfd).length = 0 then none else some (.mmap data.indexfd)
      indexlen := (files.index data.indexfd).length }) := by
  rw [GroupData.mapIndex, GroupData.mapFile, hmmap]
  by_cases hempty : (files.index data.indexfd).length = 0
  · rw [if_pos hempty, hempty]
    rfl
  · rw [if_neg hempty, if_pos rfl, if_neg hempty]
    rfl

theorem mapData_mmap (hmmap : data.mmap = true) (files : Files) :
    data.mapData files = (!((files.data data.datafd).length = 0 && data.indexlen > 0), { data with
      data := if (files.data data.datafd).length = 0 then none else some (.mmap data.datafd)
      datalen := (files.data data.datafd).length }) := by
  rw [GroupData.mapData, GroupData.mapFile, hmmap]
  by_cases hempty : (files.data data.datafd).length = 0
  · rw [if_pos hempty, hempty]
    rfl
  · rw [if_neg hempty, if_pos rfl, if_neg hempty]
    simp [hempty]

theorem Coherent.mapIndex (hcoherent : Coherent files data live) (hstored : Stored files data live)
    (hmmap : data.mmap = true) :
    Coherent files (data.mapIndex files).2 live ∧ Remapped data (data.mapIndex files).2 := by
  rw [mapIndex_mmap hmmap]
  refine ⟨⟨fun map hmap => ?_, hcoherent.octets⟩, ⟨rfl, rfl, rfl, rfl, rfl, rfl, rfl, rfl⟩⟩
  dsimp only at hmap ⊢
  split at hmap
  · cases hmap
  · obtain rfl := Option.mem_some_iff.mp hmap
    exact ⟨rfl, fun number hlive _ => Stored.place_lt (hstored.isSome_iff.mp hlive).2⟩

theorem Coherent.mapData (hcoherent : Coherent files data live) (hstored : Stored files data live)
    (hmmap : data.mmap = true) :
    Coherent files (data.mapData files).2 live ∧ Remapped data (data.mapData files).2 := by
  rw [mapData_mmap hmmap]
  refine ⟨⟨hcoherent.records, fun map hmap => ?_⟩, ⟨rfl, rfl, rfl, rfl, rfl, rfl, rfl, rfl⟩⟩
  dsimp only at hmap ⊢
  split at hmap
  · cases hmap
  · obtain rfl := Option.mem_some_iff.mp hmap
    exact ⟨rfl, fun number _ _ record hrecord => (hstored.valid hrecord).2.2⟩

theorem Stored.remapped {data' : GroupData} (hstored : Stored files data live)
    (hsame : Remapped data data') :
    Stored files data' live := by
  refine ⟨?_, ?_, ?_⟩
  · rw [hsame.datafd, hsame.indexfd]
    exact hstored.whole
  · rw [hsame.datafd, hsame.indexfd, hsame.base]
    exact hstored.holds
  · rw [hsame.indexfd, hsame.base]
    exact hstored.unused

theorem Remapped.trans {data' data'' : GroupData} (hfirst : Remapped data data')
    (hsecond : Remapped data' data'') :
    Remapped data data'' :=
  ⟨hsecond.mmap.trans hfirst.mmap, hsecond.writable.trans hfirst.writable,
    hsecond.high.trans hfirst.high,
    hsecond.base.trans hfirst.base, hsecond.indexfd.trans hfirst.indexfd,
      hsecond.datafd.trans hfirst.datafd,
    hsecond.remapoutoforder.trans hfirst.remapoutoforder,
      hsecond.indexinode.trans hfirst.indexinode⟩

theorem Coherent.mapMissing (hcoherent : Coherent files data live)
    (hstored : Stored files data live) (hmmap : data.mmap = true) :
    let result := data.mapMissing files
    Coherent files result.2 live ∧ Remapped data result.2 ∧
      (result.1 = false ∨ result.2.index = none ∨ result.2.data = none →
        ∀ number, (live number).isSome → result.2.high < number) := by
  obtain ⟨data₁, hfirst, hcoherent₁, hremapped₁, hempty⟩ : ∃ data₁,
      (if data.index.isNone then data.mapIndex files else (true, data)) = (true, data₁) ∧
      Coherent files data₁ live ∧ Remapped data data₁ ∧
      (data₁.index = none → ∀ number, (live number).isSome = false) := by
    split
    next hnone =>
      obtain ⟨hcoherent', hremapped'⟩ := hcoherent.mapIndex hstored hmmap
      refine ⟨(data.mapIndex files).2, Prod.ext (by rw [mapIndex_mmap hmmap]) rfl, hcoherent',
        hremapped', ?_⟩
      rw [mapIndex_mmap hmmap]
      intro hindex number
      by_contra hlive
      have hlt := Stored.place_lt (hstored.isSome_iff.mp (Bool.eq_true_of_not_eq_false hlive)).2
      dsimp only at hindex
      rw [if_neg (by omega)] at hindex
      cases hindex
    next hsome =>
      exact ⟨data, rfl, hcoherent, .refl data,
        fun hnone => absurd (Option.isNone_iff_eq_none.mpr hnone) hsome⟩
  have hstored₁ := hstored.remapped hremapped₁
  have hmmap₁ := hremapped₁.mmap.trans hmmap
  rw [GroupData.mapMissing, hfirst]
  dsimp only
  rw [if_neg (by decide)]
  split
  next hnone =>
    obtain ⟨hcoherent', hremapped'⟩ := hcoherent₁.mapData hstored₁ hmmap₁
    refine ⟨hcoherent', hremapped₁.trans hremapped', ?_⟩
    rw [mapData_mmap hmmap₁]
    intro hunmapped number hlive
    by_cases hoctets : (files.data data₁.datafd).length = 0
    · -- no record is valid then
      obtain ⟨record, hrecord⟩ := Option.isSome_iff_exists.mp (hstored₁.isSome_iff.mp hlive).2
      obtain ⟨hoffset, hlength, hinside⟩ := hstored₁.valid hrecord
      omega
    cases hindex : data₁.index with
    | none =>
      rw [hempty hindex number] at hlive
      cases hlive
    | some map =>
      simp [hoctets, hindex] at hunmapped
  next hsome =>
    refine ⟨hcoherent₁, hremapped₁, fun hunmapped number hlive => ?_⟩
    rcases hunmapped with hunmapped | hunmapped | hunmapped
    · cases hunmapped
    · rw [hempty hunmapped number] at hlive
      cases hlive
    · exact absurd (Option.isNone_iff_eq_none.mpr hunmapped) hsome

theorem usedAt_take (entries : List IndexEntry) (n place : Nat) :
    usedAt (entries.take n) place = if place < n then usedAt entries place else none := by
  rw [usedAt, usedAt, List.getElem?_take]
  split
  · rfl
  · rfl

theorem searchAll_unmapped (files : Files) (memory : Memory) (fuel : Nat) {data : GroupData}
    (search : Search) (hunmapped : data.index = none ∨ data.data = none) :
    (searchAll files memory fuel data search).1 = [] := by
  cases fuel with
  | zero => rfl
  | succ fuel =>
    have hnone : (data.index.isNone || data.data.isNone) = true := by
      rcases hunmapped with hunmapped | hunmapped
      · rw [hunmapped, Option.isNone_none, Bool.true_or]
      · rw [hunmapped, Option.isNone_none, Bool.or_true]
    rw [searchAll, tdxSearch, if_pos hnone]

theorem Coherent.delivers (hcoherent : Coherent files data live) (hstored : Stored files data live)
    (memory : Memory)
    (hunmapped : data.index = none ∨ data.data = none → ∀ number, (live number).isSome →
      data.high < number)
    {start stop : Nat} (hbase : data.base ≤ stop)
    (hcovers : ∀ number, (live number).isSome → number ≤ stop → number ≤ data.high) :
    (searchAll files memory (data.indexlen + 1) data ⟨stop - data.base, start - data.base⟩).1 =
      (live.range start stop).map fun article => ⟨article, true⟩ := by
  by_cases hmapped : data.index = none ∨ data.data = none
  · have hrange : live.range start stop = [] := by
      refine List.eq_nil_iff_forall_not_mem.mpr fun article harticle => ?_
      obtain ⟨number, -, hle, hlive⟩ := ArticleMap.mem_range.mp harticle
      have hsome : (live number).isSome := by rw [hlive]; rfl
      exact absurd (hcovers number hsome hle) (Nat.not_le_of_lt (hunmapped hmapped number hsome))
    rw [searchAll_unmapped files memory _ _ hmapped, hrange, List.map_nil]
  rw [not_or] at hmapped
  obtain ⟨index, hindex⟩ := Option.ne_none_iff_exists'.mp hmapped.1
  obtain ⟨octets, hoctets⟩ := Option.ne_none_iff_exists'.mp hmapped.2
  obtain ⟨rfl, hrecords⟩ := hcoherent.records index hindex
  obtain ⟨rfl, hinside⟩ := hcoherent.octets octets hoctets
  have hview : data.entries files = (files.index data.indexfd).take data.indexlen := by
    rw [GroupData.entries, hindex]
    rfl
  have htext : data.octets files = (files.data data.datafd).take data.datalen := by
    rw [GroupData.octets, hoctets]
    rfl
  rw [searchAll_eq files memory (by rw [hindex]; rfl) (by rw [hoctets]; rfl), hview, htext]
  · refine foundFrom_eq_range hbase (fun number article => hstored.number) ?_ ?_
    · intro place record hused hstart hstop
      rw [usedAt_take] at hused
      split at hused
      · have hlive : live (place + data.base) =
            some (record.article (files.data data.datafd) (place + data.base)) := by
          rw [hstored.holds]
          exact liveAt_eq_some_iff.mpr ⟨Nat.le_add_left .., record,
            by rwa [Nat.add_sub_cancel], rfl⟩
        have hle := hcovers (place + data.base) (by rw [hlive]; rfl) hstop
        have hpasses :=
          hinside (place + data.base) (Nat.le_add_left ..) hle record (by rwa [Nat.add_sub_cancel])
        have hvalid := hstored.valid hused
        have hsplit := List.take_append_drop data.datalen (files.data data.datafd)
        have hvalid' : record.Valid ((files.data data.datafd).take data.datalen) := by
          refine ⟨hvalid.1, hvalid.2.1, ?_⟩
          have := hvalid.2.2
          rw [List.length_take]
          omega
        refine ⟨.inr hpasses, _, hlive, ?_⟩
        rw [IndexEntry.found_valid hvalid']
        congr 1
        conv_rhs => rw [← hsplit]
        exact (IndexEntry.article_append hvalid' _ _).symm
      · cases hused
    · intro number hlive _ hstop
      obtain ⟨hle, hused⟩ := hstored.isSome_iff.mp hlive
      rw [usedAt_take, if_pos (hrecords number hlive (hcovers number hlive hstop))]
      exact ⟨hle, hused⟩
  · rw [hview, List.length_take]
    simp only
    omega

theorem tdxSearch_data (files : Files) (memory : Memory) (data : GroupData) (search : Search) :
    (∃ found, tdxSearch files memory data search = (some found, data)) ∨
      tdxSearch files memory data search = (none, data) ∨
        tdxSearch files memory data search = (none, { data with remapoutoforder := true }) := by
  rw [tdxSearch]
  split
  · exact .inr (.inl rfl)
  · split
    · exact .inr (.inl rfl)
    · split
      · exact .inr (.inr rfl)
      · exact .inl ⟨_, rfl⟩

theorem searchAll_data (files : Files) (memory : Memory) (fuel : Nat) (data : GroupData)
    (search : Search) :
    (searchAll files memory fuel data search).2 = data ∨
      (searchAll files memory fuel data search).2 = { data with remapoutoforder := true } := by
  induction fuel generalizing search with
  | zero => exact .inl rfl
  | succ fuel ih =>
    rw [searchAll]
    obtain ⟨⟨found, search'⟩, heq⟩ | heq | heq := tdxSearch_data files memory data search
    · rw [heq]
      exact ih search'
    · rw [heq]
      exact .inl rfl
    · rw [heq]
      exact .inr rfl

end Searching

end Inn.Tradindexed
