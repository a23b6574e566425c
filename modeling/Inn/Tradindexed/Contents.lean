import Inn.Tradindexed.Data

/-!
# The articles of a group

An index record is valid if it says where in the data file the overview data of
its article are. What a search delivers is what valid records say, in order, as
far as no record is in its way.
-/

namespace Inn.Tradindexed

open Foundation.Files

namespace IndexEntry

def Valid (entry : IndexEntry) (octets : Octets) : Prop :=
  0 ≤ entry.offset ∧ 0 < entry.length ∧ entry.offset + entry.length ≤ octets.length

instance (entry : IndexEntry) (octets : Octets) : Decidable (entry.Valid octets) :=
  inferInstanceAs (Decidable (_ ∧ _ ∧ _))

def Passes (entry : IndexEntry) (datalen : Nat) : Prop :=
  entry.length = 0 ∨ entry.offset + entry.length ≤ datalen

instance (entry : IndexEntry) (datalen : Nat) : Decidable (entry.Passes datalen) :=
  inferInstanceAs (Decidable (_ ∨ _))

def article (entry : IndexEntry) (octets : Octets) (number : Nat) : Article where
  number := number
  overview := pread octets entry.offset.toNat entry.length.toNat
  token := entry.token
  arrived := entry.arrived
  expires := entry.expires

theorem found_valid {entry : IndexEntry} {octets : Octets} (hvalid : entry.Valid octets)
    (memory : Memory)
    (number : Nat) : entry.found memory octets number = ⟨entry.article octets number, true⟩ := by
  obtain ⟨hoffset, hlength, -⟩ := hvalid
  have hoverview :
      entry.overview memory octets = some (pread octets entry.offset.toNat entry.length.toNat) := by
    rw [overview, if_neg (by omega), if_neg (by omega)]
  rw [found, hoverview]
  rfl

theorem overview_ne_nil {entry : IndexEntry} {memory : Memory} {octets : Octets} {number : Nat}
    (hlength : entry.length ≠ 0) (hpasses : entry.Passes octets.length)
    (hreadable : (entry.found memory octets number).readable) :
    (entry.found memory octets number).artdata.overview ≠ [] := by
  obtain ⟨text, htext⟩ := Option.isSome_iff_exists.mp hreadable
  have hpos : 0 < text.length := by
    rw [overview] at htext
    split at htext
    · cases htext
    · split at htext
      · obtain ⟨stray, -, rfl⟩ := Option.map_eq_some_iff.mp htext
        rw [stray.2]
        omega
      · cases htext
        have := hpasses.resolve_left hlength
        rw [pread, List.length_take, List.length_drop]
        omega
  change (entry.overview memory octets).getD [] ≠ []
  rw [htext]
  exact List.ne_nil_of_length_pos hpos

end IndexEntry

theorem eq_of_mem_iff {α : Type*} (number : α → Nat) {front back : List α}
    (hfront : front.Pairwise fun a b => number a < number b)
    (hback : back.Pairwise fun a b => number a < number b)
    (hsame : ∀ a, a ∈ front ↔ a ∈ back) : front = back :=
  have : Std.Irrefl fun a b : α => number a < number b := ⟨fun _ => Nat.lt_irrefl _⟩
  have : Std.Antisymm fun a b : α => number a < number b :=
    ⟨fun _ _ hlt hgt => absurd hlt (Nat.lt_asymm hgt)⟩
  hfront.eq_of_mem_iff hback hsame

section Lists

variable (memory : Memory) (octets : Octets) (base limit : Nat)

def foundFrom (datalen : Nat) : List IndexEntry → Nat → List Found
  | [], _ => []
  | entry :: rest, current =>
    if current > limit then []
    else if entry.length = 0 then foundFrom datalen rest (current + 1)
    else if entry.offset + entry.length > datalen then []
    else entry.found memory octets (current + base) :: foundFrom datalen rest (current + 1)

def articlesFrom : List IndexEntry → Nat → List Article
  | [], _ => []
  | entry :: rest, current =>
    if entry.Valid octets then entry.article octets (current + base) ::
      articlesFrom rest (current + 1)
    else articlesFrom rest (current + 1)

variable {memory octets base limit}

theorem mem_foundFrom {datalen : Nat} {entries : List IndexEntry} {current : Nat} {found : Found} :
    found ∈ foundFrom memory octets base limit datalen entries current ↔
      ∃ place entry, entries[place]? = some entry ∧ entry.length ≠ 0 ∧ current + place ≤ limit ∧
        (∀ before ≤ place, ∀ other ∈ entries[before]?, other.Passes datalen) ∧
        found = entry.found memory octets (current + place + base) := by
  induction entries generalizing current with
  | nil => simp [foundFrom]
  | cons first rest ih =>
    rw [foundFrom]
    constructor
    · intro hmem
      split at hmem
      · cases hmem
      next hlimit =>
        have hnext : first.Passes datalen →
            found ∈ foundFrom memory octets base limit datalen rest (current + 1) →
            ∃ place entry, (first :: rest)[place]? = some entry ∧ entry.length ≠ 0 ∧
              current + place ≤ limit ∧
              (∀ before ≤ place, ∀ other ∈ (first :: rest)[before]?, other.Passes datalen) ∧
              found = entry.found memory octets (current + place + base) := by
          intro hfirst hmem
          obtain ⟨place, entry, hentry, hlength, hle, hpasses, rfl⟩ := ih.mp hmem
          refine ⟨place + 1, entry, hentry, hlength,
            by omega, ?_, by rw [show current + 1 + place = current + (place + 1) by omega]⟩
          rintro (_ | before) hbefore other hother
          · obtain rfl := Option.mem_some_iff.mp hother
            exact hfirst
          · exact hpasses before (by omega) other hother
        split at hmem
        next hempty => exact hnext (.inl hempty) hmem
        next hlength =>
          split at hmem
          · cases hmem
          next hinside =>
            rcases List.mem_cons.mp hmem with rfl | hmem
            · refine ⟨0, first, rfl, hlength, by omega, ?_, rfl⟩
              intro before hbefore other hother
              obtain rfl := Nat.le_zero.mp hbefore
              obtain rfl := Option.mem_some_iff.mp hother
              exact .inr (by omega)
            · exact hnext (.inr (by omega)) hmem
    · rintro ⟨place, entry, hentry, hlength, hle, hpasses, rfl⟩
      have hfirst := hpasses 0 (Nat.zero_le _) first rfl
      rw [if_neg (by omega)]
      cases place with
      | zero =>
        cases hentry
        rw [if_neg hlength, if_neg (by have := hfirst.resolve_left hlength; omega)]
        exact List.mem_cons_self
      | succ place =>
        have hrest : entry.found memory octets (current + (place + 1) + base) ∈
            foundFrom memory octets base limit datalen rest (current + 1) :=
          ih.mpr ⟨place, entry, hentry, hlength, by omega,
            fun before hbefore other hother => hpasses (before + 1) (by omega) other hother,
            by rw [show current + 1 + place = current + (place + 1) by omega]⟩
        split
        · exact hrest
        next hused =>
          rw [if_neg (by have := hfirst.resolve_left hused; omega)]
          exact List.mem_cons_of_mem _ hrest

theorem mem_articlesFrom {entries : List IndexEntry} {current : Nat} {article : Article} :
    article ∈ articlesFrom octets base entries current ↔
      ∃ place, ∃ entry : IndexEntry, entries[place]? = some entry ∧ entry.Valid octets ∧
        article = entry.article octets (current + place + base) := by
  induction entries generalizing current with
  | nil => simp [articlesFrom]
  | cons first rest ih =>
    have hcons : article ∈ articlesFrom octets base (first :: rest) current ↔
        (first.Valid octets ∧ article = first.article octets (current + base)) ∨
          article ∈ articlesFrom octets base rest (current + 1) := by
      rw [articlesFrom]
      split
      next hvalid => simp [hvalid]
      next hinvalid => simp [hinvalid]
    rw [hcons, ih]
    constructor
    · rintro (⟨hvalid, rfl⟩ | ⟨place, entry, hentry, hvalid, rfl⟩)
      · exact ⟨0, first, rfl, hvalid, rfl⟩
      · exact ⟨place + 1, entry, hentry, hvalid,
          by rw [show current + 1 + place = current + (place + 1) by omega]⟩
    · rintro ⟨_ | place, entry, hentry, hvalid, rfl⟩
      · cases hentry
        exact .inl ⟨hvalid, rfl⟩
      · exact .inr ⟨place, entry, hentry, hvalid,
          by rw [show current + 1 + place = current + (place + 1) by omega]⟩

theorem foundFrom_sorted {datalen : Nat} (entries : List IndexEntry) (current : Nat) :
    (foundFrom memory octets base limit datalen entries current).Pairwise
      fun found other => found.artdata.number < other.artdata.number := by
  induction entries generalizing current with
  | nil => exact List.Pairwise.nil
  | cons first rest ih =>
    rw [foundFrom]
    split
    · exact List.Pairwise.nil
    · split
      · exact ih _
      · split
        · exact List.Pairwise.nil
        · refine List.Pairwise.cons (fun other hother => ?_) (ih _)
          obtain ⟨place, entry, -, -, -, -, rfl⟩ := mem_foundFrom.mp hother
          change current + base < current + 1 + place + base
          omega

theorem articlesFrom_sorted (entries : List IndexEntry) (current : Nat) :
    (articlesFrom octets base entries current).Pairwise fun article other => article.number <
      other.number := by
  induction entries generalizing current with
  | nil => exact List.Pairwise.nil
  | cons first rest ih =>
    rw [articlesFrom]
    split
    · refine List.Pairwise.cons (fun other hother => ?_) (ih _)
      obtain ⟨place, entry, -, -, rfl⟩ := mem_articlesFrom.mp hother
      change current + base < current + 1 + place + base
      omega
    · exact ih _

theorem articlesFrom_append (entries more : List IndexEntry) (current : Nat) :
    articlesFrom octets base (entries ++ more) current =
      articlesFrom octets base entries current ++
        articlesFrom octets base more (current + entries.length) := by
  induction entries generalizing current with
  | nil => rfl
  | cons first rest ih =>
    rw [List.cons_append, articlesFrom, articlesFrom, ih, List.length_cons,
      show current + 1 + rest.length = current + (rest.length + 1) by omega]
    split
    · rfl
    · rfl

theorem IndexEntry.not_valid_zero (octets : Octets) : ¬IndexEntry.zero.Valid octets := fun hvalid =>
  absurd hvalid.2.1 (by decide)

theorem articlesFrom_zeros (n current : Nat) :
    articlesFrom octets base (List.replicate n IndexEntry.zero) current = [] := by
  induction n generalizing current with
  | zero => rfl
  | succ n ih => rw [List.replicate_succ, articlesFrom,
      if_neg (IndexEntry.not_valid_zero octets), ih]

def Whole (octets : Octets) (entries : List IndexEntry) : Prop :=
  ∀ entry ∈ entries, entry.length ≠ 0 → entry.Valid octets

theorem IndexEntry.Valid.append {entry : IndexEntry} {octets : Octets} (hvalid : entry.Valid octets)
    (more : Octets) :
    entry.Valid (octets ++ more) :=
  ⟨hvalid.1, hvalid.2.1, by have := hvalid.2.2; rw [List.length_append]; omega⟩

theorem IndexEntry.article_append {entry : IndexEntry} {octets : Octets}
    (hvalid : entry.Valid octets) (more : Octets) (number : Nat) :
    entry.article (octets ++ more) number = entry.article octets number := by
  obtain ⟨hoffset, hlength, hinside⟩ := hvalid
  rw [article, article, pread, pread, List.drop_append_of_le_length (by omega),
    List.take_append_of_le_length]
  rw [List.length_drop]
  omega

theorem articlesFrom_more {entries : List IndexEntry} (hwhole : Whole octets entries)
    (more : Octets) (current : Nat) :
    articlesFrom (octets ++ more) base entries current =
      articlesFrom octets base entries current := by
  induction entries generalizing current with
  | nil => rfl
  | cons first rest ih =>
    have hrest :=
      ih (fun entry hentry => hwhole entry (List.mem_cons_of_mem _ hentry)) (current + 1)
    rw [articlesFrom, articlesFrom, hrest]
    by_cases hused : first.length = 0
    · have hinvalid : ∀ text, ¬first.Valid text := fun text hvalid => absurd hvalid.2.1 (by omega)
      rw [if_neg (hinvalid _), if_neg (hinvalid _)]
    · have hvalid := hwhole first List.mem_cons_self hused
      rw [if_pos (hvalid.append more), if_pos hvalid, IndexEntry.article_append hvalid]

end Lists

section Storing

variable {octets : Octets} {base : Nat} {entries : List IndexEntry} {article : Article}

def recordOf (octets : Octets) (article : Article) : IndexEntry :=
  ⟨octets.length, article.overview.length, article.arrived, article.expires, article.token⟩

theorem recordOf_valid (octets : Octets) (hoverview : article.overview ≠ []) :
    (recordOf octets article).Valid (octets ++ article.overview) := by
  have := List.length_pos_iff.mpr hoverview
  refine ⟨Int.natCast_nonneg _, ?_, ?_⟩
  · exact Int.natCast_pos.mpr this
  · rw [List.length_append]
    exact le_of_eq (Int.natCast_add ..).symm

theorem recordOf_article (octets : Octets) (article : Article) :
    (recordOf octets article).article (octets ++ article.overview) article.number = article := by
  have htext : pread (octets ++ article.overview) octets.length article.overview.length =
      article.overview := by
    rw [pread, List.drop_left, List.take_length]
  rw [IndexEntry.article]
  change Article.mk article.number (pread _ octets.length article.overview.length) _ _ _ = _
  rw [htext]
  rfl

theorem articlesFrom_store (hwhole : Whole octets entries) (hoverview : article.overview ≠ [])
    (habove : base + entries.length ≤ article.number) :
    let entries' := overwrite .zero entries (article.number - base) [recordOf octets article]
    Whole (octets ++ article.overview) entries' ∧ base + entries'.length = article.number + 1 ∧
      articlesFrom (octets ++ article.overview) base entries' 0 =
        articlesFrom octets base entries 0 ++ [article] := by
  rw [overwrite_beyond (List.cons_ne_nil _ _) (by omega)]
  have hvalid := recordOf_valid octets hoverview
  refine ⟨?_, ?_, ?_⟩
  · intro entry hentry hused
    rcases List.mem_append.mp hentry with hentry | hentry
    · rcases List.mem_append.mp hentry with hentry | hentry
      · exact (hwhole entry hentry hused).append _
      · exact absurd (List.eq_of_mem_replicate hentry ▸ rfl) hused
    · obtain rfl := List.mem_singleton.mp hentry
      exact hvalid
  · simp only [List.length_append, List.length_replicate, List.length_cons, List.length_nil]
    omega
  · rw [articlesFrom_append, articlesFrom_append, articlesFrom_zeros, articlesFrom_more hwhole,
      List.append_nil,
      List.length_append, List.length_replicate, articlesFrom, if_pos hvalid, articlesFrom,
      show 0 + (entries.length + (article.number - base - entries.length)) + base =
          article.number by omega,
      recordOf_article]

theorem indexBase_ne_zero (artnum : Nat) : indexBase artnum ≠ 0 := by
  rw [indexBase]
  split
  · omega
  · exact Nat.one_ne_zero

theorem tdxDataStore_eq {files : Files} {data : GroupData} (hwritable : data.writable = true)
    (article : Article) :
    tdxDataStore files data article =
      let base := if data.base = 0 then indexBase article.number else data.base
      if base > article.number then (false, files, { data with base := base })
      else
        (true,
          (files.xwrite data.datafd article.overview).xpwrite data.indexfd (article.number - base)
            [recordOf (files.data data.datafd) article],
          { data with
            base := base
            datapos := (files.data data.datafd).length + article.overview.length }) := by
  rw [tdxDataStore, if_neg (by rw [hwritable]; decide)]
  by_cases hbase : data.base = 0
  · simp only [if_pos hbase]
    rfl
  · simp only [if_neg hbase]
    rfl

end Storing

theorem nextEntry_foundFrom (memory : Memory) (octets : Octets) (base limit datalen : Nat)
    (entries : List IndexEntry) (current : Nat) :
    match nextEntry limit entries current with
    | none => foundFrom memory octets base limit datalen entries current = []
    | some (place, entry) => ∃ n, place = current + n ∧ n < entries.length ∧
        foundFrom memory octets base limit datalen entries current =
          if entry.offset + entry.length > datalen then []
          else entry.found memory octets (place + base) ::
            foundFrom memory octets base limit datalen (entries.drop (n + 1)) (place + 1) := by
  induction entries generalizing current with
  | nil => rfl
  | cons first rest ih =>
    rw [nextEntry, foundFrom]
    by_cases hlimit : current > limit
    · rw [if_pos hlimit, if_pos hlimit]
    rw [if_neg hlimit, if_neg hlimit]
    by_cases hused : first.length = 0
    · rw [if_neg (not_not.mpr hused), if_pos hused]
      have hnext := ih (current + 1)
      split at hnext
      · exact hnext
      · obtain ⟨n, rfl, hn, heq⟩ := hnext
        exact ⟨n + 1, by omega, Nat.succ_lt_succ hn, heq⟩
    · rw [if_pos hused, if_neg hused]
      exact ⟨0, rfl, Nat.succ_pos _, rfl⟩

theorem searchAll_eq (files : Files) (memory : Memory) {data : GroupData}
    (hindex : data.index.isSome) (hdata : data.data.isSome) (fuel : Nat) (search : Search)
    (hfuel : (data.entries files).length < fuel + search.current) :
    (searchAll files memory fuel data search).1 =
      foundFrom memory (data.octets files) data.base search.limit data.datalen
        ((data.entries files).drop search.current) search.current := by
  induction fuel generalizing search with
  | zero => rw [searchAll, List.drop_of_length_le (by omega), foundFrom]
  | succ fuel ih =>
    have hnext := nextEntry_foundFrom memory (data.octets files) data.base search.limit data.datalen
      ((data.entries files).drop search.current) search.current
    have hmapped : (data.index.isNone || data.data.isNone) = false := by
      obtain ⟨_, heq⟩ := Option.isSome_iff_exists.mp hindex
      obtain ⟨_, heq'⟩ := Option.isSome_iff_exists.mp hdata
      rw [heq, heq']
      rfl
    rw [searchAll, tdxSearch, hmapped, if_neg Bool.false_ne_true]
    cases hfound :
      nextEntry search.limit ((data.entries files).drop search.current) search.current with
    | none =>
      rw [hfound] at hnext
      exact hnext.symm
    | some placed =>
      rw [hfound] at hnext
      obtain ⟨place, entry⟩ := placed
      obtain ⟨n, rfl, hn, heq⟩ := hnext
      rw [heq]
      dsimp only
      by_cases hout : entry.offset + entry.length > data.datalen
      · rw [if_pos hout, if_pos hout]
      · rw [if_neg hout, if_neg hout]
        dsimp only
        rw [ih _ (by simp only; omega), List.drop_drop,
          show search.current + (n + 1) = search.current + n + 1 by omega]

section Mapping

/-- A mapping shows the whole of its file. -/
structure Mapped (files : Files) (data : GroupData) : Prop where
  records : ∀ map ∈ data.index, data.indexlen = (files.index data.indexfd).length ∧
    map.read files.index data.indexlen = files.index data.indexfd
  octets : ∀ map ∈ data.data, data.datalen = (files.data data.datafd).length ∧
    map.read files.data data.datalen = files.data data.datafd
  indexpos : data.index = none → data.mmap = true ∨ data.indexpos = 0
  datapos : data.data = none → data.mmap = true ∨ data.datapos = 0

structure Remapped (data data' : GroupData) : Prop where
  mmap : data'.mmap = data.mmap
  writable : data'.writable = data.writable
  high : data'.high = data.high
  base : data'.base = data.base
  indexfd : data'.indexfd = data.indexfd
  datafd : data'.datafd = data.datafd
  remapoutoforder : data'.remapoutoforder = data.remapoutoforder
  indexinode : data'.indexinode = data.indexinode

theorem Remapped.refl (data : GroupData) : Remapped data data :=
    ⟨rfl, rfl, rfl, rfl, rfl, rfl, rfl, rfl⟩

theorem mapFile_cases {α : Type} (mmap : Bool) (files : Nat → List α) (fd : Nat) {pos : Nat}
    (hpos : mmap = true ∨ pos = 0) :
    files fd = [] ∧ GroupData.mapFile mmap files fd pos = (none, pos) ∨
      files fd ≠ [] ∧ ∃ map pos', GroupData.mapFile mmap files fd pos = (some map, pos') ∧
        map.read files (files fd).length = files fd := by
  rw [GroupData.mapFile]
  split
  next hempty => exact .inl ⟨List.eq_nil_of_length_eq_zero hempty, rfl⟩
  next hlength =>
    refine .inr ⟨fun hempty => hlength (by rw [hempty]; rfl), ?_⟩
    split
    · exact ⟨_, _, rfl, List.take_length⟩
    next hcopy =>
      rw [hpos.resolve_left hcopy, List.drop_zero, if_pos rfl]
      exact ⟨_, _, rfl, rfl⟩

variable {files : Files} {data : GroupData}

theorem Mapped.mapIndex (hmapped : Mapped files data) (hnone : data.index = none) :
    (data.mapIndex files).1 = true ∧ Mapped files (data.mapIndex files).2 ∧
      Remapped data (data.mapIndex files).2 ∧
      ((data.mapIndex files).2.index = none → files.index data.indexfd = []) := by
  have hpos := hmapped.indexpos hnone
  rw [GroupData.mapIndex]
  obtain ⟨hempty, hmap⟩ | ⟨-, map, pos, hmap, hread⟩ :=
    mapFile_cases data.mmap files.index data.indexfd hpos
  · rw [hmap]
    exact ⟨by rw [hempty]; rfl, ⟨nofun, hmapped.octets, fun _ => hpos, hmapped.datapos⟩,
      ⟨rfl, rfl, rfl, rfl, rfl, rfl, rfl, rfl⟩, fun _ => hempty⟩
  · rw [hmap]
    exact ⟨rfl, ⟨fun other hother => Option.mem_some_iff.mp hother ▸ ⟨rfl, hread⟩, hmapped.octets,
      nofun, hmapped.datapos⟩,
      ⟨rfl, rfl, rfl, rfl, rfl, rfl, rfl, rfl⟩, nofun⟩

theorem Mapped.mapData (hmapped : Mapped files data) (hnone : data.data = none) :
    Mapped files (data.mapData files).2 ∧ Remapped data (data.mapData files).2 ∧
      (data.mapData files).2.index = data.index ∧
      ((data.mapData files).1 = true → data.indexlen > 0 → (data.mapData files).2.data.isSome) := by
  have hpos := hmapped.datapos hnone
  rw [GroupData.mapData]
  obtain ⟨-, hmap⟩ | ⟨-, map, pos, hmap, hread⟩ :=
    mapFile_cases data.mmap files.data data.datafd hpos
  · rw [hmap]
    exact ⟨⟨hmapped.records, nofun, hmapped.indexpos, fun _ => hpos⟩,
      ⟨rfl, rfl, rfl, rfl, rfl, rfl, rfl, rfl⟩, rfl,
      fun hr hlen => by simp [hlen] at hr⟩
  · rw [hmap]
    exact ⟨⟨hmapped.records, fun other hother => Option.mem_some_iff.mp hother ▸ ⟨rfl, hread⟩,
      hmapped.indexpos, nofun⟩,
      ⟨rfl, rfl, rfl, rfl, rfl, rfl, rfl, rfl⟩, rfl, fun _ _ => rfl⟩

/-- A file that is not mapped has no records. -/
structure Covered (files : Files) (data : GroupData) : Prop extends Mapped files data where
  noIndex : data.index = none → files.index data.indexfd = []
  noData : data.data = none → files.index data.indexfd = []

theorem Mapped.mapMissing {data' : GroupData} (hmapped : Mapped files data)
    (hmap : data.mapMissing files = (true, data')) : Covered files data' ∧ Remapped data data' := by
  have hindex :
      ∀ data₁, (if data.index.isNone then data.mapIndex files else (true, data)) = (true, data₁) →
      Mapped files data₁ ∧ Remapped data data₁ ∧
        (data₁.index = none → files.index data₁.indexfd = []) := by
    intro data₁ heq
    split at heq
    next hnone =>
      obtain ⟨-, hmapped₁, hremapped, hempty⟩ :=
        hmapped.mapIndex (Option.isNone_iff_eq_none.mp hnone)
      rw [heq] at hmapped₁ hremapped hempty
      refine ⟨hmapped₁, hremapped, fun hnone => ?_⟩
      rw [hremapped.indexfd]
      exact hempty hnone
    next hsome =>
      obtain rfl := (Prod.mk.inj heq).2
      exact ⟨hmapped, .refl data, fun hnone => absurd (Option.isNone_iff_eq_none.mpr hnone) hsome⟩
  rw [GroupData.mapMissing] at hmap
  generalize hresult :
    (if data.index.isNone then data.mapIndex files else (true, data)) = result at hmap hindex
  obtain ⟨r, data₁⟩ := result
  cases r with
  | false => cases hmap
  | true =>
    obtain ⟨hmapped₁, hremapped₁, hempty⟩ := hindex data₁ rfl
    dsimp only at hmap
    rw [if_neg (by decide)] at hmap
    split at hmap
    next hnone =>
      obtain ⟨hmapped', hremapped', hsame, hsome⟩ :=
        hmapped₁.mapData (Option.isNone_iff_eq_none.mp hnone)
      rw [hmap] at hmapped' hremapped' hsame hsome
      have hempty' : data'.index = none → files.index data'.indexfd = [] := by
        rw [hsame, hremapped'.indexfd]
        exact hempty
      refine ⟨{ hmapped' with noIndex := hempty', noData := fun hdata => ?_ }, ?_⟩
      · cases hmap' : data'.index with
        | none => exact hempty' hmap'
        | some map =>
          have hlen : ¬data₁.indexlen > 0 := fun hlen => by
            have := hsome rfl hlen
            rw [hdata] at this
            cases this
          have hrecords := (hmapped₁.records map (hsame ▸ hmap')).1
          rw [hremapped'.indexfd]
          exact List.eq_nil_of_length_eq_zero (by omega)
      · exact ⟨hremapped'.mmap.trans hremapped₁.mmap, hremapped'.writable.trans hremapped₁.writable,
          hremapped'.high.trans hremapped₁.high, hremapped'.base.trans hremapped₁.base,
          hremapped'.indexfd.trans hremapped₁.indexfd, hremapped'.datafd.trans hremapped₁.datafd,
          hremapped'.remapoutoforder.trans hremapped₁.remapoutoforder,
          hremapped'.indexinode.trans hremapped₁.indexinode⟩
    next hsome =>
      obtain rfl := (Prod.mk.inj hmap).2
      refine ⟨{ hmapped₁ with noIndex := hempty, noData := fun hnone => ?_ }, hremapped₁⟩
      exact absurd (Option.isNone_iff_eq_none.mpr hnone) hsome

theorem Covered.searchAll_eq (hcovered : Covered files data) (memory : Memory) {fuel : Nat}
    (search : Search) (hfuel : (files.index data.indexfd).length < fuel) :
    (searchAll files memory fuel data search).1 =
      foundFrom memory (files.data data.datafd) data.base search.limit
        (files.data data.datafd).length
        ((files.index data.indexfd).drop search.current) search.current := by
  cases hindex : data.index with
  | none =>
    rw [hcovered.noIndex hindex, List.drop_nil, foundFrom]
    cases fuel with
    | zero => rfl
    | succ fuel =>
      rw [searchAll, tdxSearch, hindex]
      rfl
  | some map =>
    obtain ⟨hlength, hread⟩ := hcovered.records map hindex
    have hentries : data.entries files = files.index data.indexfd := by
      rw [GroupData.entries, hindex, Option.map_some, Option.getD_some, hread]
    cases hdata : data.data with
    | none =>
      rw [hcovered.noData hdata, List.drop_nil, foundFrom]
      cases fuel with
      | zero => rfl
      | succ fuel =>
        rw [searchAll, tdxSearch, hindex, hdata]
        rfl
    | some octets =>
      obtain ⟨hdatalen, hoctets⟩ := hcovered.octets octets hdata
      have hall : data.octets files = files.data data.datafd := by
        rw [GroupData.octets, hdata, Option.map_some, Option.getD_some, hoctets]
      rw [Inn.Tradindexed.searchAll_eq files memory (by rw [hindex]; rfl)
        (by rw [hdata]; rfl) fuel search
        (by rw [hentries]; omega), hentries, hall, hdatalen]

theorem mapped_remap (files : Files) (high : Nat)
    (hpos : data.mmap = true ∨ data.indexpos = 0 ∧ data.datapos = 0) :
    Mapped files (data.remap files high) ∧ (data.remap files high).base = data.base ∧
      (data.remap files high).indexfd = data.indexfd ∧
        (data.remap files high).datafd = data.datafd := by
  have hmapped : Mapped files ({ data with remapoutoforder := false }.unmapData.unmapIndex) :=
    ⟨nofun, nofun, fun _ => hpos.imp_right And.left, fun _ => hpos.imp_right And.right⟩
  obtain ⟨-, hmapped', hremapped, -⟩ := hmapped.mapIndex rfl
  exact ⟨{ hmapped' with }, hremapped.base,
    hremapped.indexfd, hremapped.datafd⟩

theorem mapMissing_base (files : Files) (data : GroupData) :
    (data.mapMissing files).2.base = data.base := by
  rw [GroupData.mapMissing]
  simp only [GroupData.mapIndex, GroupData.mapData]
  split_ifs <;> rfl

theorem start_place (start base : Nat) :
    (if start < base then 0 else start - base) = start - base := by
  split
  · omega
  · rfl

theorem searchMapped_cases {start stop : Nat} {search : Search} {data' : GroupData}
    (hopen : searchMapped files data start stop = (some search, data')) :
    search = ⟨stop - data.base, start - data.base⟩ ∧ data.mapMissing files = (true, data') := by
  rw [searchMapped] at hopen
  split at hopen
  · cases hopen
  have hsame := mapMissing_base files data
  generalize hmissing : data.mapMissing files = missing at hopen hsame
  obtain ⟨r, data₁⟩ := missing
  cases r with
  | false => cases hopen
  | true =>
    dsimp only at hopen hsame
    rw [Bool.not_true, if_neg Bool.false_ne_true, hsame, start_place] at hopen
    obtain ⟨rfl, rfl⟩ := hopen
    exact ⟨rfl, rfl⟩

theorem tdxSearchOpen_cases {start stop high : Nat} {search : Search} {data' : GroupData}
    (hopen : tdxSearchOpen files data start stop high = (some search, data')) :
    data.base ≤ stop ∧ search = ⟨stop - data.base, start - data.base⟩ ∧
      ((data.remap files high).mapMissing files = (true, data') ∨
        data.mapMissing files = (true, data')) := by
  rw [tdxSearchOpen] at hopen
  split at hopen
  · cases hopen
  next hbase =>
    split at hopen
    · cases hopen
    · split at hopen
      · obtain ⟨hsearch, hmissing⟩ := searchMapped_cases hopen
        exact ⟨Nat.le_of_not_lt hbase, hsearch, .inl hmissing⟩
      · obtain ⟨hsearch, hmissing⟩ := searchMapped_cases hopen
        exact ⟨Nat.le_of_not_lt hbase, hsearch, .inr hmissing⟩

theorem Mapped.search {start stop high : Nat} {search : Search} {data' : GroupData}
    (hmapped : Mapped files data) (hpos : data.mmap = true ∨ data.indexpos = 0 ∧ data.datapos = 0)
    (hopen : tdxSearchOpen files data start stop high = (some search, data')) :
    Covered files data' ∧ data'.base = data.base ∧ data'.indexfd = data.indexfd ∧
      data'.datafd = data.datafd := by
  obtain ⟨-, -, hmissing | hmissing⟩ := tdxSearchOpen_cases hopen
  · obtain ⟨hmapped', hbase, hindexfd, hdatafd⟩ := mapped_remap files high hpos
    obtain ⟨hcovered, hsame⟩ := hmapped'.mapMissing hmissing
    exact ⟨hcovered, hsame.base.trans hbase, hsame.indexfd.trans hindexfd,
      hsame.datafd.trans hdatafd⟩
  · obtain ⟨hcovered, hsame⟩ := hmapped.mapMissing hmissing
    exact ⟨hcovered, hsame.base, hsame.indexfd, hsame.datafd⟩

end Mapping

end Inn.Tradindexed
