import Inn.Foundation.Runs
import Inn.Tradindexed.Ordered

/-!
# Adding, cancelling and searching

A group that articles are added to and cancelled in, through one handle, goes on
like an ordered map: where files are left of before, they hold no records that
show, and no article is added at the high water mark of a handle whose maps are
taken for current.
-/

namespace Inn.Tradindexed

open Function (update update_self update_of_ne)
open Foundation.Files Foundation.Runs

/-- The open group holds the articles of `live`. -/
structure Holds (g : OpenGroup) (live : ArticleMap) : Prop extends Stored g.files g.data live where
  index : g.writable = true
  writable : g.data.writable = true
  mmap : g.data.mmap = true
  inode : g.entry.indexinode = g.data.indexinode
  idx : g.files.names .IDX = some g.data.indexfd
  dat : g.files.names .DAT = some g.data.datafd
  base : g.entry.base = g.data.base
  high : ∀ number, (live number).isSome → number ≤ g.entry.high
  dataHigh : g.data.high ≤ g.entry.high
  baseHigh : g.data.base ≤ g.entry.high
  fits : g.data.remapoutoforder = true ∨ g.data.high < g.data.base ∨ Coherent g.files g.data live

section Searching

variable {g : OpenGroup} {live : ArticleMap}

theorem Holds.withData (hholds : Holds g live) {data : GroupData}
    (hstored : Stored g.files data live)
    (hwritable : data.writable = g.data.writable) (hmmap : data.mmap = g.data.mmap)
    (hbase : data.base = g.data.base)
    (hindexfd : data.indexfd = g.data.indexfd) (hdatafd : data.datafd = g.data.datafd)
    (hinode : data.indexinode = g.data.indexinode) (hhigh : data.high ≤ g.entry.high)
    (hfits : data.remapoutoforder = true ∨ data.high < data.base ∨ Coherent g.files data live) :
    Holds { g with data := data } live :=
  { hstored with
    index := hholds.index
    writable := hwritable.trans hholds.writable
    mmap := hmmap.trans hholds.mmap
    inode := hholds.inode.trans hinode.symm
    idx := hholds.idx.trans (congrArg some hindexfd.symm)
    dat := hholds.dat.trans (congrArg some hdatafd.symm)
    base := hholds.base.trans hbase.symm
    high := hholds.high
    dataHigh := hhigh
    baseHigh := hbase ▸ hholds.baseHigh
    fits := hfits }

theorem range_eq_nil {low high : Nat}
    (hnone : ∀ number, low ≤ number → number ≤ high → ¬(live number).isSome) :
    live.range low high = [] := by
  refine List.eq_nil_iff_forall_not_mem.mpr fun article harticle => ?_
  obtain ⟨number, hlow, hhigh, hlive⟩ := ArticleMap.mem_range.mp harticle
  exact hnone number hlow hhigh (by rw [hlive]; rfl)

theorem Holds.deliver (hholds : Holds g live) (hcoherent : Coherent g.files g.data live)
    (memory : Memory) {low high : Nat} (hbase : g.data.base ≤ high)
    (hcovers : ∀ number, (live number).isSome → number ≤ high → number ≤ g.data.high) :
    let result := g.deliver memory (searchMapped g.files g.data low high)
    result.1 = (live.range low high).map (fun article => ⟨article, true⟩) ∧
      Holds result.2 live := by
  rw [searchMapped]
  split
  next hlow =>
    refine ⟨?_, hholds⟩
    rw [range_eq_nil fun number hle hhigh hlive => ?_]
    · rfl
    · have := hcovers number hlive hhigh
      omega
  obtain ⟨hcoherent', hremapped, hunmapped⟩ := hcoherent.mapMissing hholds.toStored hholds.mmap
  have hstored' := hholds.toStored.remapped hremapped
  have hplain : Holds { g with data := (g.data.mapMissing g.files).2 } live :=
    hholds.withData hstored' hremapped.writable hremapped.mmap hremapped.base hremapped.indexfd
      hremapped.datafd
      hremapped.indexinode (hremapped.high ▸ hholds.dataHigh) (.inr (.inr hcoherent'))
  have hflagged :
      Holds { g with data := { (g.data.mapMissing g.files).2 with remapoutoforder := true } }
      live :=
    hholds.withData ⟨hstored'.whole, hstored'.holds,
      hstored'.unused⟩ hremapped.writable hremapped.mmap hremapped.base
      hremapped.indexfd hremapped.datafd hremapped.indexinode
        (hremapped.high ▸ hholds.dataHigh) (.inl rfl)
  generalize hmissing : g.data.mapMissing g.files = missing at *
  obtain ⟨r, data⟩ := missing
  dsimp only at hcoherent' hremapped hunmapped hstored' hplain hflagged ⊢
  cases r with
  | false =>
    refine ⟨?_, hplain⟩
    rw [range_eq_nil fun number _ hhigh hlive => ?_]
    · rfl
    · have hle := hcovers number hlive hhigh
      have hlt := hunmapped (.inl rfl) number hlive
      rw [hremapped.high] at hlt
      omega
  | true =>
    have hdelivers :
        (searchAll g.files memory (data.indexlen + 1) data ⟨high - data.base, low - data.base⟩).1 =
        _ :=
      hcoherent'.delivers hstored' memory (fun hnone => hunmapped (.inr hnone))
        (hremapped.base ▸ hbase)
        (fun number hlive hle => hremapped.high ▸ hcovers number hlive hle)
    rw [Bool.not_true, if_neg Bool.false_ne_true, start_place]
    refine ⟨hdelivers, ?_⟩
    rcases searchAll_data g.files memory (data.indexlen + 1) data ⟨high - data.base,
      low - data.base⟩ with heq | heq
    · rw [OpenGroup.deliver]
      dsimp only
      rw [heq]
      exact hplain
    · rw [OpenGroup.deliver]
      dsimp only
      rw [heq]
      exact hflagged

theorem Holds.remap (hholds : Holds g live) :
    Holds { g with data := g.data.remap g.files g.entry.high } live ∧
      Coherent g.files (g.data.remap g.files g.entry.high) live := by
  have hmmap : ({ g.data with remapoutoforder := false }.unmapData.unmapIndex).mmap = true :=
    hholds.mmap
  have hcoherent : Coherent g.files (g.data.remap g.files g.entry.high) live := by
    rw [GroupData.remap, mapIndex_mmap hmmap]
    refine ⟨fun map hmap => ?_, nofun⟩
    dsimp only at hmap ⊢
    split at hmap
    · cases hmap
    · obtain rfl := Option.mem_some_iff.mp hmap
      exact ⟨rfl, fun number hlive _ => Stored.place_lt (hholds.isSome_iff.mp hlive).2⟩
  refine ⟨hholds.withData ?_ ?_ ?_ ?_ ?_ ?_ ?_ le_rfl (.inr (.inr hcoherent)), hcoherent⟩
  · rw [GroupData.remap, mapIndex_mmap hmmap]
    exact ⟨hholds.whole, hholds.holds, hholds.unused⟩
  · rw [GroupData.remap, mapIndex_mmap hmmap]
    rfl
  · rw [GroupData.remap, mapIndex_mmap hmmap]
    rfl
  · rw [GroupData.remap, mapIndex_mmap hmmap]
    rfl
  · rw [GroupData.remap, mapIndex_mmap hmmap]
    rfl
  · rw [GroupData.remap, mapIndex_mmap hmmap]
    rfl
  · rw [GroupData.remap, mapIndex_mmap hmmap]
    rfl

theorem Holds.search (hholds : Holds g live) (memory : Memory) (low high : Nat) :
    (g.search memory low high).1 = (live.range low high).map (fun article => ⟨article, true⟩) ∧
      Holds (g.search memory low high).2 live := by
  rw [OpenGroup.search, tdxSearchOpen]
  split
  next hlt =>
    refine ⟨?_, hholds⟩
    rw [range_eq_nil fun number _ hhigh hlive => ?_]
    · rfl
    · have := (hholds.isSome_iff.mp hlive).1
      omega
  next hbase =>
    split
    next hlt =>
      refine ⟨?_, hholds⟩
      rw [range_eq_nil fun number hlow hhigh hlive => by omega]
      rfl
    · split
      · obtain ⟨hholds', hcoherent'⟩ := hholds.remap
        have hsame : (g.data.remap g.files g.entry.high).base = g.data.base :=
          (mapped_remap g.files g.entry.high (.inl hholds.mmap)).2.1
        exact hholds'.deliver hcoherent' memory (Nat.le_of_not_lt (hsame ▸ hbase))
          fun number hlive _ => hholds.high number hlive
      next hkeep =>
        rw [not_or, not_and_or, Nat.not_lt, Nat.not_lt, Bool.not_eq_true] at hkeep
        obtain ⟨hhigh, hflag⟩ := hkeep
        have hcoherent : Coherent g.files g.data live := by
          rcases hholds.fits with hflagged | hlow | hcoherent
          · rw [hflag] at hflagged
            cases hflagged
          · have := hholds.baseHigh
            omega
          · exact hcoherent
        refine hholds.deliver hcoherent memory (Nat.le_of_not_lt hbase) fun number hlive hle => ?_
        have := hholds.high number hlive
        omega

end Searching

section Writing

variable {octets : Octets} {entries : List IndexEntry} {base number : Nat} {g : OpenGroup}
    {live : ArticleMap}

theorem usedAt_write (entries : List IndexEntry) (record : IndexEntry) (place i : Nat) :
    usedAt (overwrite .zero entries place [record]) i =
      if i = place then (if record.length = 0 then none else some record)
        else usedAt entries i := by
  rw [usedAt_overwrite]
  by_cases hplace : i = place
  · rw [if_pos hplace, if_pos (by simp [hplace]), hplace, Nat.sub_self]
    by_cases hlength : record.length = 0
    · simp [usedAt, hlength]
    · simp [usedAt, hlength]
  · rw [if_neg hplace, if_neg]
    rw [List.length_singleton]
    omega

theorem whole_iff :
    Whole octets entries ↔ ∀ place, ∀ record ∈ usedAt entries place, record.Valid octets := by
  constructor
  · intro hwhole place record hused
    obtain ⟨hentry, hlength⟩ := usedAt_eq_some_iff.mp hused
    exact hwhole record (List.mem_of_getElem? hentry) hlength
  · intro hvalid record hmem hlength
    obtain ⟨place, hentry⟩ := List.getElem?_of_mem hmem
    exact hvalid place record (usedAt_eq_some_iff.mpr ⟨hentry, hlength⟩)

structure Prepared (g : OpenGroup) (live : ArticleMap) (number : Nat) : Prop where
  index : g.writable = true
  writable : g.data.writable = true
  mmap : g.data.mmap = true
  inode : g.entry.indexinode = g.data.indexinode
  idx : g.files.names .IDX = some g.data.indexfd
  dat : g.files.names .DAT = some g.data.datafd
  base : g.entry.base = g.data.base
  low : g.data.base ≤ number
  valid : ∀ place, place + g.data.base ≠ number →
    ∀ record ∈ usedAt (g.files.index g.data.indexfd) place,
    record.Valid (g.files.data g.data.datafd)
  holds : ∀ other ≠ number,
    live other = liveAt (g.files.data g.data.datafd) (g.files.index g.data.indexfd)
      g.data.base other
  unused : g.data.base = 0 → ∀ place, usedAt (g.files.index g.data.indexfd) place = none
  high : ∀ other, (live other).isSome → other ≤ g.entry.high
  dataHigh : g.data.high ≤ g.entry.high
  fits : g.data.remapoutoforder = true ∨ g.data.high < g.data.base ∨ g.data.high > number ∨
    (g.data.high = number → g.data.index = none ∧ g.data.data = none) ∧ Coherent g.files g.data live

theorem Holds.cancel (hholds : Holds g live) (number : Nat) :
    Holds (g.cancel number).2 (if (g.cancel number).1 then update live number none else live) := by
  rw [OpenGroup.cancel, tdxDataCancel, if_neg (by rw [hholds.writable]; decide)]
  by_cases houtside : g.data.base = 0 ∨ number < g.data.base ∨ number > g.data.high
  · rw [if_pos houtside]
    exact hholds
  · rw [if_neg houtside]
    rw [if_pos rfl]
    rw [not_or, not_or, Nat.not_lt, Nat.not_lt] at houtside
    obtain ⟨hbase, hle, -⟩ := houtside
    have hindex :
        (g.files.xpwrite g.data.indexfd (number - g.data.base) [.zero]).index g.data.indexfd =
        overwrite .zero (g.files.index g.data.indexfd) (number - g.data.base) [.zero] :=
          update_self ..
    have hused (i : Nat) :
        usedAt ((g.files.xpwrite g.data.indexfd (number - g.data.base) [.zero]).index
          g.data.indexfd) i =
        if i = number - g.data.base then none else usedAt (g.files.index g.data.indexfd) i := by
      rw [hindex, usedAt_write]
      rfl
    have hless (i : Nat) : ∀ record ∈ usedAt ((g.files.xpwrite g.data.indexfd (number - g.data.base)
        [.zero]).index g.data.indexfd) i, record ∈ usedAt (g.files.index g.data.indexfd) i := by
      rw [hused]
      split
      · exact nofun
      · exact fun _ hrecord => hrecord
    have hlive : ∀ other, (update live number none other).isSome → (live other).isSome := by
      intro other
      rcases eq_or_ne other number with rfl | hne
      · rw [update_self]
        exact nofun
      · rw [update_of_ne hne]
        exact fun hsome => hsome
    refine
      { index := hholds.index
        writable := hholds.writable
        mmap := hholds.mmap
        inode := hholds.inode
        idx := hholds.idx
        dat := hholds.dat
        base := hholds.base
        whole := whole_iff.mpr fun place record hrecord => hholds.valid (hless place record hrecord)
        holds := funext fun other => ?_
        unused := fun hzero => absurd hzero hbase
        high := fun other hsome => hholds.high other (hlive other hsome)
        dataHigh := hholds.dataHigh
        baseHigh := hholds.baseHigh
        fits := hholds.fits.imp_right (Or.imp_right fun hcoherent =>
          ⟨fun map hmap => ?_, fun map hmap => ?_⟩) }
    · change _ = liveAt (g.files.data g.data.datafd)
        ((g.files.xpwrite g.data.indexfd (number - g.data.base) [.zero]).index g.data.indexfd)
          g.data.base other
      rw [liveAt, hused]
      rcases eq_or_ne other number with rfl | hne
      · rw [update_self, if_pos hle, if_pos rfl]
        rfl
      · rw [update_of_ne hne, hholds.holds, liveAt]
        split
        · rw [if_neg (by omega)]
        · rfl
    · obtain ⟨hsame, hcovers⟩ := hcoherent.records map hmap
      exact ⟨hsame, fun other hsome => hcovers other (hlive other hsome)⟩
    · obtain ⟨hsame, hinside⟩ := hcoherent.octets map hmap
      exact ⟨hsame, fun other hbase hhigh record hrecord =>
        hinside other hbase hhigh record (hless _ record hrecord)⟩

theorem note_eq (entry : GroupEntry) (base number : Nat) :
    (entry.note base number).base = (if entry.base = 0 then base else entry.base) ∧
      (entry.note base number).high = max entry.high number ∧
      (entry.note base number).indexinode = entry.indexinode := by
  rw [GroupEntry.note]
  split_ifs with hbase hlow hhigh hhigh hlow hhigh hhigh
  all_goals refine ⟨rfl, ?_, rfl⟩
  all_goals simp only at hhigh ⊢; omega

theorem Prepared.contents {article : Article} (hprepared : Prepared g live article.number)
    (hoverview : article.overview ≠ [])
    (hbase : base = if g.data.base = 0 then indexBase article.number else g.data.base)
    (hlow : base ≤ article.number) :
    let octets := g.files.data g.data.datafd ++ article.overview
    let entries := overwrite .zero (g.files.index g.data.indexfd) (article.number - base)
      [recordOf (g.files.data g.data.datafd) article]
    Whole octets entries ∧ update live article.number (some article) = liveAt octets entries base ∧
      ∀ other ≠ article.number, base ≤ other → ∀ record ∈ usedAt entries (other - base),
        g.data.base = base ∧ record ∈ usedAt (g.files.index g.data.indexfd)
          (other - g.data.base) := by
  have hnew : (recordOf (g.files.data g.data.datafd) article).length ≠ 0 := by
    have := List.length_pos_iff.mpr hoverview
    change (article.overview.length : Int) ≠ 0
    omega
  have hsame : ∀ place, (usedAt (g.files.index g.data.indexfd) place).isSome →
      g.data.base = base := by
    intro place hused
    rw [hbase]
    split
    next hzero =>
      rw [hprepared.unused hzero] at hused
      cases hused
    · rfl
  refine ⟨whole_iff.mpr fun place record hrecord => ?_, funext fun other => ?_,
    fun other hne hle record hrecord => ?_⟩
  · rw [usedAt_write, if_neg hnew] at hrecord
    split at hrecord
    · obtain rfl := Option.mem_some_iff.mp hrecord
      exact recordOf_valid _ hoverview
    next hplace =>
      have hbase' := hsame place (Option.isSome_iff_exists.mpr ⟨record, hrecord⟩)
      exact (hprepared.valid place (by omega) record hrecord).append _
  · rw [liveAt, usedAt_write, if_neg hnew]
    rcases eq_or_ne other article.number with rfl | hne
    · rw [update_self, if_pos hlow, if_pos rfl, Option.map_some, recordOf_article]
    · rw [update_of_ne hne, hprepared.holds other hne, liveAt]
      by_cases hzero : g.data.base = 0
      · rw [hprepared.unused hzero, Option.map_none, ite_self]
        split
        · rw [if_neg (by omega), hprepared.unused hzero, Option.map_none]
        · rfl
      · rw [if_neg hzero] at hbase
        subst hbase
        split
        next hle =>
          rw [if_neg (by omega)]
          refine Option.map_congr fun record hrecord => ?_
          have hvalid := hprepared.valid (other - g.data.base) (by omega) record hrecord
          exact (IndexEntry.article_append hvalid article.overview other).symm
        · rfl
  · rw [usedAt_write, if_neg (by omega)] at hrecord
    have hbase' := hsame _ (Option.isSome_iff_exists.mpr ⟨record, hrecord⟩)
    exact ⟨hbase', hbase' ▸ hrecord⟩

theorem Prepared.store {article : Article} (hprepared : Prepared g live article.number)
    (hnumber : 1 ≤ article.number) (hoverview : article.overview ≠ []) :
    (g.store article).1 = true ∧ Holds (g.store article).2
    (update live article.number (some article)) := by
  rw [OpenGroup.store, tdxDataStore_eq hprepared.writable]
  dsimp only
  obtain ⟨base, hbase⟩ : ∃ base,
      base = if g.data.base = 0 then indexBase article.number else g.data.base := ⟨_, rfl⟩
  have hlow : base ≤ article.number := by
    rw [hbase, indexBase]
    have := hprepared.low
    split_ifs <;> omega
  have hne : base ≠ 0 := by
    rw [hbase]
    split
    · exact indexBase_ne_zero _
    next hne => exact hne
  rw [← hbase, if_neg (Nat.not_lt.mpr hlow)]
  refine ⟨rfl, ?_⟩
  obtain ⟨hwhole, hlive, hrest⟩ := hprepared.contents hoverview hbase hlow
  obtain ⟨hbase', hhigh', hinode'⟩ := note_eq g.entry base article.number
  dsimp only
  obtain ⟨files, hfiles, hnames, hdata, hindex⟩ : ∃ files : Files,
      (g.files.xwrite g.data.datafd article.overview).xpwrite g.data.indexfd (article.number - base)
        [recordOf (g.files.data g.data.datafd) article] = files ∧ files.names = g.files.names ∧
      files.data g.data.datafd = g.files.data g.data.datafd ++ article.overview ∧
      files.index g.data.indexfd =
        overwrite .zero (g.files.index g.data.indexfd) (article.number - base)
        [recordOf (g.files.data g.data.datafd) article] :=
    ⟨_, rfl, rfl, update_self .., update_self ..⟩
  rw [hfiles]
  rw [← hdata, ← hindex] at hwhole hlive
  rw [← hindex] at hrest
  have hother : ∀ other, (update live article.number (some article) other).isSome →
      other = article.number ∨ (live other).isSome := by
    intro other hsome
    rcases eq_or_ne other article.number with heq | hne
    · exact .inl heq
    · rw [update_of_ne hne] at hsome
      exact .inr hsome
  -- whatever is noted of the maps of the handle
  have hholds : ∀ flag, (flag = true ∨ g.data.high < base ∨ Coherent files { g.data with
        base := base
        datapos := (g.files.data g.data.datafd).length + article.overview.length
        remapoutoforder := flag } (update live article.number (some article))) →
      Holds
        { g with
          files := files
          entry := g.entry.note base article.number
          data :=
            { g.data with
              base := base
              datapos := (g.files.data g.data.datafd).length + article.overview.length
              remapoutoforder := flag } }
        (update live article.number (some article)) := by
    intro flag hfits
    exact
      { whole := hwhole
        holds := hlive
        unused := fun hzero => absurd hzero hne
        index := hprepared.index
        writable := hprepared.writable
        mmap := hprepared.mmap
        inode := hinode'.trans hprepared.inode
        idx := hnames ▸ hprepared.idx
        dat := hnames ▸ hprepared.dat
        base := by
          rw [hbase', hprepared.base]
          split
          · rfl
          next hused => rw [hbase, if_neg hused]
        high := fun other hsome => by
          rw [hhigh']
          rcases hother other hsome with rfl | hsome
          · exact Nat.le_max_right ..
          · exact (hprepared.high other hsome).trans (Nat.le_max_left ..)
        dataHigh := by
          rw [hhigh']
          exact hprepared.dataHigh.trans (Nat.le_max_left ..)
        baseHigh := by
          rw [hhigh']
          exact hlow.trans (Nat.le_max_right ..)
        fits := hfits }
  by_cases hout : g.data.high > article.number
  · rw [if_pos hout]
    exact hholds true (.inl rfl)
  · rw [if_neg hout]
    refine hholds g.data.remapoutoforder ?_
    rcases hprepared.fits with hflag | hlt | hgt | ⟨hunmapped, hcoherent⟩
    · exact .inl hflag
    · refine .inr (.inl ?_)
      rwa [hbase, if_neg (by omega)]
    · exact absurd hgt hout
    · refine .inr (.inr ⟨fun map hmap => ?_, fun map hmap => ?_⟩)
      · obtain ⟨hsame, hcovers⟩ := hcoherent.records map hmap
        refine ⟨hsame, fun other hsome hle => ?_⟩
        change other ≤ g.data.high at hle
        have hne : other ≠ article.number := by
          rintro rfl
          rw [(hunmapped (by omega)).1] at hmap
          cases hmap
        rw [update_of_ne hne] at hsome
        have hlt := hcovers other hsome hle
        have hused : g.data.base ≠ 0 := by
          intro hzero
          rw [hprepared.holds other hne, liveAt, hprepared.unused hzero, Option.map_none,
            ite_self] at hsome
          cases hsome
        rwa [hbase, if_neg hused]
      · obtain ⟨hsame, hinside⟩ := hcoherent.octets map hmap
        refine ⟨hsame, fun other hle hhigh record hrecord => ?_⟩
        change other ≤ g.data.high at hhigh
        have hne : other ≠ article.number := by
          rintro rfl
          rw [(hunmapped (by omega)).2] at hmap
          cases hmap
        obtain ⟨hbase', hrecord'⟩ := hrest other hne hle record hrecord
        exact hinside other (hbase' ▸ hle) hhigh record hrecord'

end Writing

end Inn.Tradindexed
