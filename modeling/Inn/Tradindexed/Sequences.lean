import Inn.Tradindexed.Expired
import Inn.Tradindexed.Simulation

/-!
# Sequences of additions

Repacking moves the records of a group to a new index file. A file of that name
that was left of an interrupted run is written over in part, and what is not
written over shows.
-/

namespace Inn.Tradindexed

open Foundation.Files Foundation.Runs
open Function (update)

section Repacking

variable {g : OpenGroup} {live : ArticleMap} {number : Nat}

def WrittenOver (g : OpenGroup) (number : Nat) : Prop :=
  ∀ place, (usedAt (g.files.indexAt .IDX_NEW) place).isSome →
    g.data.base - indexBase number ≤ place ∧
        place < g.data.base - indexBase number + (g.files.index g.data.indexfd).length ∨
      place + indexBase number = number

theorem entries_mapIndex {data : GroupData} {files : Files} (hmmap : data.mmap = true) :
    (data.mapIndex files).2.entries files = files.index data.indexfd := by
  rw [mapIndex_mmap hmmap, GroupData.entries]
  by_cases hempty : (files.index data.indexfd).length = 0
  · rw [if_pos hempty, List.eq_nil_of_length_eq_zero hempty]
    rfl
  · rw [if_neg hempty]
    exact List.take_length

theorem Holds.pack (hholds : Holds g live) (hbelow : number < g.data.base) :
    ∃ files data fd, tdxDataPackStart g.files g.data number = (true, files, data) ∧
      files.names .IDX_NEW = some fd ∧ files.names .DAT = some g.data.datafd ∧
      files.data g.data.datafd = g.files.data g.data.datafd ∧
      files.index fd = overwrite .zero (g.files.indexAt .IDX_NEW) (g.data.base - indexBase number)
        (g.files.index g.data.indexfd) ∧
      data.base = indexBase number ∧ data.indexinode = fd ∧ data.writable = true ∧
        data.mmap = true ∧
      data.datafd = g.data.datafd ∧ data.high = g.data.high ∧
        data.remapoutoforder = g.data.remapoutoforder := by
  obtain ⟨fd, files, hopen, hextends, hname⟩ := g.files.fileOpen_writable .IDX_NEW
  have hidx := hextends.names .IDX _ hholds.idx
  have hdat := hextends.names .DAT _ hholds.dat
  have hne : g.data.indexfd ≠ fd := by
    rintro rfl
    have := files.distinct .IDX .IDX_NEW _ hidx hname
    cases this
  have hindex : files.index g.data.indexfd = g.files.index g.data.indexfd := by
    rw [← Files.indexAt_of_names hidx, hextends.indexAt, Files.indexAt_of_names hholds.idx]
  have hdata : files.data g.data.datafd = g.files.data g.data.datafd := by
    rw [← Files.dataAt_of_names hdat, hextends.dataAt, Files.dataAt_of_names hholds.dat]
  have hleft : files.index fd = g.files.indexAt .IDX_NEW := by
    rw [← Files.indexAt_of_names hname, hextends.indexAt]
  have hmmap : g.data.unmapIndex.mmap = true := hholds.mmap
  have hentries :
      (g.data.unmapIndex.mapIndex files).2.entries files = g.files.index g.data.indexfd :=
    (entries_mapIndex hmmap).trans hindex
  rw [tdxDataPackStart, if_neg (by rw [hholds.writable]; decide), if_neg (by omega), hopen]
  dsimp only
  rw [hentries, mapIndex_mmap hmmap]
  refine ⟨_, _, fd, rfl, hname, hdat, hdata, ?_, rfl, rfl, hholds.writable, hholds.mmap,
    rfl, rfl, rfl⟩
  change update files.index fd _ fd = _
  rw [Function.update_self, hleft]

theorem pack_finish_eq {files : Files} {data : GroupData} {fd : Nat}
    (hwritable : data.writable = true) (hname : files.names .IDX_NEW = some fd) :
    tdxDataPackFinish files data =
      (true, files.rename .IDX_NEW .IDX,
        { data with indexfd := fd, indexpos := 0, indexinode := fd }) := by
  have hidx : (files.rename .IDX_NEW .IDX).names .IDX = some fd := by
    simp [Files.rename, update, hname]
  have hopen : (files.rename .IDX_NEW .IDX).fileOpen .IDX data.writable =
      (some fd, files.rename .IDX_NEW .IDX) := by
    rw [Files.fileOpen, hidx]
  rw [tdxDataPackFinish, if_neg (by rw [hwritable]; decide), if_neg (by simp [hname])]
  dsimp only
  rw [fileOpenIndex_eq data hopen]

theorem Holds.repack (hholds : Holds g live) (hbelow : number < g.data.base)
    (hleft : WrittenOver g number)
    (hmap : g.data.remapoutoforder = true ∨ g.data.high < indexBase number ∨ g.data.high > number)
    (hnumber : 1 ≤ number) :
    (g.repack number).1 = true ∧ Prepared (g.repack number).2 live number := by
  obtain ⟨files, data, fd, hstart, hname, hdat, hdata, hindex, hbase, hinode, hwritable, hmmap,
      hdatafd, hhigh, hflag⟩ :=
    hholds.pack hbelow
  have hlow : indexBase number ≤ number := by
    rw [indexBase]
    split_ifs <;> omega
  have hne := indexBase_ne_zero number
  have hused : ∀ other ≠ number, indexBase number ≤ other →
      usedAt (files.index fd) (other - indexBase number) =
        if g.data.base ≤ other then usedAt (g.files.index g.data.indexfd) (other - g.data.base)
          else none := by
    intro other hother hle
    rw [hindex, usedAt_overwrite]
    by_cases hinside :
      g.data.base - indexBase number ≤ other - indexBase number ∧ other - indexBase number <
        g.data.base - indexBase number + (g.files.index g.data.indexfd).length
    · rw [if_pos hinside, if_pos (by omega)]
      congr 1
      omega
    · have hnone : usedAt (g.files.indexAt .IDX_NEW) (other - indexBase number) = none := by
        by_contra hsome
        have := hleft _ (Option.ne_none_iff_isSome.mp hsome)
        omega
      rw [if_neg hinside, hnone]
      split
      next hle' =>
        symm
        by_contra hsome
        have := Stored.place_lt (Option.ne_none_iff_isSome.mp hsome)
        omega
      · rfl
  rw [OpenGroup.repack, if_pos (by rw [hholds.base]; exact hbelow), hstart]
  dsimp only
  rw [pack_finish_eq hwritable hname]
  refine ⟨rfl, ?_⟩
  exact
    { index := hholds.index
      writable := hwritable
      mmap := hmmap
      inode := hinode
      idx := by simp [Files.rename, update, hname]
      dat := by
        rw [hdatafd]
        simpa [Files.rename, update] using hdat
      base := rfl
      low := by
        rw [hbase]
        exact hlow
      valid := by
        intro place hplace record hrecord
        change place + data.base ≠ number at hplace
        change record ∈ usedAt (files.index fd) place at hrecord
        change record.Valid (files.data data.datafd)
        rw [hbase] at hplace
        rw [hdatafd, hdata]
        have hsame := hused _ hplace (Nat.le_add_left ..)
        rw [Nat.add_sub_cancel] at hsame
        rw [hsame] at hrecord
        split at hrecord
        · exact hholds.valid hrecord
        · cases hrecord
      holds := by
        intro other hother
        change live other = liveAt (files.data data.datafd) (files.index fd) data.base other
        rw [hdatafd, hdata, hbase, hholds.holds, liveAt, liveAt]
        by_cases hle : indexBase number ≤ other
        · rw [if_pos hle, hused other hother hle]
          split
          · rfl
          · rfl
        · rw [if_neg hle, if_neg (by omega)]
      unused := fun hzero => absurd (hbase.symm.trans hzero) hne
      high := hholds.high
      dataHigh := by
        rw [hhigh]
        exact hholds.dataHigh
      fits := by
        dsimp only
        rw [hflag, hhigh, hbase]
        exact hmap.imp_right (Or.imp_right .inl) }

def Permitted (g : OpenGroup) (number : Nat) : Prop :=
  if g.data.base > number then
    WrittenOver g number ∧ (g.data.remapoutoforder = true ∨ g.data.high < indexBase number ∨
      g.data.high > number)
  else g.data.remapoutoforder = true ∨
    (g.data.high = number → g.data.index = none ∧ g.data.data = none)

theorem Holds.prepared (hholds : Holds g live) (hlow : g.data.base ≤ number)
    (hmap : g.data.remapoutoforder = true ∨
      (g.data.high = number → g.data.index = none ∧ g.data.data = none)) :
    Prepared g live number :=
  { index := hholds.index
    writable := hholds.writable
    mmap := hholds.mmap
    inode := hholds.inode
    idx := hholds.idx
    dat := hholds.dat
    base := hholds.base
    low := hlow
    valid := fun _ _ _ hrecord => hholds.valid hrecord
    holds := fun other _ => congrFun hholds.holds other
    unused := hholds.unused
    high := hholds.high
    dataHigh := hholds.dataHigh
    fits := by
      rcases hholds.fits with hflag | hlow | hcoherent
      · exact .inl hflag
      · exact .inr (.inl hlow)
      · exact hmap.imp_right fun hunmapped => .inr (.inr ⟨hunmapped, hcoherent⟩) }

theorem Holds.add {article : Article} (hholds : Holds g live)
    (hpermitted : Permitted g article.number)
    (hnumber : 1 ≤ article.number) (hoverview : article.overview ≠ []) :
    (g.tdxDataAdd article).1 = true ∧
      Holds (g.tdxDataAdd article).2 (update live article.number (some article)) := by
  have hrefresh : g.refresh = (true, g) := by
    rw [OpenGroup.refresh, if_neg (not_not.mpr hholds.inode)]
  obtain ⟨hrepack, hprepared⟩ : (g.repack article.number).1 = true ∧
      Prepared (g.repack article.number).2 live article.number := by
    rw [Permitted] at hpermitted
    split at hpermitted
    next hbelow => exact hholds.repack hbelow hpermitted.1 hpermitted.2 hnumber
    next hlow =>
      rw [OpenGroup.repack, if_neg (by rw [hholds.base]; exact hlow)]
      exact ⟨rfl, hholds.prepared (Nat.le_of_not_lt hlow) hpermitted⟩
  rw [OpenGroup.tdxDataAdd, if_neg (by rw [hholds.index]; decide), hrefresh]
  dsimp only
  rw [show g.repack article.number = (true, (g.repack article.number).2) from Prod.ext hrepack rfl]
  exact hprepared.store hnumber hoverview

/-- A cancel up to the mark of the handle takes the article away, if there is one. -/
theorem Holds.cancelled (hholds : Holds g live)
    (hreached : number ≤ g.data.high ∨ live number = none) :
    Holds (g.cancel number).2 (update live number none) := by
  have hcancel := hholds.cancel number
  cases hdone : (g.cancel number).1 with
  | true =>
    rw [hdone, if_pos rfl] at hcancel
    exact hcancel
  | false =>
    rw [hdone, if_neg Bool.false_ne_true] at hcancel
    have houtside : g.data.base = 0 ∨ number < g.data.base ∨ number > g.data.high := by
      by_contra hinside
      rw [OpenGroup.cancel, tdxDataCancel, if_neg (by rw [hholds.writable]; decide),
        if_neg hinside] at hdone
      exact Bool.false_ne_true hdone.symm
    have hnone : live number = none := by
      rcases hreached with hle | hnone
      · rw [hholds.holds, liveAt]
        rcases houtside with hzero | hbelow | habove
        · rw [hholds.unused hzero, Option.map_none, ite_self]
        · rw [if_neg (Nat.not_le.mpr hbelow)]
        · exact absurd hle (Nat.not_le.mpr habove)
      · exact hnone
    rwa [← hnone, Function.update_eq_self]

end Repacking

section Running

inductive Action
  | add (article : Article)
  | cancel (number : Nat)
  | search (memory : Memory) (low high : Nat)

/-- A group, and the articles that were added to it last and not cancelled. -/
abbrev Tracked := OpenGroup × ArticleMap

def Tracked.step (group : Tracked) : Action → Except Article Tracked
  | .add article =>
    match group.1.tdxDataAdd article with
    | (false, _) => .error article
    | (true, g) => .ok (g, update group.2 article.number (some article))
  | .cancel number => .ok ((group.1.cancel number).2, update group.2 number none)
  | .search memory low high => .ok ((group.1.search memory low high).2, group.2)

def Tracked.Permits (group : Tracked) : Action → Prop
  | .add article => 1 ≤ article.number ∧ article.overview ≠ [] ∧ Permitted group.1 article.number
  -- the handle takes no notice of numbers above its high water mark
  | .cancel number => number ≤ group.1.data.high ∨ group.2 number = none
  | .search _ _ _ => True

theorem Tracked.step_holds (group : Tracked) (action : Action) (hholds : Holds group.1 group.2)
    (hpermits : group.Permits action) :
    ∃ group', group.step action = .ok group' ∧ Holds group'.1 group'.2 := by
  cases action with
  | add article =>
    obtain ⟨hnumber, hoverview, hpermitted⟩ := hpermits
    obtain ⟨hadded, hholds'⟩ := hholds.add hpermitted hnumber hoverview
    refine ⟨((group.1.tdxDataAdd article).2, update group.2 article.number (some article)), ?_,
      hholds'⟩
    rw [Tracked.step, show group.1.tdxDataAdd article = (true, _) from Prod.ext hadded rfl]
  | cancel number => exact ⟨_, rfl, hholds.cancelled hpermits⟩
  | search memory low high => exact ⟨_, rfl, (hholds.search memory low high).2⟩

theorem Coherent.unmapped {files : Files} {data : GroupData} {live : ArticleMap}
    (hindex : data.index = none) (hdata : data.data = none) : Coherent files data live where
  records map hmap := by
    rw [hindex] at hmap
    cases hmap
  octets map hmap := by
    rw [hdata] at hmap
    cases hmap

theorem create_holds {files : Files} (low high : Nat)
    (hempty : ∀ place, usedAt (files.indexAt .IDX) place = none) :
    ∃ g, OpenGroup.create files low high true = some g ∧ Holds g fun _ => none := by
  obtain ⟨files₁, data₁, hopen₁, hextends₁, hopened₁, -⟩ :=
    openFiles_writable files (show (GroupData.new true true).writable = true from rfl)
  rw [OpenGroup.create, hopen₁]
  dsimp only
  generalize hentry : ({ GroupEntry.zero with
    low := if low = 0 ∧ high ≠ 0 then high + 1 else low
    high := high
    indexinode := data₁.indexinode } : GroupEntry) = entry
  obtain ⟨files₂, data₂, hopen₂, hextends₂, hopened₂, hhigh₂, hbase₂, hmmap₂⟩ :=
    tdxDataOpen_writable files₁ entry true
  rw [hopen₂]
  refine ⟨_, rfl, ?_⟩
  have hzero : entry.base = 0 := by rw [← hentry]; rfl
  have hunused : ∀ place, usedAt (files₂.index data₂.indexfd) place = none := by
    intro place
    rw [← Files.indexAt_of_names hopened₂.idx, hextends₂.indexAt, hextends₁.indexAt]
    exact hempty place
  have hsame : data₂.indexfd = data₁.indexfd :=
    Option.some.inj (hopened₂.idx.symm.trans (hextends₂.names .IDX _ hopened₁.idx))
  exact
    { whole := whole_iff.mpr fun place record hrecord => by
        rw [hunused] at hrecord
        cases hrecord
      holds := funext fun number => by
        rw [liveAt]
        dsimp only
        rw [hunused, Option.map_none, ite_self]
      unused := fun _ => hunused
      index := rfl
      writable := hopened₂.writable
      mmap := hmmap₂
      inode := by
        rw [← hentry]
        exact (hopened₁.inode.trans hsame.symm).trans hopened₂.inode.symm
      idx := hopened₂.idx
      dat := hopened₂.dat
      base := hbase₂.symm
      high := nofun
      dataHigh := hhigh₂.le
      baseHigh := by
        rw [hbase₂, hzero]
        exact Nat.zero_le _
      fits := .inr (.inr (.unmapped hopened₂.noIndex hopened₂.noData)) }

/-- A group that has been created in files without records delivers what was added last and not
cancelled, after any sequence of additions that go well, cancels up to the handle's mark and
searches. -/
theorem tdx_search_delivers {files : Files} (low high : Nat)
    (hempty : ∀ place, usedAt (files.indexAt .IDX) place = none) :
    ∃ g, OpenGroup.create files low high true = some g ∧
      ∀ actions, Meets Tracked.step Tracked.Permits actions (g, fun _ => none) →
        ∃ g' live, run Tracked.step actions (g, fun _ => none) = .ok (g', live) ∧
          ∀ memory start stop, (g'.search memory start stop).1 =
            (live.range start stop).map fun article => ⟨article, true⟩ := by
  obtain ⟨g, hcreate, hholds⟩ := create_holds low high hempty
  refine ⟨g, hcreate, fun actions hmeets => ?_⟩
  obtain ⟨⟨g', live⟩, hrun, hholds'⟩ := run_invariant
    (fun group action (hinv : Holds group.1 group.2) =>
      group.step_holds action hinv) actions hmeets hholds
  exact ⟨g', live, hrun, fun memory start stop => (hholds'.search memory start stop).1⟩

def interrupted (left : Option (List IndexEntry)) : Files where
  names suffix := if suffix = .IDX_NEW then left.map fun _ => 0 else none
  index file := if file = 0 then left.getD [] else []
  data _ := []
  inode := 1
  named suffix file hfile := by
    split at hfile
    · obtain ⟨-, -, rfl⟩ := Option.map_eq_some_iff.mp hfile
      exact Nat.zero_lt_one
    · cases hfile
  distinct first second file hfirst hsecond := by
    split at hfirst
    next hfst =>
      split at hsecond
      next hsnd => exact hfst.trans hsnd.symm
      · cases hsecond
    · cases hfirst

def twoHundred : Article := ⟨200, [65, 66], ⟨List.replicate 18 2, rfl⟩, 7, 0⟩

theorem ones_length : (List.replicate 18 1 : List UInt8).length = 18 := rfl

def fifty : Article := ⟨50, [67], ⟨List.replicate 18 1, ones_length⟩, 8, 0⟩

/-- The second article makes room for itself below the first, which is cancelled once it has been
found. -/
def repacked : List Action := [.add twoHundred, .add fifty, .search nowhere 1 300, .cancel 200]

set_option maxRecDepth 4000 in
theorem tdx_search_delivers_repacked :
    ∃ g g' live, OpenGroup.create (interrupted none) 0 0 true = some g ∧
      run Tracked.step repacked (g, fun _ => none) = .ok (g', live) ∧
      (g'.search nowhere 1 300).1 = [⟨fifty, true⟩] := by
  have hempty : ∀ place, usedAt ((interrupted none).indexAt .IDX) place = none := fun _ => rfl
  obtain ⟨g, hcreate, hdelivers⟩ := tdx_search_delivers 0 0 hempty
  have hmeets : Meets Tracked.step Tracked.Permits repacked (g, fun _ => none) := by
    obtain rfl := Option.some.inj hcreate
    refine ⟨⟨by decide, by decide, ?_⟩, fun added hadded => ⟨⟨by decide, by decide, ?_⟩,
      fun packed hpacked => ⟨trivial, fun searched hsearched => ⟨.inl ?_, fun _ _ => trivial⟩⟩⟩⟩
    · rw [Permitted, if_neg (by decide)]
      exact .inr fun heq => absurd heq (by decide)
    · obtain rfl := Except.ok.inj hadded
      rw [Permitted, if_pos (by decide)]
      exact ⟨fun _ hsome => absurd (show false = true from hsome) Bool.false_ne_true,
        .inr (.inl (by decide))⟩
    · obtain rfl := Except.ok.inj hadded
      obtain rfl := Except.ok.inj hpacked
      obtain rfl := Except.ok.inj hsearched
      decide
  obtain ⟨g', live, hrun, hsearch⟩ := hdelivers _ hmeets
  refine ⟨g, g', live, hcreate, hrun, (hsearch nowhere 1 300).trans ?_⟩
  obtain rfl := Option.some.inj hcreate
  obtain ⟨-, rfl⟩ := Prod.mk.inj (Except.ok.inj hrun)
  decide

set_option maxRecDepth 4000 in
/-- A record that was left of an interrupted run shows once the group has been repacked. -/
theorem tdx_search_delivers_left :
    ¬∀ (files : Files) (low high : Nat) (g g' : OpenGroup) (live : ArticleMap)
      (actions : List Action),
      OpenGroup.create files low high true = some g →
      (∀ article, .add article ∈ actions → 1 ≤ article.number ∧ article.overview ≠ []) →
      run Tracked.step actions (g, fun _ => none) = .ok (g', live) →
      ∀ memory start stop, (g'.search memory start stop).1 =
        (live.range start stop).map fun article => ⟨article, true⟩ := by
  intro hall
  have hsame :=
    hall (interrupted (some (List.replicate 4 .zero ++ [⟨0, 2, 9, 0, ⟨List.replicate 18 3, rfl⟩⟩])))
    0 0 _ _ _
    [.add twoHundred, .add fifty] rfl (by simp [twoHundred, fifty]) rfl nowhere 1 300
  revert hsame
  decide

end Running

end Inn.Tradindexed
