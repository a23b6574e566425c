import Inn.Storage.Timehash

/-!
# Walking over the articles of timehash

The walk reads four levels of directories, and takes whatever has a name that an article could
have for one. After any run of stores and cancels it gives the live articles, when there is
nothing in the directories that looks like an article and is none.
-/

namespace Inn.Storage.Timehash

open Foundation.Walking
open Function (update update_self update_of_ne)

structure Tree where
  top : Option (List (DirEntry (DirEntry (DirEntry Octets))))
  topNames : ((top.getD []).map DirEntry.name).Nodup
  secNames : ∀ dir ∈ top.getD [], ((dir.entries.getD []).map DirEntry.name).Nodup
  terNames : ∀ dir ∈ top.getD [], ∀ sub ∈ dir.entries.getD [],
    ((sub.entries.getD []).map DirEntry.name).Nodup
  artNames : ∀ dir ∈ top.getD [], ∀ sub ∈ dir.entries.getD [], ∀ third ∈ sub.entries.getD [],
    (third.entries.getD []).Nodup

def Tree.Has (tree : Tree) (path : Path) : Prop :=
  ∃ dir ∈ tree.top.getD [], dir.name = path.top ∧ isTopdir dir.name ∧
    ∃ sub ∈ dir.entries.getD [], sub.name = path.sec ∧ isDir sub.name ∧
      ∃ third ∈ sub.entries.getD [], third.name = path.ter ∧ isDir third.name ∧
        path.art ∈ third.entries.getD [] ∧ isArt path.art

def arts : Walk (List Path) Path := Walk.find fun path => if isArt path.art then some path else none

def enterTer (entry : Octets × Octets × DirEntry Octets) : Option (List Path) :=
  if isDir entry.2.2.name then
    entry.2.2.entries.map fun names => names.map fun art =>
      ⟨entry.1, entry.2.1, entry.2.2.name, art⟩
  else none

abbrev TerPlace := Option (List Path) × List (Octets × Octets × DirEntry Octets)

def enterSec (entry : Octets × DirEntry (DirEntry Octets)) : Option TerPlace :=
  if isDir entry.2.name then entry.2.entries.map fun subs =>
    (none, subs.map fun sub => (entry.1, entry.2.name, sub))
  else none

abbrev SecPlace := Option TerPlace × List (Octets × DirEntry (DirEntry Octets))

def enterTop (dir : DirEntry (DirEntry (DirEntry Octets))) : Option SecPlace :=
  if isTopdir dir.name then dir.entries.map fun subs =>
    (none, subs.map fun sub => (dir.name, sub)) else none

abbrev TopPlace := Option SecPlace × List (DirEntry (DirEntry (DirEntry Octets)))

def walk : Walk TopPlace Path := ((arts.nest enterTer).nest enterSec).nest enterTop

def Tree.articles (tree : Tree) : List Path := walk.contents (none, tree.top.getD [])

inductive Fault
  | nullPointer
  deriving DecidableEq

def releasePrevious (tree : Tree) : Option TopPlace → Except Fault TopPlace
  | none => .ok (none, tree.top.getD [])
  | some place => .ok place

def makeHandle (articlemmap : Bool) (files : Path → Option Octets) (amount : RetrType) (path : Path)
    (place : TopPlace) :
    Except Fault (Option TopPlace) :=
  match OpenArticle articlemmap files path amount with
  | none => .ok (some place)
  | some _ => if amount = .RETR_STAT then .error .nullPointer else .ok (some place)

def timehashNext (articlemmap : Bool) (files : Path → Option Octets) (tree : Tree)
    (amount : RetrType) :
    Option TopPlace → Except Fault (Option (Path × Option TopPlace)) :=
  walkStep walk (releasePrevious tree) (makeHandle articlemmap files amount)

section Contents

variable {tree : Tree} {path : Path}

theorem mem_arts {place : List Path} :
    path ∈ arts.contents place ↔ path ∈ place ∧ isArt path.art := by
  change path ∈ place.filterMap (fun path => if isArt path.art then some path else none) ↔ _
  rw [List.mem_filterMap]
  constructor
  · rintro ⟨path', hmem, hpath⟩
    split at hpath
    next hart =>
      cases hpath
      exact ⟨hmem, hart⟩
    next => cases hpath
  · rintro ⟨hmem, hart⟩
    exact ⟨path, hmem, if_pos hart⟩

theorem mem_enterTer {top sec : Octets} {third : DirEntry Octets} :
    (∃ place, enterTer (top, sec, third) = some place ∧ path ∈ arts.contents place) ↔
      top = path.top ∧ sec = path.sec ∧ third.name = path.ter ∧ isDir third.name ∧
        path.art ∈ third.entries.getD [] ∧ isArt path.art := by
  simp only [mem_arts]
  unfold enterTer
  constructor
  · rintro ⟨place, henter, hmem, hart⟩
    split at henter
    next hdir =>
      obtain ⟨names, hnames, rfl⟩ := Option.map_eq_some_iff.mp henter
      obtain ⟨art, hname, rfl⟩ := List.mem_map.mp hmem
      rw [hnames]
      exact ⟨rfl, rfl, rfl, hdir, hname, hart⟩
    next => cases henter
  · rintro ⟨rfl, rfl, hname, hdir, hmem, hart⟩
    cases hnames : third.entries with
    | none =>
      rw [hnames] at hmem
      cases hmem
    | some names =>
      rw [hnames] at hmem
      refine ⟨_, by rw [if_pos hdir]; rfl, List.mem_map.mpr ⟨path.art, hmem, ?_⟩, hart⟩
      rw [hname]

theorem mem_enterSec {top : Octets} {dir : DirEntry (DirEntry Octets)} :
    (∃ place, enterSec (top, dir) = some place ∧ path ∈ (arts.nest enterTer).contents place) ↔
      top = path.top ∧ dir.name = path.sec ∧ isDir dir.name ∧
        ∃ third ∈ dir.entries.getD [], third.name = path.ter ∧ isDir third.name ∧
          path.art ∈ third.entries.getD [] ∧ isArt path.art := by
  unfold enterSec
  rw [mem_directory]
  simp only [mem_enterTer]
  constructor
  · rintro ⟨hdir, third, hthird, htop, hsec, hrest⟩
    exact ⟨htop, hsec, hdir, third, hthird, hrest⟩
  · rintro ⟨htop, hsec, hdir, third, hthird, hrest⟩
    exact ⟨hdir, third, hthird, htop, hsec, hrest⟩

theorem mem_enterTop {dir : DirEntry (DirEntry (DirEntry Octets))} :
    (∃ place, enterTop dir = some place ∧
      path ∈ ((arts.nest enterTer).nest enterSec).contents place) ↔
      dir.name = path.top ∧ isTopdir dir.name ∧ ∃ sub ∈ dir.entries.getD [], sub.name = path.sec ∧
        isDir sub.name ∧
        ∃ third ∈ sub.entries.getD [], third.name = path.ter ∧ isDir third.name ∧
          path.art ∈ third.entries.getD [] ∧ isArt path.art := by
  unfold enterTop
  rw [mem_directory]
  simp only [mem_enterSec]
  constructor
  · rintro ⟨htopdir, sub, hsub, htop, hrest⟩
    exact ⟨htop, htopdir, sub, hsub, hrest⟩
  · rintro ⟨htop, htopdir, sub, hsub, hrest⟩
    exact ⟨htopdir, sub, hsub, htop, hrest⟩

theorem Tree.mem_articles : path ∈ tree.articles ↔ tree.Has path := by
  unfold Tree.articles walk Tree.Has
  rw [mem_nest_start]
  simp only [mem_enterTop]

theorem arts_nodup {place : List Path} (hplace : place.Nodup) : (arts.contents place).Nodup := by
  refine List.Nodup.filterMap (fun a b c ha hb => ?_) hplace
  have hself {path c : Path} (h : c ∈ (if isArt path.art then some path else none)) : path = c := by
    split at h
    · exact Option.some.inj h
    · cases h
  exact (hself ha).trans (hself hb).symm

theorem enterTer_nodup {top sec : Octets} {third : DirEntry Octets} {place : List Path}
    (hnames : (third.entries.getD []).Nodup)
    (henter : enterTer (top, sec, third) = some place) : (arts.contents place).Nodup := by
  unfold enterTer at henter
  split at henter
  next =>
    obtain ⟨names, hentries, rfl⟩ := Option.map_eq_some_iff.mp henter
    dsimp only at hentries
    rw [hentries, Option.getD_some] at hnames
    exact arts_nodup (hnames.map fun a b hsame => congrArg Path.art hsame)
  next => cases henter

theorem Tree.articles_nodup (tree : Tree) : tree.articles.Nodup := by
  refine nest_start_nodup DirEntry.name Path.top tree.topNames fun dir hdir place henter => ⟨?_, ?_⟩
  · refine directory_nodup DirEntry.name Path.sec (tree.secNames dir hdir)
      (fun sub hsub place henter => ⟨?_, ?_⟩) henter
    · refine directory_nodup DirEntry.name Path.ter (tree.terNames dir hdir sub hsub)
        (fun third hthird place henter =>
          ⟨enterTer_nodup (tree.artNames dir hdir sub hsub third hthird) henter, ?_⟩) henter
      intro path hpath
      exact (mem_enterTer.mp ⟨place, henter, hpath⟩).2.2.1.symm
    · intro path hpath
      exact (mem_enterSec.mp ⟨place, henter, hpath⟩).2.1.symm
  · intro path hpath
    exact (mem_enterTop.mp ⟨place, henter, hpath⟩).1.symm

theorem timehashNext_runs {articlemmap : Bool} {files : Path → Option Octets} {amount : RetrType}
    {given : List Path} :
    Runs (timehashNext articlemmap files tree amount) none given ↔
      (∀ path ∈ tree.articles, ¬(amount = .RETR_STAT ∧ (files path).isSome)) ∧
        given = tree.articles := by
  refine runs_walkStep_iff (fun path => ¬(amount = .RETR_STAT ∧ (files path).isSome)) ?_ ?_
    (rfl : releasePrevious tree none = .ok (none, tree.top.getD []))
  · intro path place hgood
    refine ⟨some place, ?_, rfl⟩
    unfold makeHandle
    split
    next => rfl
    next art hopen =>
      refine if_neg fun hamount => hgood ⟨hamount, ?_⟩
      obtain ⟨file, hfile, _⟩ := Option.bind_eq_some_iff.mp hopen
      rw [hfile]
      rfl
  · intro path place h hbad hmake
    obtain ⟨hamount, hfile⟩ := not_not.mp hbad
    obtain ⟨file, hfile⟩ := Option.isSome_iff_exists.mp hfile
    subst hamount
    unfold makeHandle OpenArticle at hmake
    rw [hfile] at hmake
    cases hmake

end Contents

section Working

variable {start s : Spool} {status : Token → Status} {tree : Tree} {articlemmap : Bool}
    {amount : RetrType}

/-- Stored articles are retrieved, and the walk gives each once. -/
structure Works (s : Spool) (status : Token → Status) (tree : Tree) (articlemmap : Bool)
    (amount : RetrType) : Prop where
  retrieved : ∀ token octets, status token = .live octets →
    ∃ art, s.timehashRetrieve articlemmap token .RETR_ALL = some (art, token.arrival) ∧
      art.octets = octets
  cancelled : ∀ token, status token = .cancelled →
    ∀ amount, s.timehashRetrieve articlemmap token amount = none
  stored : ∀ tokenclass arrived now octets token,
    (s.timehashStore tokenclass arrived now octets).1 = some token →
    (∀ octets, status token ≠ .live octets) ∧ token.tokenclass = tokenclass ∧
      token.arrival = if arrived = 0 then now else arrived
  room : ∀ tokenclass arrived now octets,
    (∃ seq : UInt16, s.files
      (MakePath (if arrived = 0 then now else arrived).toNat seq.toNat tokenclass.toNat) = none) →
      (s.timehashStore tokenclass arrived now octets).1.isSome
  iterated : ∃ given, Runs (timehashNext articlemmap s.files tree amount) none given ∧
    (given.map PathToToken).Nodup ∧
    ∀ token, token ∈ given.map PathToToken ↔ ∃ octets, status token = .live octets

structure Proper (status : Token → Status) (tree : Tree) (articlemmap : Bool)
    (amount : RetrType) : Prop where
  mapped : articlemmap = true → ∀ token, status token ≠ .live []
  handles : amount = .RETR_STAT → ∀ token octets, status token ≠ .live octets
  known : ∀ path, tree.Has path → ∃ token octets, status token = .live octets ∧ path = token.path

theorem live_file (hrun : Run start s status) {token : Token} {octets : Octets}
    (hlive : status token = .live octets) :
    s.files token.path = some octets := by
  have hagrees := run_agrees hrun token
  rw [hlive] at hagrees
  exact hagrees

theorem live_has (hrun : Run start s status)
    (hshows : ∀ path, path.Taken → (s.files path).isSome → tree.Has path)
    {token : Token} {octets : Octets} (hlive : status token = .live octets) :
    tree.Has token.path := by
  refine hshows token.path (MakePath_taken _ _ _) ?_
  rw [live_file hrun hlive]
  rfl

theorem retrieve_live (hrun : Run start s status) {token : Token} {octets : Octets}
    (hlive : status token = .live octets) :
    (∃ art, s.timehashRetrieve articlemmap token .RETR_ALL = some (art, token.arrival) ∧
      art.octets = octets) ↔
      ¬(articlemmap = true ∧ octets = []) := by
  unfold Spool.timehashRetrieve OpenArticle timehashOpenArticle sliceWhole
  rw [live_file hrun hlive, Option.bind_some, if_neg nofun, if_pos rfl]
  split
  next hempty =>
    refine ⟨?_, fun h => absurd hempty h⟩
    rintro ⟨_, hnone, _⟩
    cases hnone
  next hmapped =>
    refine ⟨fun _ => hmapped, fun _ => ⟨_, rfl, ?_⟩⟩
    unfold ArtHandle.octets
    rw [List.drop_zero, List.take_length]

theorem store_fresh (hrun : Run start s status) {tokenclass : UInt8} {arrived now : UInt32}
    {octets : Octets} {token : Token}
    (hstore : (s.timehashStore tokenclass arrived now octets).1 = some token) :
    (∀ octets, status token ≠ .live octets) ∧ token.tokenclass = tokenclass ∧
      token.arrival = if arrived = 0 then now else arrived := by
  rcases store_cases s tokenclass arrived now octets with ⟨hnone, _⟩ | ⟨token', hsome, hfree,
    hclass, harrival, _⟩
  · rw [hnone] at hstore
    cases hstore
  · cases hsome.symm.trans hstore
    refine ⟨fun octets hlive => ?_, hclass, harrival⟩
    rw [live_file hrun hlive] at hfree
    cases hfree

/-- After any run of stores and cancels, tokens and articles go together and the walk gives the live
articles, exactly when nothing improper is asked for or found. -/
theorem works_iff (hrun : Run start s status)
    (hshows : ∀ path, path.Taken → (s.files path).isSome → tree.Has path) :
    Works s status tree articlemmap amount ↔ Proper status tree articlemmap amount := by
  constructor
  · intro hworks
    obtain ⟨given, hruns, hnodup, hgiven⟩ := hworks.iterated
    obtain ⟨hgood, rfl⟩ := timehashNext_runs.mp hruns
    refine ⟨fun hmmap token hlive => ?_, fun hamount token octets hlive => ?_, fun path hhas => ?_⟩
    · exact (retrieve_live hrun hlive).mp (hworks.retrieved token [] hlive) ⟨hmmap, rfl⟩
    · refine hgood token.path (Tree.mem_articles.mpr (live_has hrun hshows hlive)) ⟨hamount, ?_⟩
      rw [live_file hrun hlive]
      rfl
    · have hpath := Tree.mem_articles.mpr hhas
      obtain ⟨octets, hlive⟩ := (hgiven _).mp (List.mem_map_of_mem hpath)
      refine ⟨_, octets, hlive, ?_⟩
      -- another path for the same token would be given beside this one
      refine List.inj_on_of_nodup_map hnodup hpath
        (Tree.mem_articles.mpr (live_has hrun hshows hlive)) ?_
      exact (PathToToken_path _).symm
  · intro hproper
    refine ⟨fun token octets hlive => ?_, fun token hcancelled amount => ?_,
      fun _ _ _ _ _ => store_fresh hrun,
      fun _ _ _ _ ⟨seq, hfree⟩ => store_isSome hfree, tree.articles, ?_, ?_, fun token => ?_⟩
    · refine (retrieve_live hrun hlive).mpr ?_
      rintro ⟨hmmap, rfl⟩
      exact hproper.mapped hmmap token hlive
    · have hagrees := run_agrees hrun token
      rw [hcancelled] at hagrees
      unfold Spool.timehashRetrieve OpenArticle
      rw [hagrees]
      rfl
    · refine timehashNext_runs.mpr ⟨fun path hpath hstat => ?_, rfl⟩
      obtain ⟨token, octets, hlive, _⟩ := hproper.known path (Tree.mem_articles.mp hpath)
      exact hproper.handles hstat.1 token octets hlive
    · refine tree.articles_nodup.map_on fun path hpath other hother hsame => ?_
      obtain ⟨_, _, _, rfl⟩ := hproper.known path (Tree.mem_articles.mp hpath)
      obtain ⟨_, _, _, rfl⟩ := hproper.known other (Tree.mem_articles.mp hother)
      rw [PathToToken_path, PathToToken_path] at hsame
      rw [hsame]
    · rw [List.mem_map]
      constructor
      · rintro ⟨path, hpath, rfl⟩
        obtain ⟨token, octets, hlive, rfl⟩ := hproper.known path (Tree.mem_articles.mp hpath)
        rw [PathToToken_path]
        exact ⟨octets, hlive⟩
      · rintro ⟨octets, hlive⟩
        exact ⟨token.path, Tree.mem_articles.mpr (live_has hrun hshows hlive),
          PathToToken_path token⟩

def emptySpool : Spool := ⟨fun _ => none, 0⟩

def firstToken : Token := ⟨0, 1, 0⟩

def secondToken : Token := ⟨0, 1, 1⟩

def storeFirst : Event := .store 0 1 1 [104, 105]

def storeSecond : Event := .store 0 1 1 [111, 107]

/-- The directories of one article. -/
def singleTree (token : Token) : Tree where
  top := some [⟨token.path.top,
    some [⟨token.path.sec, some [⟨token.path.ter, some [token.path.art]⟩]⟩]⟩]
  topNames := List.nodup_singleton _
  secNames := by
    intro dir hdir
    obtain rfl := List.mem_singleton.mp hdir
    exact List.nodup_singleton _
  terNames := by
    intro dir hdir sub hsub
    obtain rfl := List.mem_singleton.mp hdir
    obtain rfl := List.mem_singleton.mp hsub
    exact List.nodup_singleton _
  artNames := by
    intro dir hdir sub hsub third hthird
    obtain rfl := List.mem_singleton.mp hdir
    obtain rfl := List.mem_singleton.mp hsub
    obtain rfl := List.mem_singleton.mp hthird
    exact List.nodup_singleton _

theorem singleTree_has (token : Token) : (singleTree token).Has token.path := by
  obtain ⟨htop, hsec, hter, hart⟩ : token.path.Taken := MakePath_taken _ _ _
  exact ⟨_, List.mem_singleton_self _, rfl, htop, _, List.mem_singleton_self _, rfl, hsec,
    _, List.mem_singleton_self _, rfl, hter, List.mem_singleton_self _, hart⟩

theorem singleTree_of_has {token : Token} {path : Path} (hhas : (singleTree token).Has path) :
    path = token.path := by
  obtain ⟨dir, hdir, htop, -, sub, hsub, hsec, -, third, hthird, hter, -, hart, -⟩ := hhas
  obtain rfl := List.mem_singleton.mp hdir
  obtain rfl := List.mem_singleton.mp hsub
  obtain rfl := List.mem_singleton.mp hthird
  obtain ⟨top, sec, ter, art⟩ := path
  obtain rfl := List.mem_singleton.mp hart
  dsimp only at htop hsec hter
  subst htop hsec hter
  rfl

theorem singleTree_shows {token : Token} {octets : Octets} {path : Path}
    (hfile : ((update emptySpool.files token.path (some octets)) path).isSome) :
    (singleTree token).Has path := by
  by_cases hpath : path = token.path
  · rw [hpath]
    exact singleTree_has token
  · rw [update_of_ne hpath] at hfile
    cases hfile

def secondLeft : Token → Status :=
  update (update (update (fun _ => .unknown) firstToken (.live [104, 105])) secondToken
    (.live [111, 107])) firstToken
    .cancelled

theorem secondLeft_live {token : Token} {octets : Octets} (h : secondLeft token = .live octets) :
    token = secondToken ∧ octets = [111, 107] := by
  unfold secondLeft at h
  by_cases hfirst : token = firstToken
  · rw [hfirst, update_self] at h
    cases h
  by_cases hsecond : token = secondToken
  · rw [update_of_ne hfirst, hsecond, update_self] at h
    exact ⟨hsecond, (Status.live.inj h).symm⟩
  · rw [update_of_ne hfirst, update_of_ne hsecond, update_of_ne hfirst] at h
    cases h

/-- Two articles that arrive in one second get tokens of their own, and once the first is cancelled
the second is retrieved, the first is not, and the walk gives the second alone. -/
theorem works_second :
    ∃ s status, Run emptySpool s status ∧ status firstToken = .cancelled ∧
      status secondToken = .live [111, 107] ∧
      Works s status (singleTree secondToken) true .RETR_ALL := by
  have hstart : Run emptySpool _ _ := .start
  have hrun := Run.step (.step (.step hstart storeFirst) storeSecond) (.cancel firstToken)
  have hstatus : record ((emptySpool.step storeFirst).step storeSecond)
      (record (emptySpool.step storeFirst)
        (record emptySpool (fun _ => .unknown) storeFirst) storeSecond)
      (.cancel firstToken) = secondLeft := rfl
  refine ⟨_, _, hrun, ?_, ?_,
    (works_iff hrun fun path _ hfile => ?_).mpr ⟨fun _ token h => ?_, nofun, fun path hhas => ?_⟩⟩
  · rw [hstatus, secondLeft, update_self]
  · rw [hstatus, secondLeft, update_of_ne (by decide), update_self]
  · have hfiles :
        (((emptySpool.step storeFirst).step storeSecond).step (.cancel firstToken)).files =
        update (update (update emptySpool.files firstToken.path (some [104, 105])) secondToken.path
          (some [111, 107]))
          firstToken.path none := rfl
    rw [hfiles] at hfile
    have hother : path ≠ firstToken.path := by
      rintro rfl
      rw [update_self] at hfile
      cases hfile
    have hsecond : (update emptySpool.files secondToken.path (some [111, 107]) path).isSome := by
      rw [update_of_ne hother] at hfile
      by_cases hpath : path = secondToken.path
      · rw [hpath, update_self]
        rfl
      · rw [update_of_ne hpath, update_of_ne hother] at hfile
        cases hfile
    exact singleTree_shows hsecond
  · rw [hstatus] at h
    exact absurd (secondLeft_live h).2 (by decide)
  · refine ⟨secondToken, [111, 107], ?_, singleTree_of_has hhas⟩
    rw [hstatus, secondLeft, update_of_ne (by decide), update_self]

/-- The handle of an article that is only looked for has no place to keep the walk in. -/
theorem not_works_stat :
    ∃ s status, Run emptySpool s status ∧
      (∀ path, (s.files path).isSome → (singleTree firstToken).Has path) ∧
      ¬Works s status (singleTree firstToken) false .RETR_STAT := by
  refine ⟨_, _, .step .start storeFirst, fun path hfile => ?_, fun hworks => ?_⟩
  · exact singleTree_shows hfile
  · obtain ⟨given, hruns, _⟩ := hworks.iterated
    refine (timehashNext_runs.mp hruns).1 firstToken.path
      (Tree.mem_articles.mpr (singleTree_has firstToken)) ⟨rfl, ?_⟩
    rfl

end Working

end Inn.Storage.Timehash
