import Inn.Foundation.Walking
import Inn.Storage.Names
import Inn.Storage.TocCache

/-!
# Walking over the articles of timecaf

The articles are found one at a time, from one directory, CAF file and table entry to the next.
The handle of an article holds the place for the next call, and the memory that the article has
been mapped into, which the next call releases.
-/

namespace Inn.Storage.Timecaf

open Foundation.Walking

def topStart : Octets := [116, 105, 109, 101, 99, 97, 102, 45]

def cafEnd : Octets := [46, 67, 70]

def CAFPath.names (path : CAFPath) : Octets × Octets × Octets :=
  (topStart ++ hexDigits 2 path.tokenclass, hexDigits 2 path.second,
    hexDigits 2 path.first ++ hexDigits 2 path.third ++ cafEnd)

def isTopdir (name : Octets) : Bool := isName topStart 2 name

def isCaf (name : Octets) : Bool :=
    name.length = 7 && (name.take 4).all isxdigit && name.drop 4 = cafEnd

def MakeToken (now seqnum tokenclass : Nat) : Token := ⟨tokenclass, now % 2 ^ 32, seqnum % 2 ^ 32⟩

def PathNumToToken (top sec caf : Octets) (artnum : Nat) : Token :=
  let tclass := readHex (top.drop 8)
  let t1 := readHex sec
  let t2 := readHex (caf.take 4)
  -- the masks take different octets of the time
  let timestamp := t1 % 2 ^ 8 * 2 ^ 8 + t2 / 2 ^ 8 % 2 ^ 8 * 2 ^ 16 + t2 % 2 ^ 8
  MakeToken timestamp artnum (tclass % 2 ^ 8)

theorem PathNumToToken_names {timestamp tokenclass : Nat} (htime : timestamp < 2 ^ 24)
    (hclass : tokenclass < 2 ^ 8) (artnum : Nat) :
    PathNumToToken (MakePath timestamp tokenclass).names.1 (MakePath timestamp tokenclass).names.2.1
      (MakePath timestamp tokenclass).names.2.2 artnum = MakeToken timestamp artnum tokenclass := by
  have hdigits (a b : Nat) : (hexDigits 2 a ++ hexDigits 2 b).length = 4 := by
    rw [List.length_append, hexDigits_length, hexDigits_length]
  have hclassDigits :
      readHex ((topStart ++ hexDigits 2 tokenclass).drop 8) = tokenclass % 16 ^ 2 := by
    rw [List.drop_left' (by rfl), readHex_hexDigits]
  have hsec : readHex (hexDigits 2 (timestamp / 2 ^ 8 % 256)) = timestamp / 2 ^ 8 % 256 % 16 ^ 2 :=
    readHex_hexDigits _ _
  have hcaf :
      readHex ((hexDigits 2 (timestamp / 2 ^ 16 % 256) ++ hexDigits 2 (timestamp % 256) ++
        cafEnd).take 4) =
      16 ^ 2 * (timestamp / 2 ^ 16 % 256 % 16 ^ 2) + timestamp % 256 % 16 ^ 2 := by
    rw [List.take_left' (hdigits _ _), readHex_append, readHex_hexDigits, readHex_hexDigits,
      hexDigits_length]
  unfold PathNumToToken MakePath CAFPath.names
  dsimp only
  rw [hclassDigits, hsec, hcaf]
  congr 1 <;> omega

structure CafEntry where
  name : Octets
  toc : Option TOC
  opens : Nat → Bool
  fromOne : ∀ t, toc = some t → 1 ≤ t.Low

structure Tree where
  top : Option (List (DirEntry (DirEntry CafEntry)))
  topNames : ((top.getD []).map DirEntry.name).Nodup
  secNames : ∀ dir ∈ top.getD [], ((dir.entries.getD []).map DirEntry.name).Nodup
  cafNames : ∀ dir ∈ top.getD [], ∀ sub ∈ dir.entries.getD [],
    ((sub.entries.getD []).map CafEntry.name).Nodup

structure Found where
  top : Octets
  sec : Octets
  caf : CafEntry
  artnum : Nat

def Found.token (found : Found) : Token :=
    PathNumToToken found.top found.sec found.caf.name found.artnum

def Tree.Has (tree : Tree) (found : Found) : Prop :=
  ∃ dir ∈ tree.top.getD [], dir.name = found.top ∧ isTopdir dir.name ∧
    ∃ sub ∈ dir.entries.getD [], sub.name = found.sec ∧
    isDir sub.name ∧ found.caf ∈ sub.entries.getD [] ∧ isCaf found.caf.name ∧
    ∃ toc, found.caf.toc = some toc ∧ toc.Has found.artnum

def TOC.after (toc : TOC) (art : Nat) : List Nat :=
  let first := if art = 0 then toc.Low else art + 1
  List.range' first (toc.High + 1 - first)

def FindNextArt (toc : TOC) (art : Nat) : Option Nat :=
    (TOC.after toc art).find? fun art => (toc.entry art).Size ≠ 0

theorem filter_range' (p : Nat → Bool) (first n : Nat) :
    (List.range' first n).filter p = match (List.range' first n).find? p with
      | none => []
      | some a => a :: (List.range' (a + 1) (first + n - (a + 1))).filter p := by
  induction n generalizing first with
  | zero => rfl
  | succ n ih =>
    rw [List.range'_succ, List.find?_cons, List.filter_cons]
    cases hp : p first with
    | true =>
      dsimp only
      rw [if_pos rfl, show first + (n + 1) - (first + 1) = n by omega]
    | false =>
      dsimp only
      rw [if_neg nofun, ih, show first + 1 + n = first + (n + 1) by omega]

structure Place where
  top : Octets
  sec : Octets
  caf : CafEntry
  curtoc : TOC
  curartnum : Nat
  fromOne : 1 ≤ curtoc.Low

def articles : Walk Place Found where
  next place := (FindNextArt place.curtoc place.curartnum).map fun art =>
    (⟨place.top, place.sec, place.caf, art⟩, { place with curartnum := art })
  contents place := ((TOC.after place.curtoc place.curartnum).filter fun art =>
    (place.curtoc.entry art).Size ≠ 0).map fun art =>
    ⟨place.top, place.sec, place.caf, art⟩
  lawful place := by
    unfold FindNextArt TOC.after
    dsimp only
    generalize hfirst :
      (if place.curartnum = 0 then place.curtoc.Low else place.curartnum + 1) = first
    rw [filter_range']
    cases hfind : (List.range' first (place.curtoc.High + 1 - first)).find? fun art =>
        decide ((place.curtoc.entry art).Size ≠ 0) with
    | none => rfl
    | some art =>
      have hmem := List.mem_range'_1.mp (List.mem_of_find?_eq_some hfind)
      have hlow := place.fromOne
      have hart : art ≠ 0 := by
        split at hfirst <;> omega
      have hrest : first + (place.curtoc.High + 1 - first) - (art + 1) =
          place.curtoc.High + 1 - (art + 1) := by omega
      dsimp only [Option.map_some]
      rw [List.map_cons, if_neg hart, hrest]

def enterCaf (entry : Octets × Octets × CafEntry) : Option Place :=
  if isCaf entry.2.2.name then
    match htoc : entry.2.2.toc with
    | none => none
    | some toc => some ⟨entry.1, entry.2.1, entry.2.2, toc, 0, entry.2.2.fromOne toc htoc⟩
  else none

def enterSec (entry : Octets × DirEntry CafEntry) :
    Option (Option Place × List (Octets × Octets × CafEntry)) :=
  if isDir entry.2.name then entry.2.entries.map fun cafs =>
    (none, cafs.map fun caf => (entry.1, entry.2.name, caf))
  else none

abbrev SecPlace :=
    Option (Option Place × List (Octets × Octets × CafEntry)) × List (Octets × DirEntry CafEntry)

def enterTop (dir : DirEntry (DirEntry CafEntry)) : Option SecPlace :=
  if isTopdir dir.name then dir.entries.map fun subs =>
    (none, subs.map fun sub => (dir.name, sub)) else none

abbrev TopPlace := Option SecPlace × List (DirEntry (DirEntry CafEntry))

def walk : Walk TopPlace Found := ((articles.nest enterCaf).nest enterSec).nest enterTop

inductive Memory
  | mapped
  | unset
  deriving DecidableEq

inductive Fault
  | nullPointer
  | badFree
  deriving DecidableEq

def openFound (amount : RetrType) (found : Found) : Option (Option Memory) :=
  if !found.caf.opens found.artnum then none
  else if amount = .RETR_STAT then some none
  else some (some .mapped)

def releasePrevious (tree : Tree) : Option (Memory × TopPlace) → Except Fault TopPlace
  | none => .ok (none, tree.top.getD [])
  | some (.mapped, place) => .ok place
  | some (.unset, _) => .error .badFree

def makeHandle (amount : RetrType) (found : Found) (place : TopPlace) :
    Except Fault (Option (Memory × TopPlace)) :=
  match openFound amount found with
  | none => .ok (some (.unset, place))
  | some none => .error .nullPointer
  | some (some memory) => .ok (some (memory, place))

def timecafNext (tree : Tree) (amount : RetrType) :
    Option (Memory × TopPlace) → Except Fault (Option (Found × Option (Memory × TopPlace))) :=
  walkStep walk (releasePrevious tree) (makeHandle amount)

def Tree.articles (tree : Tree) : List Found := walk.contents (none, tree.top.getD [])

section Contents

variable {tree : Tree} {found : Found}

theorem mem_after {toc : TOC} {art : Nat} :
    (art ∈ (TOC.after toc 0).filter fun art => (toc.entry art).Size ≠ 0) ↔ toc.Has art := by
  rw [List.mem_filter, decide_eq_true_eq]
  unfold TOC.after TOC.Has
  rw [if_pos rfl, List.mem_range'_1]
  constructor
  · rintro ⟨⟨hle, hlt⟩, hsize⟩
    exact ⟨hle, by omega, hsize⟩
  · rintro ⟨hle, hhigh, hsize⟩
    exact ⟨⟨hle, by omega⟩, hsize⟩

theorem mem_enterCaf {top sec : Octets} {caf : CafEntry} :
    (∃ place, enterCaf (top, sec, caf) = some place ∧ found ∈ articles.contents place) ↔
      found.top = top ∧ found.sec = sec ∧ found.caf = caf ∧ isCaf caf.name ∧
        ∃ toc, caf.toc = some toc ∧ toc.Has found.artnum := by
  constructor
  · rintro ⟨place, henter, hmem⟩
    unfold enterCaf at henter
    split at henter
    next hname =>
      split at henter
      · cases henter
      next toc htoc =>
        cases henter
        obtain ⟨art, hart, rfl⟩ := List.mem_map.mp hmem
        exact ⟨rfl, rfl, rfl, hname, toc, htoc, mem_after.mp hart⟩
    next => cases henter
  · obtain ⟨top', sec', caf', artnum⟩ := found
    rintro ⟨rfl, rfl, rfl, hname, toc, htoc, hhas⟩
    refine ⟨⟨top', sec', caf', toc, 0, caf'.fromOne toc htoc⟩, ?_, ?_⟩
    · unfold enterCaf
      rw [if_pos hname]
      split
      next hnone => exact nomatch htoc.symm.trans hnone
      next toc' htoc' =>
        cases htoc.symm.trans htoc'
        rfl
    · exact List.mem_map.mpr ⟨artnum, mem_after.mpr hhas, rfl⟩

theorem mem_enterSec {top : Octets} {dir : DirEntry CafEntry} :
    (∃ place, enterSec (top, dir) = some place ∧ found ∈ (articles.nest enterCaf).contents place) ↔
      top = found.top ∧ dir.name = found.sec ∧ isDir dir.name ∧ found.caf ∈ dir.entries.getD [] ∧
        isCaf found.caf.name ∧
        ∃ toc, found.caf.toc = some toc ∧ toc.Has found.artnum := by
  unfold enterSec
  rw [mem_directory]
  constructor
  · rintro ⟨hdir, caf, hcaf, hfound⟩
    obtain ⟨htop, hsec, rfl, hrest⟩ := mem_enterCaf.mp hfound
    exact ⟨htop.symm, hsec.symm, hdir, hcaf, hrest⟩
  · rintro ⟨htop, hsec, hdir, hcaf, hrest⟩
    exact ⟨hdir, found.caf, hcaf, mem_enterCaf.mpr ⟨htop.symm, hsec.symm, rfl, hrest⟩⟩

theorem mem_enterTop {dir : DirEntry (DirEntry CafEntry)} :
    (∃ place, enterTop dir = some place ∧
      found ∈ ((articles.nest enterCaf).nest enterSec).contents place) ↔
      dir.name = found.top ∧ isTopdir dir.name ∧ ∃ sub ∈ dir.entries.getD [], sub.name = found.sec ∧
        isDir sub.name ∧
        found.caf ∈ sub.entries.getD [] ∧ isCaf found.caf.name ∧ ∃ toc, found.caf.toc = some toc ∧
          toc.Has found.artnum := by
  unfold enterTop
  rw [mem_directory]
  constructor
  · rintro ⟨htopdir, sub, hsub, hfound⟩
    obtain ⟨htop, hrest⟩ := mem_enterSec.mp hfound
    exact ⟨htop, htopdir, sub, hsub, hrest⟩
  · rintro ⟨htop, htopdir, sub, hsub, hrest⟩
    exact ⟨htopdir, sub, hsub, mem_enterSec.mpr ⟨htop, hrest⟩⟩

theorem Tree.mem_articles : found ∈ tree.articles ↔ tree.Has found := by
  unfold Tree.articles walk Tree.Has
  rw [mem_nest_start]
  simp only [mem_enterTop]

theorem articles_nodup (place : Place) : (articles.contents place).Nodup := by
  refine List.Nodup.map (fun a b hsame => congrArg Found.artnum hsame) (List.Nodup.filter _ ?_)
  exact List.nodup_range'

theorem Tree.articles_nodup (tree : Tree) : tree.articles.Nodup := by
  refine nest_start_nodup DirEntry.name Found.top tree.topNames fun dir hdir place henter =>
    ⟨?_, ?_⟩
  · refine directory_nodup DirEntry.name Found.sec (tree.secNames dir hdir)
      (fun sub hsub place henter => ⟨?_, ?_⟩) henter
    · refine directory_nodup CafEntry.name (fun found : Found => found.caf.name)
        (tree.cafNames dir hdir sub hsub)
        (fun caf _ place henter => ⟨Timecaf.articles_nodup place, fun found hfound => ?_⟩) henter
      rw [(mem_enterCaf.mp ⟨place, henter, hfound⟩).2.2.1]
    · intro found hfound
      exact (mem_enterSec.mp ⟨place, henter, hfound⟩).2.1.symm
  · intro found hfound
    exact (mem_enterTop.mp ⟨place, henter, hfound⟩).1.symm

end Contents

section Iterating

variable {tree : Tree} {amount : RetrType}

theorem timecafNext_runs {given : List Found} :
    Runs (timecafNext tree amount) none given ↔
      (∀ found : Found, found ∈ tree.articles →
        amount ≠ .RETR_STAT ∧ found.caf.opens found.artnum) ∧ given = tree.articles := by
  refine runs_walkStep_iff (fun found : Found => amount ≠ .RETR_STAT ∧
    found.caf.opens found.artnum) ?_ ?_
    (rfl : releasePrevious tree none = .ok (none, tree.top.getD []))
  · rintro found place ⟨hamount, hopens⟩
    refine ⟨some (.mapped, place), ?_, rfl⟩
    unfold makeHandle openFound
    rw [hopens, if_neg nofun, if_neg hamount]
  · intro found place h hbad hmake
    unfold makeHandle openFound at hmake
    split at hmake
    next hopen =>
      cases hmake
      exact ⟨_, rfl⟩
    next => cases hmake
    next hopen =>
      split at hopen
      · cases hopen
      next hopens =>
        split at hopen
        · cases hopen
        next hamount => exact absurd ⟨hamount, by simpa using hopens⟩ hbad

/-- Each article is given once, with its token. -/
structure GivenOnce (tree : Tree) (given : List Found) : Prop where
  once : given.Nodup
  all : ∀ found, found ∈ given ↔ tree.Has found
  token : ∀ found ∈ given, ∀ timestamp < 2 ^ 24, ∀ tokenclass < 2 ^ 8,
    (found.top, found.sec, found.caf.name) = (MakePath timestamp tokenclass).names →
      found.token = MakeToken timestamp found.artnum tokenclass

/-- The walk comes to its end exactly when it has to do more than look for the articles, and all of
them can be opened. Then it has given each article once. -/
theorem timecaf_next_ends_iff (tree : Tree) (amount : RetrType) :
    ((∃ given, Runs (timecafNext tree amount) none given) ↔
      ∀ found, tree.Has found → amount ≠ .RETR_STAT ∧ found.caf.opens found.artnum) ∧
    ∀ given, Runs (timecafNext tree amount) none given → GivenOnce tree given := by
  constructor
  · constructor
    · rintro ⟨given, hruns⟩ found hhas
      exact (timecafNext_runs.mp hruns).1 found (Tree.mem_articles.mpr hhas)
    · intro hall
      exact ⟨tree.articles,
        timecafNext_runs.mpr ⟨fun found hfound => hall found (Tree.mem_articles.mp hfound), rfl⟩⟩
  · intro given hruns
    obtain ⟨_, rfl⟩ := timecafNext_runs.mp hruns
    refine ⟨tree.articles_nodup, fun found => Tree.mem_articles, ?_⟩
    intro found _ timestamp htime tokenclass hclass hnames
    obtain ⟨htop, hnames⟩ := Prod.mk.inj hnames
    obtain ⟨hsec, hcaf⟩ := Prod.mk.inj hnames
    unfold Found.token
    rw [htop, hsec, hcaf]
    exact PathNumToToken_names htime hclass found.artnum

def removedFile : CafEntry where
  name := (MakePath 1 0).names.2.2
  toc := some ⟨1, 3, fun slot => if slot = 0 then ⟨0, 0⟩ else ⟨512 * slot, 10⟩⟩
  opens art := art ≠ 2
  fromOne := by
    rintro _ heq
    obtain rfl := Option.some.inj heq
    exact Nat.le_refl 1

def removedTree : Tree where
  top := some [⟨(MakePath 1 0).names.1, some [⟨(MakePath 1 0).names.2.1, some [removedFile]⟩]⟩]
  topNames := List.nodup_singleton _
  secNames := by
    intro dir hdir
    obtain rfl := List.mem_singleton.mp hdir
    exact List.nodup_singleton _
  cafNames := by
    intro dir hdir sub hsub
    obtain rfl := List.mem_singleton.mp hdir
    obtain rfl := List.mem_singleton.mp hsub
    exact List.nodup_singleton _

theorem removedTree_has (artnum : Nat) (hart : artnum = 2 ∨ artnum = 3) :
    removedTree.Has ⟨(MakePath 1 0).names.1, (MakePath 1 0).names.2.1, removedFile, artnum⟩ := by
  refine ⟨_, List.mem_singleton_self _, rfl,
    by decide, _, List.mem_singleton_self _, rfl, by decide, List.mem_singleton_self _,
    (by decide : isCaf removedFile.name = true), _, rfl, ?_⟩
  rcases hart with rfl | rfl <;> decide

/-- The walk ends neither when the articles are only looked for, nor when one has been removed. -/
theorem not_timecaf_next_ends :
    (¬∃ given, Runs (timecafNext removedTree .RETR_STAT) none given) ∧
      ¬∃ given, Runs (timecafNext removedTree .RETR_ALL) none given := by
  constructor
  · rintro ⟨given, hruns⟩
    exact ((timecafNext_runs.mp hruns).1 _ (Tree.mem_articles.mpr (removedTree_has 3 (.inr rfl)))).1
      rfl
  · rintro ⟨given, hruns⟩
    have hopens :=
      ((timecafNext_runs.mp hruns).1 _ (Tree.mem_articles.mpr (removedTree_has 2 (.inl rfl)))).2
    exact absurd hopens (by decide)

end Iterating

end Inn.Storage.Timecaf
