import Inn.Innd.Numbering
import Inn.Lib.Native
import Inn.Storage.Timehash

/-!
# Stores that fail

A store makes directories, files and links one after the other, and each of these can fail. When
it gives no token, nothing of the article is to be left. `timehash` takes its file away again, and
so does `tradspool`, but not when a link to the file cannot be made.
-/

namespace Inn.Storage

open Function (update update_idem update_self update_of_ne update_eq_self_iff)

/-- What is seen and what comes next are as before. -/
structure Undone {S V R : Type*} (seen : S → V) (next : S → R) (s s' : S) : Prop where
  seen : seen s' = seen s
  next : next s' = next s

theorem Undone.refl {S V R : Type*} (seen : S → V) (next : S → R) (s : S) :
    Undone seen next s s := ⟨rfl, rfl⟩

/-- What goes wrong while a file is made. -/
structure FileTrouble (Name : Type*) where
  openFails : Name → Bool
  MakeDirectoryFails : Bool
  reopenFails : Bool
  short : Option Nat

namespace Timehash

def createFile (trouble : FileTrouble Path) (files : Path → Option Octets) (now tokenclass : Nat) :
    Nat → UInt16 → Option UInt16 × UInt16
  | 0, SeqNum => (none, SeqNum)
  | i + 1, SeqNum =>
    let path := MakePath now SeqNum.toNat tokenclass
    if trouble.openFails path then
      if trouble.MakeDirectoryFails ∨ trouble.reopenFails ∨ (files path).isSome then
        (none, SeqNum + 1)
      else (some SeqNum, SeqNum + 1)
    -- `EEXIST`
    else if (files path).isSome then createFile trouble files now tokenclass i (SeqNum + 1)
    else (some SeqNum, SeqNum + 1)

def Spool.tryStore (s : Spool) (trouble : FileTrouble Path) (tokenclass : UInt8)
    (arrived now : UInt32) (octets : Octets) :
    Option Token × Spool :=
  let now := if arrived = 0 then now else arrived
  match createFile trouble s.files now.toNat tokenclass.toNat 0x10000 s.SeqNum with
  | (none, SeqNum) => (none, { s with SeqNum })
  | (some seq, SeqNum) =>
    let path := MakePath now.toNat seq.toNat tokenclass.toNat
    match trouble.short with
    | some n => (none, ⟨update (update s.files path (some (octets.take n))) path none, SeqNum⟩)
    | none =>
      (some (MakeToken now.toNat seq.toNat tokenclass.toNat),
        ⟨update s.files path (some octets), SeqNum⟩)

def Spool.nextStore (s : Spool) (tokenclass : UInt8) (arrived now : UInt32) (octets : Octets) :
    Option (UInt8 × UInt32) :=
  (s.timehashStore tokenclass arrived now octets).1.map fun token =>
    (token.tokenclass, token.arrival)

theorem createFile_free {trouble : FileTrouble Path} {files : Path → Option Octets}
    {now tokenclass i : Nat} {SeqNum seq next : UInt16}
    (hcreate : createFile trouble files now tokenclass i SeqNum = (some seq, next)) :
    files (MakePath now seq.toNat tokenclass) = none := by
  induction i generalizing SeqNum with
  | zero => cases hcreate
  | succ i ih =>
    unfold createFile at hcreate
    dsimp only at hcreate
    split at hcreate
    · split at hcreate
      · cases hcreate
      next hfails =>
        obtain ⟨hseq, _⟩ := Prod.mk.inj hcreate
        cases hseq
        simpa using fun h => hfails (.inr (.inr h))
    · split at hcreate
      · exact ih hcreate
      next hfree =>
        obtain ⟨hseq, _⟩ := Prod.mk.inj hcreate
        cases hseq
        simpa using hfree

theorem store_isSome_files {s s' : Spool} (hfiles : s'.files = s.files) {tokenclass : UInt8}
    {arrived now : UInt32}
    {octets : Octets} (hsome : (s.timehashStore tokenclass arrived now octets).1.isSome) :
    (s'.timehashStore tokenclass arrived now octets).1.isSome := by
  rcases store_cases s tokenclass arrived now octets with ⟨hnone, _⟩ | ⟨token, _, hfree,
    hclass, harrival, _⟩
  · rw [hnone] at hsome
    cases hsome
  · rw [← hfiles] at hfree
    unfold Token.path at hfree
    rw [harrival, hclass] at hfree
    exact store_isSome hfree

theorem nextStore_files {s s' : Spool} (hfiles : s'.files = s.files) :
    s'.nextStore = s.nextStore := by
  funext tokenclass arrived now octets
  have hthere := @store_isSome_files s s' hfiles tokenclass arrived now octets
  have hback := @store_isSome_files s' s hfiles.symm tokenclass arrived now octets
  unfold Spool.nextStore
  rcases store_cases s tokenclass arrived now octets with ⟨hnone, _⟩ | ⟨token, hsome, _, hclass,
    harrival, _⟩ <;>
    rcases store_cases s' tokenclass arrived now octets with ⟨hnone', _⟩ | ⟨token', hsome', _,
      hclass', harrival', _⟩
  · rw [hnone, hnone']
  · rw [hnone, hsome'] at hback
    cases hback rfl
  · rw [hsome, hnone'] at hthere
    cases hthere rfl
  · rw [hsome, hsome', Option.map_some, Option.map_some, hclass, hclass', harrival, harrival']

theorem tryStore_undone {s s' : Spool} {trouble : FileTrouble Path} {tokenclass : UInt8}
    {arrived now : UInt32} {octets : Octets}
    (hstore : s.tryStore trouble tokenclass arrived now octets = (none, s')) :
    Undone Spool.files Spool.nextStore s s' := by
  have hfiles : s'.files = s.files := by
    unfold Spool.tryStore at hstore
    dsimp only at hstore
    split at hstore
    · obtain rfl := (Prod.mk.inj hstore).2
      rfl
    next seq SeqNum hcreate =>
      split at hstore
      · obtain rfl := (Prod.mk.inj hstore).2
        -- there was no file where the article is taken away
        rw [update_idem, update_eq_self_iff]
        exact (createFile_free hcreate).symm
      · cases (Prod.mk.inj hstore).1
  exact ⟨hfiles, nextStore_files hfiles⟩

end Timehash

namespace Tradspool

open Innd.Numbering (atol articleNumber)
open Lib.Native (wireToNative)

structure Name where
  dir : Octets
  artnum : UInt64
  deriving DecidableEq

inductive Node
  | file (octets : Octets)
  | symlink (target : Name)
  deriving DecidableEq

abbrev Files := Name → Option Node

def crackWords : Nat → Octets → List Octets
  | 0, _ => []
  | bound + 1, line =>
    if line = [] then []
    else line.takeWhile (· ≠ 32) :: crackWords bound ((line.dropWhile (· ≠ 32)).dropWhile (· = 32))

def CrackXref (xref : Octets) : List Octets :=
  let line := xref.takeWhile fun c => c ≠ 10 && c ≠ 13 && c ≠ 0
  crackWords line.length line

def DeDotify (ng : Octets) : Octets := ng.map fun c => if c = 46 then 47 else c

def xrefName (word : Octets) : Option Name :=
  match word.dropWhile (· ≠ 58) with
  | [] => none
  | _ :: p => some ⟨DeDotify (word.takeWhile (· ≠ 58)), articleNumber (atol p)⟩

/-- What goes wrong while links are made. -/
structure LinkTrouble where
  linkFails : Name → Bool
  MakeDirectoryFails : Name → Bool
  relinkFails : Name → Bool
  symlinkFails : Name → Bool

def written (wireformat : Bool) (octets : Octets) : Octets :=
    if wireformat then octets else (wireToNative octets).octets

def createFile (trouble : FileTrouble Name) (files : Files) (path : Name) : Bool :=
  (files path).isNone &&
    (!trouble.openFails path || !trouble.MakeDirectoryFails && !trouble.reopenFails)

def makeLink (trouble : LinkTrouble) (files : Files) (path linkpath : Name) : Option Files :=
  match files linkpath with
  -- `EEXIST`, each time
  | some _ => none
  | none =>
    if trouble.linkFails linkpath = false then some (update files linkpath (files path))
    else if trouble.MakeDirectoryFails linkpath = false ∧ trouble.relinkFails linkpath = false then
      some (update files linkpath (files path))
    else if trouble.symlinkFails linkpath = false then
      some (update files linkpath (some (.symlink path)))
    else none

def makeLinks (trouble : LinkTrouble) (path : Name) : List Octets → Files → Bool × Files
  | [], files => (true, files)
  | xref :: xrefs, files =>
    match xrefName xref with
    | none => makeLinks trouble path xrefs files
    | some linkpath =>
      match makeLink trouble files path linkpath with
      | none => (false, files)
      | some files => makeLinks trouble path xrefs files

def tradspoolStore (wireformat : Bool) (trouble : FileTrouble Name) (links : LinkTrouble)
    (files : Files) (groups octets : Octets) : Option Name × Files :=
  match CrackXref groups with
  | [] => (none, files)
  | first :: xrefs =>
    match xrefName first with
    | none => (none, files)
    | some path =>
      if createFile trouble files path then
        let article := written wireformat octets
        match trouble.short with
        | some n =>
          (none, update (update files path (some (.file (article.take n)))) path none)
        | none =>
          match makeLinks links path xrefs (update files path (some (.file article))) with
          | (true, files) => (some path, files)
          | (false, files) => (none, files)
      else (none, files)

def nextStore (files : Files) (wireformat : Bool) (groups octets : Octets) : Option Name × Files :=
  tradspoolStore wireformat ⟨fun _ => false, false, false, none⟩
    ⟨fun _ => false, fun _ => false, fun _ => false, fun _ => false⟩ files groups octets

section Undoing

def LinkTrouble.Links (trouble : LinkTrouble) (linkpath : Name) : Prop :=
  trouble.linkFails linkpath = false ∨
    (trouble.MakeDirectoryFails linkpath = false ∧ trouble.relinkFails linkpath = false) ∨
      trouble.symlinkFails linkpath = false

def Linkable (links : LinkTrouble) (files : Files) (linkpaths : List Name) : Prop :=
  linkpaths.Nodup ∧ ∀ linkpath ∈ linkpaths, files linkpath = none ∧ links.Links linkpath

def Written (trouble : FileTrouble Name) (files : Files) (groups : Octets) (path : Name)
    (linkpaths : List Name) : Prop :=
  ∃ first xrefs, CrackXref groups = first :: xrefs ∧ xrefName first = some path ∧
    linkpaths = xrefs.filterMap xrefName ∧
    createFile trouble files path ∧ trouble.short = none

variable {wireformat : Bool} {trouble : FileTrouble Name} {links : LinkTrouble}
    {files files' : Files} {path linkpath : Name}
  {groups octets : Octets}

theorem makeLink_isSome : (makeLink links files path linkpath).isSome ↔
    files linkpath = none ∧ links.Links linkpath := by
  unfold makeLink LinkTrouble.Links
  cases files linkpath with
  | some node => exact ⟨nofun, nofun⟩
  | none =>
    dsimp only
    split
    next hlink => exact ⟨fun _ => ⟨rfl, .inl hlink⟩, fun _ => rfl⟩
    next hlink =>
      split
      next hrelink => exact ⟨fun _ => ⟨rfl, .inr (.inl hrelink)⟩, fun _ => rfl⟩
      next hrelink =>
        split
        next hsymlink => exact ⟨fun _ => ⟨rfl, .inr (.inr hsymlink)⟩, fun _ => rfl⟩
        next hsymlink =>
          refine ⟨nofun, ?_⟩
          rintro ⟨_, h | h | h⟩
          · exact absurd h hlink
          · exact absurd h hrelink
          · exact absurd h hsymlink

theorem makeLink_some (hpath : (files path).isSome)
    (hlink : makeLink links files path linkpath = some files') :
    (files' linkpath).isSome ∧ ∀ other, other ≠ linkpath → files' other = files other := by
  have hupdate {node : Option Node} (hnode : node.isSome) (h : some (update files linkpath node) =
      some files') :
      (files' linkpath).isSome ∧ ∀ other, other ≠ linkpath → files' other = files other := by
    cases h
    refine ⟨?_, fun other hother => update_of_ne hother _ _⟩
    rw [update_self]
    exact hnode
  unfold makeLink at hlink
  split at hlink
  · cases hlink
  · split at hlink
    · exact hupdate hpath hlink
    · split at hlink
      · exact hupdate hpath hlink
      · split at hlink
        · exact hupdate rfl hlink
        · cases hlink

theorem makeLinks_path {xrefs : List Octets} {node : Node} (hpath : files path = some node) :
    (makeLinks links path xrefs files).2 path = some node := by
  induction xrefs generalizing files with
  | nil => exact hpath
  | cons xref xrefs ih =>
    unfold makeLinks
    split
    · exact ih hpath
    next linkpath hname =>
      split
      · exact hpath
      next files' hlink =>
        refine ih ?_
        have hfree := (makeLink_isSome.mp (Option.isSome_of_eq_some hlink)).1
        have hother : path ≠ linkpath := by
          rintro rfl
          rw [hfree] at hpath
          cases hpath
        rw [(makeLink_some (Option.isSome_of_eq_some hpath) hlink).2 path hother]
        exact hpath

theorem makeLinks_iff {xrefs : List Octets} (hpath : (files path).isSome) :
    (makeLinks links path xrefs files).1 = true ↔ Linkable links files
    (xrefs.filterMap xrefName) := by
  induction xrefs generalizing files with
  | nil => exact ⟨fun _ => ⟨List.nodup_nil, nofun⟩, fun _ => rfl⟩
  | cons xref xrefs ih =>
    rw [List.filterMap_cons]
    unfold makeLinks
    cases hname : xrefName xref with
    | none => exact ih hpath
    | some linkpath =>
      dsimp only
      cases hlink : makeLink links files path linkpath with
      | none =>
        refine ⟨nofun, fun hlinkable => ?_⟩
        have hsome : (makeLink links files path linkpath).isSome :=
          makeLink_isSome.mpr (hlinkable.2 linkpath List.mem_cons_self)
        rw [hlink] at hsome
        cases hsome
      | some files' =>
        obtain ⟨hfree, hlinks⟩ := makeLink_isSome.mp (Option.isSome_of_eq_some hlink)
        obtain ⟨htaken, hothers⟩ := makeLink_some hpath hlink
        have hother : path ≠ linkpath := by
          rintro rfl
          rw [hfree] at hpath
          cases hpath
        have hkept : (files' path).isSome := by
          rw [hothers path hother]
          exact hpath
        dsimp only
        rw [ih hkept]
        unfold Linkable
        rw [List.nodup_cons, List.forall_mem_cons]
        constructor
        · rintro ⟨hnodup, hall⟩
          have hne {name : Name} (hmem : name ∈ xrefs.filterMap xrefName) : name ≠ linkpath := by
            rintro rfl
            rw [(hall name hmem).1] at htaken
            cases htaken
          refine ⟨⟨fun hmem => hne hmem rfl, hnodup⟩, ⟨hfree, hlinks⟩, fun name hmem => ?_⟩
          rw [← hothers name (hne hmem)]
          exact hall name hmem
        · rintro ⟨⟨hnotMem, hnodup⟩, _, hall⟩
          refine ⟨hnodup, fun name hmem => ?_⟩
          rw [hothers name fun h => hnotMem (h ▸ hmem)]
          exact hall name hmem

theorem createFile_free (hcreate : createFile trouble files path) : files path = none := by
  unfold createFile at hcreate
  rw [Bool.and_eq_true] at hcreate
  exact Option.isNone_iff_eq_none.mp hcreate.1

theorem linkable_update {node : Node} {linkpaths : List Name} (hfree : files path = none) :
    Linkable links (update files path (some node)) linkpaths ↔
      path ∉ linkpaths ∧ Linkable links files linkpaths := by
  unfold Linkable
  constructor
  · rintro ⟨hnodup, hall⟩
    have hne {name : Name} (hmem : name ∈ linkpaths) : name ≠ path := by
      rintro rfl
      have htaken := (hall name hmem).1
      rw [update_self] at htaken
      cases htaken
    refine ⟨fun hmem => hne hmem rfl, hnodup, fun name hmem => ?_⟩
    rw [← update_of_ne (hne hmem) (some node) files]
    exact hall name hmem
  · rintro ⟨hnotMem, hnodup, hall⟩
    refine ⟨hnodup, fun name hmem => ?_⟩
    have hne : name ≠ path := fun h => hnotMem (h ▸ hmem)
    rw [update_of_ne hne]
    exact hall name hmem

theorem makeLinks_created_iff (article : Octets) {xrefs : List Octets} (hfree : files path = none) :
    (makeLinks links path xrefs (update files path (some (.file article)))).1 = true ↔
      path ∉ xrefs.filterMap xrefName ∧ Linkable links files (xrefs.filterMap xrefName) := by
  refine Iff.trans (makeLinks_iff ?_) (linkable_update hfree)
  rw [update_self]
  rfl

theorem tradspool_undone_iff :
    (∀ files', tradspoolStore wireformat trouble links files groups octets = (none, files') →
        Undone (fun files => files) nextStore files files') ↔
      ∀ path linkpaths, Written trouble files groups path linkpaths →
        path ∉ linkpaths ∧ Linkable links files linkpaths := by
  constructor
  · rintro hundone path linkpaths ⟨first, xrefs, hwords, hname, rfl, hcreate, hshort⟩
    have hfree := createFile_free hcreate
    rw [← makeLinks_created_iff (written wireformat octets) hfree]
    by_contra hleft
    have hstore : tradspoolStore wireformat trouble links files groups octets =
        (none, (makeLinks links path xrefs
          (update files path (some (.file (written wireformat octets))))).2) := by
      unfold tradspoolStore
      rw [hwords]
      dsimp only
      rw [hname]
      dsimp only
      rw [if_pos hcreate, hshort]
      dsimp only
      split
      next files' hlinks =>
        rw [hlinks] at hleft
        exact absurd rfl hleft
      next files' hlinks => rw [hlinks]
    -- the article keeps its name though the store gives no token
    have hkept :
        (makeLinks links path xrefs
          (update files path (some (.file (written wireformat octets))))).2 path =
        some (.file (written wireformat octets)) := makeLinks_path (update_self _ _ _)
    have hseen := (hundone _ hstore).seen
    rw [hseen, hfree] at hkept
    cases hkept
  · intro hlinkable files' hstore
    have hsame : files' = files := by
      unfold tradspoolStore at hstore
      split at hstore
      · exact (Prod.mk.inj hstore).2.symm
      next first xrefs hwords =>
        split at hstore
        · exact (Prod.mk.inj hstore).2.symm
        next path hname =>
          split at hstore
          next hcreate =>
            have hfree := createFile_free hcreate
            dsimp only at hstore
            split at hstore
            · rw [← (Prod.mk.inj hstore).2, update_idem, update_eq_self_iff]
              exact hfree.symm
            next hshort =>
              have hlinks := (makeLinks_created_iff (written wireformat octets) hfree).mpr
                (hlinkable path _ ⟨first, xrefs, hwords, hname, rfl, hcreate, hshort⟩)
              split at hstore
              · cases (Prod.mk.inj hstore).1
              next files' hleft =>
                rw [hleft] at hlinks
                cases hlinks
          · exact (Prod.mk.inj hstore).2.symm
    rw [hsame]
    exact Undone.refl _ _ _

end Undoing

end Tradspool

end Inn.Storage
