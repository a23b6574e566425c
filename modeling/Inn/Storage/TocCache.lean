import Inn.Storage.Caf
import Inn.Storage.Retrieval

/-!
# The cache of tables of contents

When articles are only looked for, `timecaf` reads the table of contents of an old CAF file
once, and keeps it. It does not read the table again when articles are stored into the file or
removed from it.
-/

namespace Inn.Storage.Timecaf

structure CAFPath where
  tokenclass : Nat
  first : Nat
  second : Nat
  third : Nat
  deriving DecidableEq

def MakePath (now tokenclass : Nat) : CAFPath :=
    ⟨tokenclass, now / 2 ^ 16 % 256, now / 2 ^ 8 % 256, now % 256⟩

structure Token where
  tokenclass : Nat
  timestamp : Nat
  seqnum : Nat
  deriving DecidableEq

/-- The files, the cache of their tables, and what is to be cancelled. -/
structure Spool where
  files : CAFPath → Option CAFFile
  TOCCache : Nat → Nat → Nat → Nat → Option TOC
  WritingFile : Option CAFPath
  DeletePath : Option CAFPath
  DeleteArtnums : List Nat

def Spool.start (files : CAFPath → Option CAFFile) : Spool :=
    ⟨files, fun _ _ _ _ => none, none, none, []⟩

def Spool.CheckTOCCache (s : Spool) (timestamp tokenclass : Nat) : Option TOC :=
  s.TOCCache tokenclass (timestamp / 2 ^ 16 % 256) (timestamp / 2 ^ 8 % 256) (timestamp % 256)

def Spool.AddTOCCache (s : Spool) (timestamp : Nat) (toc : TOC) (tokenclass : Nat) : Spool :=
  { s with
    TOCCache := fun c i j k =>
      if c = tokenclass ∧ i = timestamp / 2 ^ 16 % 256 ∧ j = timestamp / 2 ^ 8 % 256 ∧
        k = timestamp % 256 then some toc
      else s.TOCCache c i j k }

def tocArticle (cent : TOC) (artnum : Nat) : Option ArtHandle :=
  if artnum < cent.Low ∨ cent.High < artnum then none
  else if (cent.entry artnum).Size = 0 then none
  else some .stat

def Spool.StatArticle (s : Spool) (timestamp artnum tokenclass : Nat) : Option ArtHandle × Spool :=
  match s.CheckTOCCache timestamp tokenclass with
  | some cent => (tocArticle cent artnum, s)
  | none =>
    match CAFReadTOC (s.files (MakePath timestamp tokenclass)) with
    | none => (none, s)
    | some toc => (tocArticle toc artnum, s.AddTOCCache timestamp toc tokenclass)

def Spool.OpenArticle (s : Spool) (path : CAFPath) (artnum : Nat) : Option ArtHandle :=
  (CAFOpenArtRead (s.files path) artnum).map fun _ => .stat

def Spool.timecafRetrieve (s : Spool) (token : Token) (now : Nat) : Option ArtHandle × Spool :=
  if token.timestamp < now / 2 ^ 8 % 2 ^ 24 then s.StatArticle token.timestamp token.seqnum
    token.tokenclass
  else (s.OpenArticle (MakePath token.timestamp token.tokenclass) token.seqnum, s)

def Spool.timecafStore (s : Spool) (tokenclass arrived now len startoffset : Nat) :
    Option Token × Spool :=
  let timestamp := (if arrived = 0 then now else arrived) / 2 ^ 8
  let path := MakePath timestamp tokenclass
  let head :=
    if s.WritingFile = some path then s.files path else some ((s.files path).getD CAFCreateCAFFile)
  match head with
  | none => (none, s)
  | some head =>
    if hfits : head.Low ≤ head.High + 1 ∧ head.High + 1 < head.Low + head.NumSlots then
      (some ⟨tokenclass, timestamp % 2 ^ 32, (head.High + 1) % 2 ^ 32⟩,
        { s with
          files := Function.update s.files path (some (head.finish startoffset len hfits.1))
          WritingFile := some path })
    -- a file that is open already stays in `WritingFile`
    else (none, if s.WritingFile = some path then s else { s with WritingFile := none })

def Spool.DoCancels (s : Spool) (space : Space) : Spool :=
  match s.DeletePath with
  | none => s
  | some path =>
    if s.DeleteArtnums = [] then { s with DeletePath := none }
    else
      { s with
        files := Function.update s.files path
          (CAFRemoveMultArts (s.files path) s.DeleteArtnums space)
        WritingFile := if s.WritingFile = some path then none else s.WritingFile
        DeletePath := none
        DeleteArtnums := [] }

def Spool.timecafCancel (s : Spool) (token : Token) (space : Space) : Spool :=
  let path := MakePath token.timestamp token.tokenclass
  let s :=
    if s.DeletePath = none ∨ s.DeletePath = some path then s
    else s.DoCancels space
  { s with DeletePath := some path, DeleteArtnums := s.DeleteArtnums ++ [token.seqnum] }

inductive Event
  | store (tokenclass arrived now len startoffset : Nat)
  | cancel (token : Token) (space : Space)
  | flush (space : Space)
  | stat (token : Token) (now : Nat)

def Spool.step (s : Spool) : Event → Spool
  | .store tokenclass arrived now len startoffset =>
      (s.timecafStore tokenclass arrived now len startoffset).2
  | .cancel token space => s.timecafCancel token space
  | .flush space => s.DoCancels space
  | .stat token now => (s.timecafRetrieve token now).2

/-- What is retrieved with the cache is what is without it. -/
def Spool.Agrees (s : Spool) : Prop :=
  ∀ token now, (s.timecafRetrieve token now).1 =
    s.OpenArticle (MakePath token.timestamp token.tokenclass) token.seqnum

def Spool.AgreesAlong : Spool → List Event → Prop
  | s, [] => s.Agrees
  | s, event :: events => s.Agrees ∧ (s.step event).AgreesAlong events

def Spool.cached (s : Spool) (path : CAFPath) : Option TOC :=
    s.TOCCache path.tokenclass path.first path.second path.third

def Room (file : Option CAFFile) : Prop :=
    ∀ head, file = some head → head.Low ≤ head.High + 1 ∧ head.High + 1 < head.Low + head.NumSlots

/-- Nothing is cancelled behind the back of the cache. -/
def Spool.FlushSafe (s : Spool) : Prop :=
  ∀ path, s.DeletePath = some path → s.cached path = none ∨
    ∀ art ∈ s.DeleteArtnums, ¬Present (s.files path) art

def Event.Safe (s : Spool) : Event → Prop
  | .store tokenclass arrived now len _ =>
    let path := MakePath ((if arrived = 0 then now else arrived) / 2 ^ 8) tokenclass
    s.cached path = none ∨ len = 0 ∨ ¬Room (s.files path)
  | .cancel token _ => s.DeletePath = some (MakePath token.timestamp token.tokenclass) ∨ s.FlushSafe
  | .flush _ => s.FlushSafe
  | .stat _ _ => True

def Spool.SafeAlong : Spool → List Event → Prop
  | _, [] => True
  | s, event :: events => event.Safe s ∧ (s.step event).SafeAlong events

section Coherence

variable {s s' : Spool} {path : CAFPath} {file : Option CAFFile}

/-- A table in the cache has just the articles of its file. -/
def Spool.Coherent (s : Spool) : Prop :=
  ∀ path toc, s.cached path = some toc → ∀ art, toc.Has art ↔ Present (s.files path) art

structure Spool.Inv (s : Spool) : Prop where
  writing : ∀ path, s.WritingFile = some path → s.files path ≠ none
  old : ∀ path toc, s.cached path = some toc →
    ∃ timestamp tokenclass now, MakePath timestamp tokenclass = path ∧
      timestamp < now / 2 ^ 8 % 2 ^ 24

theorem present_some {head : CAFFile} {art : Nat} : Present (some head) art ↔ head.Has art := by
  constructor
  · rintro ⟨_, heq, hhas⟩
    cases heq
    exact hhas
  · intro hhas
    exact ⟨head, rfl, hhas⟩

theorem tocArticle_isSome_iff {cent : TOC} {artnum : Nat} : (tocArticle cent artnum).isSome ↔
    cent.Has artnum := by
  unfold tocArticle
  constructor
  · intro hsome
    split at hsome
    · cases hsome
    next hrange =>
      split at hsome
      · cases hsome
      next hsize => exact ⟨Nat.not_lt.mp fun h => hrange (.inl h),
        Nat.not_lt.mp fun h => hrange (.inr h), hsize⟩
  · rintro ⟨hlow, hhigh, hsize⟩
    rw [if_neg fun h => h.elim (Nat.not_lt.mpr hlow) (Nat.not_lt.mpr hhigh), if_neg hsize]
    rfl

theorem tocArticle_eq_iff {cent : TOC} {artnum : Nat} :
    tocArticle cent artnum = s.OpenArticle path artnum ↔
      (cent.Has artnum ↔ Present (s.files path) artnum) := by
  rw [← tocArticle_isSome_iff, ← CAFOpenArtRead_isSome_iff]
  unfold tocArticle Spool.OpenArticle
  cases CAFOpenArtRead (s.files path) artnum <;> split_ifs <;> simp

theorem agrees_of_coherent (hcoherent : s.Coherent) : s.Agrees := by
  intro token now
  unfold Spool.timecafRetrieve
  split
  · unfold Spool.StatArticle
    cases hcached : s.CheckTOCCache token.timestamp token.tokenclass with
    | some cent =>
      exact tocArticle_eq_iff.mpr
        (hcoherent (MakePath token.timestamp token.tokenclass) cent hcached _)
    | none =>
      cases hfile : s.files (MakePath token.timestamp token.tokenclass) with
      | none =>
        unfold Spool.OpenArticle
        rw [hfile]
        rfl
      | some head =>
        refine tocArticle_eq_iff.mpr ?_
        rw [hfile]
        exact present_some.symm
  · rfl

theorem coherent_of_agrees (hinv : s.Inv) (hagrees : s.Agrees) : s.Coherent := by
  intro path toc hcached art
  obtain ⟨timestamp, tokenclass, now, rfl, hold⟩ := hinv.old path toc hcached
  have hthere := hagrees ⟨tokenclass, timestamp, art⟩ now
  unfold Spool.timecafRetrieve at hthere
  rw [if_pos hold] at hthere
  unfold Spool.StatArticle at hthere
  have hcheck : s.CheckTOCCache timestamp tokenclass = some toc := hcached
  dsimp only at hthere
  rw [hcheck] at hthere
  exact tocArticle_eq_iff.mp hthere

theorem coherent_update (hcoherent : s.Coherent) (hcache : s'.TOCCache = s.TOCCache)
    (hfiles : s'.files = Function.update s.files path file) :
    s'.Coherent ↔ s.cached path = none ∨ ∀ art, Present file art ↔ Present (s.files path) art := by
  have hcached (path : CAFPath) : s'.cached path = s.cached path := by
    unfold Spool.cached
    rw [hcache]
  constructor
  · intro hnew
    cases htoc : s.cached path with
    | none => exact .inl rfl
    | some toc =>
      refine .inr fun art => ?_
      have hthere := hnew path toc ((hcached path).trans htoc) art
      rw [hfiles, Function.update_self] at hthere
      exact hthere.symm.trans (hcoherent path toc htoc art)
  · intro hkept path' toc htoc art
    rw [hcached] at htoc
    rw [hfiles]
    by_cases hpath : path' = path
    · subst hpath
      rw [Function.update_self]
      rcases hkept with hnone | hsame
      · rw [hnone] at htoc
        cases htoc
      · exact (hcoherent _ toc htoc art).trans (hsame art).symm
    · rw [Function.update_of_ne hpath]
      exact hcoherent path' toc htoc art

end Coherence

section Steps

variable {s : Spool}

theorem timecafStore_cases (hinv : s.Inv) (tokenclass arrived now len startoffset : Nat) :
    let path := MakePath ((if arrived = 0 then now else arrived) / 2 ^ 8) tokenclass
    let s' := (s.timecafStore tokenclass arrived now len startoffset).2
    (¬Room (s.files path) ∧ (s' = s ∨ s' = { s with WritingFile := none })) ∨
      (Room (s.files path) ∧ ∃ (head : CAFFile) (hlow : head.Low ≤ head.High + 1),
        (∀ art, Present (s.files path) art ↔ head.Has art) ∧
        s' = { s with
          files := Function.update s.files path (some (head.finish startoffset len hlow))
          WritingFile := some path }) := by
  intro path s'
  have hhead : ∃ head : CAFFile,
      (if s.WritingFile = some path then s.files path
        else some ((s.files path).getD CAFCreateCAFFile)) = some head ∧
      (∀ art, Present (s.files path) art ↔ head.Has art) ∧
      (Room (s.files path) ↔
        head.Low ≤ head.High + 1 ∧ head.High + 1 < head.Low + head.NumSlots) := by
    cases hfile : s.files path with
    | none =>
      have hwriting : s.WritingFile ≠ some path := fun h => hinv.writing path h hfile
      refine ⟨CAFCreateCAFFile, if_neg hwriting, fun art => ⟨?_, fun h => absurd rfl h.2.2⟩,
        ⟨fun _ => ?_, fun _ => nofun⟩⟩
      · rintro ⟨_, heq, _⟩
        cases heq
      · decide
    | some head =>
      refine ⟨head, ite_self _, fun art => present_some, ⟨fun h => h head rfl, ?_⟩⟩
      rintro hfits _ heq
      cases heq
      exact hfits
  obtain ⟨head, heq, hpresent, hroom⟩ := hhead
  have hstore : s' = (s.timecafStore tokenclass arrived now len startoffset).2 := rfl
  unfold Spool.timecafStore at hstore
  dsimp only at hstore
  rw [heq] at hstore
  dsimp only at hstore
  by_cases hfits : head.Low ≤ head.High + 1 ∧ head.High + 1 < head.Low + head.NumSlots
  · rw [dif_pos hfits] at hstore
    exact .inr ⟨hroom.mpr hfits, head, hfits.1, hpresent, hstore⟩
  · rw [dif_neg hfits] at hstore
    refine .inl ⟨fun h => hfits (hroom.mp h), ?_⟩
    by_cases hreuse : s.WritingFile = some path
    · exact .inl (hstore.trans (if_pos hreuse))
    · exact .inr (hstore.trans (if_neg hreuse))

theorem store_coherent_iff (hinv : s.Inv) (hcoherent : s.Coherent)
    {tokenclass arrived now len startoffset : Nat} :
    (s.timecafStore tokenclass arrived now len startoffset).2.Coherent ↔
      (Event.store tokenclass arrived now len startoffset).Safe s := by
  rcases timecafStore_cases hinv tokenclass arrived now len startoffset with
    ⟨hfull, hsame | hsame⟩ | ⟨hroom, head, hlow, hpresent, hsame⟩
  · rw [hsame]
    exact ⟨fun _ => .inr (.inr hfull), fun _ => hcoherent⟩
  · rw [hsame]
    exact ⟨fun _ => .inr (.inr hfull), fun _ => hcoherent⟩
  · rw [hsame]
    refine Iff.trans (coherent_update hcoherent rfl rfl) ?_
    have hfinish (art : Nat) : Present (some (head.finish startoffset len hlow)) art ↔
        head.Has art ∨ art = head.High + 1 ∧ len ≠ 0 := present_some.trans (TOC.finish_has hlow)
    constructor
    · rintro (hnone | hkept)
      · exact .inl hnone
      · refine .inr (.inl ?_)
        by_contra hlen
        have hnew :=
          (hpresent _).mp ((hkept (head.High + 1)).mp ((hfinish _).mpr (.inr ⟨rfl, hlen⟩)))
        exact Nat.not_succ_le_self _ hnew.2.1
    · rintro (hnone | hlen | hfull)
      · exact .inl hnone
      · refine .inr fun art => (hfinish art).trans (Iff.trans ?_ (hpresent art).symm)
        exact or_iff_left fun h => h.2 hlen
      · exact absurd hroom hfull

theorem flush_coherent_iff (hcoherent : s.Coherent) {space : Space} : (s.DoCancels space).Coherent ↔
    s.FlushSafe := by
  unfold Spool.DoCancels Spool.FlushSafe
  cases hpath : s.DeletePath with
  | none => exact ⟨fun _ => nofun, fun _ => hcoherent⟩
  | some path =>
    dsimp only
    split
    next hnil =>
      refine ⟨fun _ path _ => .inr fun art hart => ?_, fun _ => hcoherent⟩
      rw [hnil] at hart
      cases hart
    next =>
      refine Iff.trans (coherent_update hcoherent rfl rfl) ?_
      have hkept : (∀ art, Present (CAFRemoveMultArts (s.files path) s.DeleteArtnums space) art ↔
          Present (s.files path) art) ↔
          ∀ art ∈ s.DeleteArtnums, ¬Present (s.files path) art := by
        constructor
        · intro hsame art hart hhas
          exact (CAFRemoveMultArts_present.mp ((hsame art).mpr hhas)).2 hart
        · intro hnot art
          refine CAFRemoveMultArts_present.trans ⟨fun h => h.1,
            fun hhas => ⟨hhas, fun hart => hnot art hart hhas⟩⟩
      rw [hkept]
      constructor
      · rintro h _ heq
        obtain rfl := Option.some.inj heq
        exact h
      · intro h
        exact h path rfl

theorem flush_inv (hinv : s.Inv) {space : Space} : (s.DoCancels space).Inv := by
  unfold Spool.DoCancels
  cases hpath : s.DeletePath with
  | none => exact hinv
  | some path =>
    dsimp only
    split
    · exact ⟨hinv.writing, hinv.old⟩
    · refine ⟨fun path' hwriting => ?_, hinv.old⟩
      dsimp only at hwriting
      split at hwriting
      · cases hwriting
      next hother =>
        have hne : path' ≠ path := fun heq => hother (heq ▸ hwriting)
        dsimp only
        rw [Function.update_of_ne hne]
        exact hinv.writing path' hwriting

theorem stat_files (token : Token) (now : Nat) :
    (s.timecafRetrieve token now).2 = s ∨ ∃ toc, CAFReadTOC
    (s.files (MakePath token.timestamp token.tokenclass)) = some toc ∧
      token.timestamp < now / 2 ^ 8 % 2 ^ 24 ∧
      (s.timecafRetrieve token now).2 = s.AddTOCCache token.timestamp toc token.tokenclass := by
  unfold Spool.timecafRetrieve
  split
  next hold =>
    unfold Spool.StatArticle
    split
    · exact .inl rfl
    · split
      · exact .inl rfl
      next toc htoc => exact .inr ⟨toc, htoc, hold, rfl⟩
  next => exact .inl rfl

theorem addTOCCache_cached {timestamp tokenclass : Nat} {toc : TOC} {path : CAFPath} :
    (s.AddTOCCache timestamp toc tokenclass).cached path =
      if path = MakePath timestamp tokenclass then some toc else s.cached path := by
  obtain ⟨c, i, j, k⟩ := path
  unfold Spool.cached Spool.AddTOCCache MakePath
  simp only [CAFPath.mk.injEq]

theorem stat_coherent (hcoherent : s.Coherent) (token : Token) (now : Nat) :
    (s.timecafRetrieve token now).2.Coherent := by
  rcases stat_files token now with hsame | ⟨toc, htoc, _, hsame⟩
  · rw [hsame]
    exact hcoherent
  · rw [hsame]
    intro path toc' hcached art
    rw [addTOCCache_cached] at hcached
    change _ ↔ Present (s.files path) art
    split at hcached
    next hpath =>
      cases hcached
      rw [hpath]
      obtain ⟨head, hfile, rfl⟩ := Option.map_eq_some_iff.mp htoc
      rw [hfile]
      exact present_some.symm
    next => exact hcoherent path toc' hcached art

theorem stat_inv (hinv : s.Inv) (token : Token) (now : Nat) :
    (s.timecafRetrieve token now).2.Inv := by
  rcases stat_files token now with hsame | ⟨toc, _, hold, hsame⟩
  · rw [hsame]
    exact hinv
  · rw [hsame]
    refine ⟨hinv.writing, fun path toc' hcached => ?_⟩
    rw [addTOCCache_cached] at hcached
    split at hcached
    next hpath => exact ⟨_, _, now, hpath.symm, hold⟩
    next => exact hinv.old path toc' hcached

theorem store_inv (hinv : s.Inv) (tokenclass arrived now len startoffset : Nat) :
    (s.timecafStore tokenclass arrived now len startoffset).2.Inv := by
  rcases timecafStore_cases hinv tokenclass arrived now len startoffset with
    ⟨_, hsame | hsame⟩ | ⟨_, head, hlow, _, hsame⟩
  · rw [hsame]
    exact hinv
  · rw [hsame]
    exact ⟨nofun, hinv.old⟩
  · rw [hsame]
    refine ⟨fun path hwriting => ?_, hinv.old⟩
    obtain rfl := Option.some.inj hwriting
    dsimp only
    rw [Function.update_self]
    exact nofun

theorem step_coherent_iff (hinv : s.Inv) (hcoherent : s.Coherent) (event : Event) :
    (s.step event).Coherent ↔ event.Safe s := by
  cases event with
  | store tokenclass arrived now len startoffset => exact store_coherent_iff hinv hcoherent
  | cancel token space =>
    change (s.timecafCancel token space).Coherent ↔ _ ∨ _
    unfold Spool.timecafCancel
    dsimp only
    split
    next hsame =>
      refine ⟨fun _ => ?_, fun _ => hcoherent⟩
      rcases hsame with hnone | hsame
      · refine .inr fun path hpath => ?_
        rw [hnone] at hpath
        cases hpath
      · exact .inl hsame
    next hother =>
      have hflush : (s.DoCancels space).Coherent ↔ s.FlushSafe := flush_coherent_iff hcoherent
      exact hflush.trans (or_iff_right fun h => hother (.inr h)).symm
  | flush space => exact flush_coherent_iff hcoherent
  | stat token now => exact ⟨fun _ => trivial, fun _ => stat_coherent hcoherent token now⟩

theorem step_inv (hinv : s.Inv) (event : Event) : (s.step event).Inv := by
  cases event with
  | store tokenclass arrived now len startoffset =>
      exact store_inv hinv tokenclass arrived now len startoffset
  | cancel token space =>
    change (s.timecafCancel token space).Inv
    unfold Spool.timecafCancel
    dsimp only
    split
    · exact ⟨hinv.writing, hinv.old⟩
    · have hflush : (s.DoCancels space).Inv := flush_inv hinv
      exact ⟨hflush.writing, hflush.old⟩
  | flush space => exact flush_inv hinv
  | stat token now => exact stat_inv hinv token now

end Steps

theorem agreesAlong_iff {s : Spool} (hinv : s.Inv) (hcoherent : s.Coherent) (events : List Event) :
    s.AgreesAlong events ↔ s.SafeAlong events := by
  induction events generalizing s with
  | nil => exact ⟨fun _ => trivial, fun _ => agrees_of_coherent hcoherent⟩
  | cons event events ih =>
    have hinv' := step_inv hinv event
    have hstep := step_coherent_iff hinv hcoherent event
    have hnow := agrees_of_coherent hcoherent
    constructor
    · rintro ⟨_, hrest⟩
      have hagrees : (s.step event).Agrees := by
        cases events with
        | nil => exact hrest
        | cons _ _ => exact hrest.1
      have hcoherent' := coherent_of_agrees hinv' hagrees
      exact ⟨hstep.mp hcoherent', (ih hinv' hcoherent').mp hrest⟩
    · rintro ⟨hsafe, hrest⟩
      exact ⟨hnow, (ih hinv' (hstep.mpr hsafe)).mpr hrest⟩

theorem start_inv (files : CAFPath → Option CAFFile) : (Spool.start files).Inv := ⟨nofun, nofun⟩

theorem start_coherent (files : CAFPath → Option CAFFile) : (Spool.start files).Coherent := nofun

/-- At every moment of a run the cache of tables of contents answers as the files would, exactly
when no step changes which articles are in a file whose table is kept. -/
theorem timecaf_retrieve_agrees_iff (files : CAFPath → Option CAFFile) (events : List Event) :
    (Spool.start files).AgreesAlong events ↔ (Spool.start files).SafeAlong events :=
  agreesAlong_iff (start_inv files) (start_coherent files) events

def staleEvents : List Event :=
  [.store 0 256 65536 10 7996416, .stat ⟨0, 1, 2⟩ 65536, .cancel ⟨0, 1, 2⟩ ⟨true, false⟩,
    .flush ⟨true, false⟩]

/-- The article is looked for and seems to be there, and its file does not exist any more. -/
theorem not_timecaf_retrieve_agrees_stale :
    ¬(Spool.start fun _ => none).AgreesAlong staleEvents ∧
      (((staleEvents.foldl Spool.step (Spool.start fun _ => none)).timecafRetrieve ⟨0, 1,
        2⟩ 65536).1 = some .stat) ∧
      (staleEvents.foldl Spool.step (Spool.start fun _ => none)).OpenArticle
        (MakePath 1 0) 2 = none := by
  have hstale :
      ((staleEvents.foldl Spool.step (Spool.start fun _ => none)).timecafRetrieve ⟨0, 1,
        2⟩ 65536).1 = some .stat := by
    decide
  have hgone : (staleEvents.foldl Spool.step (Spool.start fun _ => none)).OpenArticle
      (MakePath 1 0) 2 = none := by
    decide
  refine ⟨fun h => ?_, hstale, hgone⟩
  have hthere := h.2.2.2.2 ⟨0, 1, 2⟩ 65536
  exact nomatch hgone.symm.trans (hthere.symm.trans hstale)

end Inn.Storage.Timecaf
