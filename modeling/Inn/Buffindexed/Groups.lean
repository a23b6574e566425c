import Inn.Foundation.Runs
import Inn.Foundation.Threaded
import Inn.Hash

/-!
# The group index of the buffers

The index has an entry for each group, found by the hash of the group's name: the entries are
chained from the bucket that the hash selects. Entries that are not in use are in the list of free
ones, and the file grows by 1024 entries when there are none. A group that is deleted is marked so
in its entry, and its hash is cleared.

The links of the chains, which the source has in the header and in the entries, are kept together.
One process has the file mapped.
-/

namespace Inn.Buffindexed.Groups

open Foundation.Threaded Foundation.Runs
open Option (some_ne_none)
open Function (update update_self update_of_ne)

def GROUPHEADERHASHSIZE : Nat := 16 * 1024

def GROUPHEADERMAGIC : Nat := 2 ^ 32 - 1 - 0xf1f0f33d

abbrev Bucket := Fin GROUPHEADERHASHSIZE

abbrev Group := List UInt8

structure GROUPENTRY where
  hash : HASH
  high : Nat
  low : Nat
  expired : Nat
  deleted : Nat
  count : Int
  flag : UInt8
  deriving DecidableEq

def GROUPENTRY.zero : GROUPENTRY := ⟨HashClear, 0, 0, 0, 0, 0, 0⟩

structure Index where
  magic : Nat
  links : Links (Option Bucket) Nat
  entries : Nat → GROUPENTRY
  GROUPcount : Nat

inductive Fault
  | assertion
  | endless
  deriving DecidableEq

def Index.created : Index := ⟨0, fun _ => some 0, fun _ => .zero, 0⟩

namespace Index

variable (s : Index)

def setEntry (loc : Nat) (ge : GROUPENTRY) : Index := { s with entries := update s.entries loc ge }

def push (list : Option Bucket) (loc : Nat) : Index :=
  { s with links := update (update s.links (.inr loc) (s.links (.inl list))) (.inl list) (some loc) }

def addNewEntries (first : Nat) : Nat → Index → Index
  | 0, s => s
  | n + 1, s => addNewEntries first n (s.push none (first + n))

def setHeader : Index :=
  if s.magic ≠ GROUPHEADERMAGIC then
    { s with
      magic := GROUPHEADERMAGIC
      links := fun place => match place with
        | .inl _ => none
        | .inr loc => s.links (.inr loc) }
  else s

def ftruncate (count : Nat) : Index :=
  { s with
    entries := fun loc => if loc < s.GROUPcount then s.entries loc else .zero
    GROUPcount := count }

def GROUPexpand : Index :=
  let count := s.GROUPcount + 1024
  addNewEntries (count - 1024) 1024 (s.ftruncate count).setHeader

def buffindexedOpen : Index := GROUPexpand .created

def bucket (grouphash : HASH) : Bucket :=
    ⟨grouphash.word % GROUPHEADERHASHSIZE, Nat.mod_lt _ (by decide)⟩

def GROUPENTRY.matches (ge : GROUPENTRY) (grouphash : HASH) (Ignoredeleted : Bool) : Bool :=
  (ge.deleted = 0 || Ignoredeleted) && grouphash = ge.hash

def GROUPfindLoop (grouphash : HASH) (Ignoredeleted : Bool) :
    Nat → Option Nat → Except Fault (Option Nat)
  | _, none => .ok none
  | 0, some _ => .error .endless
  | turns + 1, some loc =>
    if GROUPENTRY.matches (s.entries loc) grouphash Ignoredeleted then .ok (some loc)
    else GROUPfindLoop grouphash Ignoredeleted turns (s.links (.inr loc))

def GROUPfind (grouphash : HASH) (Ignoredeleted : Bool) : Except Fault (Option Nat) :=
  s.GROUPfindLoop grouphash Ignoredeleted s.GROUPcount (s.links (.inl (some (bucket grouphash))))

def GROUPnewnode : Except Fault (Nat × Index) :=
  let s := if s.links (.inl none) = none then s.GROUPexpand else s
  match s.links (.inl none) with
  | none => .error .assertion
  | some loc => .ok (loc, { s with links := update s.links (.inl none) (s.links (.inr loc)) })

def setinitialge (ge : GROUPENTRY) (grouphash : HASH) (flag : UInt8) (lo hi : Nat) : GROUPENTRY :=
  { ge with
    hash := grouphash
    low := if lo ≠ 0 then lo else ge.low
    high := hi
    expired := 0
    deleted := 0
    count := 0
    flag := flag }

variable (Hash : Group → HASH)

def buffindexedGroupadd (group : Group) (lo hi : Nat) (flag : UInt8) : Except Fault Index :=
  let grouphash := Hash group
  match s.GROUPfind grouphash true with
  | .error e => .error e
  | .ok (some loc) =>
    let ge := s.entries loc
    if ge.deleted ≠ 0 then .ok (s.setEntry loc (setinitialge ge grouphash flag lo hi))
    else .ok (s.setEntry loc { ge with flag := flag })
  | .ok none =>
    match s.GROUPnewnode with
    | .error e => .error e
    | .ok (loc, s) =>
      .ok ((s.setEntry loc (setinitialge (s.entries loc) grouphash flag lo hi)).push
        (some (bucket grouphash)) loc)

def buffindexedGroupdel (group : Group) (now : Nat) : Except Fault Index :=
  match s.GROUPfind (Hash group) false with
  | .error e => .error e
  | .ok none => .ok s
  | .ok (some loc) => .ok (s.setEntry loc { s.entries loc with deleted := now, hash := HashClear })

end Index

inductive Call
  | buffindexedGroupadd (group : Group) (lo hi : Nat) (flag : UInt8)
  | buffindexedGroupdel (group : Group) (now : Nat)

def Call.group : Call → Group
  | .buffindexedGroupadd group .. => group
  | .buffindexedGroupdel group _ => group

def Index.step (Hash : Group → HASH) (s : Index) : Call → Except Fault Index
  | .buffindexedGroupadd group lo hi flag => s.buffindexedGroupadd Hash group lo hi flag
  | .buffindexedGroupdel group now => s.buffindexedGroupdel Hash group now

structure Contents where
  low : Nat
  high : Nat
  count : Int
  flag : UInt8
  deriving DecidableEq

def GROUPENTRY.contents (ge : GROUPENTRY) : Contents := ⟨ge.low, ge.high, ge.count, ge.flag⟩

def Index.buffindexedGroupstats (s : Index) (Hash : Group → HASH) (group : Group) :
    Except Fault (Option Contents) :=
  (s.GROUPfind (Hash group) false).map fun found => found.map fun loc => (s.entries loc).contents

def Call.update (map : Group → Option Contents) : Call → Group → Option Contents
  | .buffindexedGroupadd group lo hi flag => Function.update map group
      (some (((map group).map fun contents => { contents with flag := flag }).getD ⟨lo,
        hi, 0, flag⟩))
  | .buffindexedGroupdel group _ => Function.update map group none

namespace Index

variable {s s' : Index} {lists : Option Bucket → List Nat} {groups : HASH → Option Contents}
    {present : Nat → Prop}
  {grouphash : HASH} {loc : Nat}

theorem setEntry_self (s : Index) (loc : Nat) (ge : GROUPENTRY) :
    (s.setEntry loc ge).entries loc = ge :=
  update_self ..

theorem setEntry_of_ne (s : Index) {loc loc' : Nat} (hne : loc' ≠ loc) (ge : GROUPENTRY) :
    (s.setEntry loc ge).entries loc' = s.entries loc' := update_of_ne hne ..

theorem GROUPfindLoop_eq {start : Option Nat} {list : List Nat} (hchain : Chain s.links start list)
    (grouphash : HASH) (Ignoredeleted : Bool) {turns : Nat} (hturns : list.length ≤ turns) :
    s.GROUPfindLoop grouphash Ignoredeleted turns start =
      .ok (list.find? fun loc => GROUPENTRY.matches (s.entries loc) grouphash Ignoredeleted) := by
  induction hchain generalizing turns with
  | nil => cases turns <;> rfl
  | @cons loc rest _ ih =>
    cases turns with
    | zero => cases hturns
    | succ turns =>
      rw [GROUPfindLoop, List.find?_cons]
      split
      next hmatch => rw [hmatch]
      next hmatch =>
        rw [Bool.eq_false_iff.mpr hmatch]
        exact ih (Nat.le_of_succ_le_succ hturns)

/-- The lists take the slots apart, and a hash is in one slot at most. -/
structure Kept (s : Index) (lists : Option Bucket → List Nat)
    (groups : HASH → Option Contents) : Prop where
  threads : Threads s.links lists (· < s.GROUPcount)
  magic : s.magic = GROUPHEADERMAGIC
  fresh : ∀ loc ∈ lists none, (s.entries loc).low = 0
  placed : ∀ {i loc}, loc ∈ lists (some i) →
    (s.entries loc).hash = HashClear ∨ (s.entries loc).deleted = 0 ∧ bucket (s.entries loc).hash = i
  distinct : ∀ {i j loc loc'}, loc ∈ lists (some i) → loc' ∈ lists (some j) →
    (s.entries loc).hash = (s.entries loc').hash → (s.entries loc).hash ≠ HashClear → loc = loc'
  stored : ∀ hash contents, hash ≠ HashClear → (groups hash = some contents ↔
    ∃ i, ∃ loc ∈ lists (some i), (s.entries loc).hash = hash ∧ (s.entries loc).contents = contents)
  room : (lists none).length ≤ 1024

theorem Kept.lt (hkept : s.Kept lists groups) {list : Option Bucket} (hloc : loc ∈ lists list) :
    loc < s.GROUPcount :=
  (hkept.threads.covers loc).mpr ⟨list, hloc⟩

theorem Kept.find (hkept : s.Kept lists groups) (hclear : grouphash ≠ HashClear)
    (Ignoredeleted : Bool) :
    s.GROUPfind grouphash Ignoredeleted = .ok none ∧ groups grouphash = none ∨
      ∃ loc, s.GROUPfind grouphash Ignoredeleted = .ok (some loc) ∧
        loc ∈ lists (some (bucket grouphash)) ∧
        (s.entries loc).hash = grouphash ∧ (s.entries loc).deleted = 0 ∧
        groups grouphash = some (s.entries loc).contents := by
  have hchain := hkept.threads.chain (some (bucket grouphash))
  have heq := GROUPfindLoop_eq hchain grouphash Ignoredeleted
    (hchain.length_le fun loc hloc => hkept.lt hloc)
  cases hfound : (lists (some (bucket grouphash))).find? fun loc =>
      GROUPENTRY.matches (s.entries loc) grouphash Ignoredeleted with
  | none =>
    rw [hfound] at heq
    refine .inl ⟨heq, ?_⟩
    by_contra hgroup
    obtain ⟨contents, hcontents⟩ := Option.ne_none_iff_exists'.mp hgroup
    obtain ⟨i, loc, hloc, hhash, -⟩ := (hkept.stored grouphash contents hclear).mp hcontents
    rcases hkept.placed hloc with hcleared | ⟨hdeleted, rfl⟩
    · exact hclear (hhash.symm.trans hcleared)
    · rw [hhash] at hloc
      have := List.find?_eq_none.mp hfound loc hloc
      simp [GROUPENTRY.matches, hdeleted, hhash] at this
  | some loc =>
    rw [hfound] at heq
    have hloc := List.mem_of_find?_eq_some hfound
    have hmatch := List.find?_some hfound
    have hhash : (s.entries loc).hash = grouphash := by
      simp only [GROUPENTRY.matches, Bool.and_eq_true, decide_eq_true_eq] at hmatch
      exact hmatch.2.symm
    refine .inr ⟨loc, heq, hloc, hhash, ?_, ?_⟩
    · rcases hkept.placed hloc with hcleared | ⟨hdeleted, -⟩
      · exact absurd (hhash.symm.trans hcleared) hclear
      · exact hdeleted
    · exact (hkept.stored grouphash _ hclear).mpr ⟨_, loc, hloc, hhash, rfl⟩

theorem Kept.setEntry (hkept : s.Kept lists groups) (hclear : grouphash ≠ HashClear) {i : Bucket}
    (hloc : loc ∈ lists (some i)) (hhash : (s.entries loc).hash = grouphash) {ge : GROUPENTRY}
    (hge : ge.hash = HashClear ∨ ge.hash = grouphash ∧ ge.deleted = 0) :
    (s.setEntry loc ge).Kept lists
      (update groups grouphash (if ge.hash = HashClear then none else some ge.contents)) := by
  have hother {loc' : Nat} (hne : loc' ≠ loc) : (s.setEntry loc ge).entries loc' = s.entries loc' :=
    setEntry_of_ne s hne ge
  have hself : (s.setEntry loc ge).entries loc = ge := setEntry_self s loc ge
  have hplaced := hkept.placed hloc
  refine ⟨hkept.threads, hkept.magic, fun loc' hloc' => ?_, fun {j loc'} hloc' => ?_,
    fun {j k loc₁ loc₂} hloc₁ hloc₂ hsame hne => ?_, fun hash contents hhash' => ?_, hkept.room⟩
  · have hne : loc' ≠ loc := by
      rintro rfl
      cases hkept.threads.disjoint hloc' hloc
    rw [hother hne]
    exact hkept.fresh loc' hloc'
  · by_cases hne : loc' = loc
    · subst hne
      rw [hself]
      refine hge.imp_right fun ⟨hge, hdeleted⟩ => ⟨hdeleted, ?_⟩
      cases hkept.threads.disjoint hloc hloc'
      rcases hplaced with hcleared | ⟨-, hbucket⟩
      · exact absurd (hhash.symm.trans hcleared) hclear
      · rw [hge, ← hhash, hbucket]
    · rw [hother hne]
      exact hkept.placed hloc'
  · by_cases h₁ : loc₁ = loc
    · by_cases h₂ : loc₂ = loc
      · rw [h₁, h₂]
      · subst h₁
        rw [hself, hother h₂] at hsame
        rw [hself] at hne
        rw [(hge.resolve_left hne).1, ← hhash] at hsame
        exact hkept.distinct hloc hloc₂ hsame (hhash ▸ hclear)
    · by_cases h₂ : loc₂ = loc
      · subst h₂
        rw [hself, hother h₁] at hsame
        rw [hother h₁] at hne
        rw [hsame] at hne
        rw [(hge.resolve_left hne).1, ← hhash] at hsame
        exact hkept.distinct hloc₁ hloc hsame (hsame ▸ hhash ▸ hclear)
      · rw [hother h₁] at hne
        rw [hother h₁, hother h₂] at hsame
        exact hkept.distinct hloc₁ hloc₂ hsame hne
  · by_cases heq : hash = grouphash
    · subst heq
      rw [update_self]
      constructor
      · intro hcontents
        split at hcontents
        · cases hcontents
        next hne => exact ⟨i, loc, hloc,
          by rw [hself, (hge.resolve_left hne).1], by rw [hself, Option.some.inj hcontents]⟩
      · rintro ⟨j, loc', hloc', hhash₁, hcontents⟩
        have hsame : loc' = loc := by
          by_contra hne
          rw [hother hne] at hhash₁
          exact hne (hkept.distinct hloc' hloc (hhash₁.trans hhash.symm) (hhash₁ ▸ hclear))
        subst hsame
        rw [hself] at hhash₁ hcontents
        rw [if_neg (hhash₁ ▸ hhash'), hcontents]
    · rw [update_of_ne heq, hkept.stored hash contents hhash']
      constructor
      · rintro ⟨j, loc', hloc', hhash₁, hcontents⟩
        have hne : loc' ≠ loc := by
          rintro rfl
          exact heq (hhash₁.symm.trans hhash)
        exact ⟨j, loc', hloc', by rwa [hother hne], by rwa [hother hne]⟩
      · rintro ⟨j, loc', hloc', hhash₁, hcontents⟩
        have hne : loc' ≠ loc := by
          rintro rfl
          rw [hself] at hhash₁
          rcases hge with hcleared | ⟨hge, -⟩
          · exact hhash' (hhash₁.symm.trans hcleared)
          · exact heq (hhash₁.symm.trans hge)
        rw [hother hne] at hhash₁ hcontents
        exact ⟨j, loc', hloc', hhash₁, hcontents⟩

theorem Kept.newnode (hkept : s.Kept lists groups) (hclear : grouphash ≠ HashClear)
    (hgroup : groups grouphash = none)
    {rest : List Nat} (hfree : lists none = loc :: rest) {lo hi : Nat} {flag : UInt8} :
    let t : Index := { s with links := update s.links (.inl none) (s.links (.inr loc)) }
    ((t.setEntry loc (setinitialge (t.entries loc) grouphash flag lo hi)).push
      (some (bucket grouphash)) loc).Kept
      (update (update lists none rest) (some (bucket grouphash))
        (loc :: lists (some (bucket grouphash))))
      (update groups grouphash (some ⟨lo, hi, 0, flag⟩)) := by
  intro t
  have hlow : (s.entries loc).low = 0 := hkept.fresh loc (hfree ▸ List.mem_cons_self)
  have hself : (t.setEntry loc (setinitialge (t.entries loc) grouphash flag lo hi)).entries loc =
      setinitialge (s.entries loc) grouphash flag lo hi := update_self ..
  have hcontents :
      (setinitialge (s.entries loc) grouphash flag lo hi).contents = ⟨lo, hi, 0, flag⟩ := by
    have hlo : (if lo ≠ 0 then lo else 0) = lo := by split <;> omega
    rw [GROUPENTRY.contents, setinitialge, hlow, hlo]
  have hother {loc' : Nat} (hne : loc' ≠ loc) :
      (t.setEntry loc (setinitialge (t.entries loc) grouphash flag lo hi)).entries loc' =
        s.entries loc' :=
    update_of_ne hne ..
  have hspliced : Threads t.links (update lists none rest) (fun b => b < s.GROUPcount ∧ b ≠ loc) :=
    hkept.threads.splice (show lists none = [] ++ loc :: rest from hfree)
  have hpushed : Threads _ _ (· < s.GROUPcount) :=
    (hspliced.push (fun hpresent => hpresent.2 rfl) (some (bucket grouphash))).congr_present
      fun b => by
      have hlt := hkept.lt (hfree ▸ List.mem_cons_self : loc ∈ lists none)
      by_cases hb : b = loc <;> simp [hb, hlt]
  have hsome (i : Bucket) : update lists none rest (some i) = lists (some i) :=
    update_of_ne (some_ne_none i) ..
  rw [hsome] at hpushed
  have hmem {i : Bucket} {loc' : Nat} (hloc' : loc' ∈ update (update lists none rest)
      (some (bucket grouphash)) (loc :: lists (some (bucket grouphash))) (some i)) :
      loc' = loc ∧ i = bucket grouphash ∨ loc' ≠ loc ∧ loc' ∈ lists (some i) := by
    have hnot (j : Bucket) (hmem : loc ∈ lists (some j)) : False := by
      cases hkept.threads.disjoint hmem (hfree ▸ List.mem_cons_self : loc ∈ lists none)
    by_cases hi : i = bucket grouphash
    · rw [hi, update_self] at hloc'
      rcases List.mem_cons.mp hloc' with rfl | hold
      · exact .inl ⟨rfl, hi⟩
      · exact .inr ⟨fun heq => hnot _ (heq ▸ hold), hi ▸ hold⟩
    · rw [update_of_ne (fun heq => hi (Option.some.inj heq)), hsome] at hloc'
      exact .inr ⟨fun heq => hnot _ (heq ▸ hloc'), hloc'⟩
  have hnotgroup {i : Bucket} {loc' : Nat} (hloc' : loc' ∈ lists (some i)) :
    (s.entries loc').hash ≠ grouphash := by
    intro hhash
    have := (hkept.stored grouphash _ hclear).mpr ⟨i, loc', hloc', hhash, rfl⟩
    rw [hgroup] at this
    cases this
  refine ⟨hpushed, hkept.magic, fun loc' hloc' => ?_, fun {i loc'} hloc' => ?_, fun {i j loc₁ loc₂} hloc₁ hloc₂ hsame hne => ?_,
    fun hash contents hhash => ?_, ?_⟩
  · rw [update_of_ne (some_ne_none _).symm, update_self] at hloc'
    have hnodup := (hkept.threads.chain none).nodup
    rw [hfree, List.nodup_cons] at hnodup
    have hne : loc' ≠ loc := fun heq => hnodup.1 (heq ▸ hloc')
    change ((t.setEntry loc _).entries loc').low = 0
    rw [hother hne]
    exact hkept.fresh loc' (hfree ▸ List.mem_cons_of_mem loc hloc')
  · change ((t.setEntry loc _).entries loc').hash = HashClear ∨
      ((t.setEntry loc _).entries loc').deleted = 0 ∧
        bucket ((t.setEntry loc _).entries loc').hash = i
    rcases hmem hloc' with ⟨rfl, rfl⟩ | ⟨hne, hold⟩
    · rw [hself]
      exact .inr ⟨rfl, rfl⟩
    · rw [hother hne]
      exact hkept.placed hold
  · change ((t.setEntry loc _).entries loc₁).hash = ((t.setEntry loc _).entries loc₂).hash at hsame
    change ((t.setEntry loc _).entries loc₁).hash ≠ HashClear at hne
    rcases hmem hloc₁ with ⟨rfl, rfl⟩ | ⟨hne₁, hold₁⟩
    · rcases hmem hloc₂ with ⟨rfl, -⟩ | ⟨hne₂, hold₂⟩
      · rfl
      · rw [hself, hother hne₂] at hsame
        exact absurd hsame.symm (hnotgroup hold₂)
    · rcases hmem hloc₂ with ⟨rfl, -⟩ | ⟨hne₂, hold₂⟩
      · rw [hself, hother hne₁] at hsame
        exact absurd hsame (hnotgroup hold₁)
      · rw [hother hne₁] at hne
        rw [hother hne₁, hother hne₂] at hsame
        exact hkept.distinct hold₁ hold₂ hsame hne
  · change _ ↔ ∃ i, ∃ loc' ∈ _, ((t.setEntry loc _).entries loc').hash = hash ∧
      ((t.setEntry loc _).entries loc').contents = contents
    by_cases heq : hash = grouphash
    · subst heq
      rw [update_self]
      constructor
      · intro hsome'
        refine ⟨bucket hash, loc, by rw [update_self]; exact List.mem_cons_self, by rw [hself]; rfl, ?_⟩
        rw [hself, hcontents]
        exact Option.some.inj hsome'
      · rintro ⟨i, loc', hloc', hhash', hsame⟩
        rcases hmem hloc' with ⟨rfl, -⟩ | ⟨hne, hold⟩
        · rw [hself, hcontents] at hsame
          rw [hsame]
        · rw [hother hne] at hhash'
          exact absurd hhash' (hnotgroup hold)
    · rw [update_of_ne heq, hkept.stored hash contents hhash]
      constructor
      · rintro ⟨i, loc', hloc', hhash', hsame⟩
        have hne : loc' ≠ loc := by
          rintro rfl
          cases hkept.threads.disjoint hloc' (hfree ▸ List.mem_cons_self : loc' ∈ lists none)
        refine ⟨i, loc', ?_, by rwa [hother hne], by rwa [hother hne]⟩
        by_cases hi : i = bucket grouphash
        · rw [hi, update_self]
          exact List.mem_cons_of_mem loc (hi ▸ hloc')
        · rwa [update_of_ne (fun heq => hi (Option.some.inj heq)), hsome]
      · rintro ⟨i, loc', hloc', hhash', hsame⟩
        rcases hmem hloc' with ⟨rfl, -⟩ | ⟨hne, hold⟩
        · rw [hself] at hhash'
          exact absurd hhash'.symm heq
        · rw [hother hne] at hhash' hsame
          exact ⟨i, loc', hold, hhash', hsame⟩
  · rw [update_of_ne (some_ne_none _).symm, update_self]
    have hroom := hkept.room
    rw [hfree] at hroom
    exact Nat.le_of_succ_le hroom

theorem addNewEntries_threads (hthreads : Threads s.links lists present) {first n : Nat}
    (hnew : ∀ loc, first ≤ loc → loc < first + n → ¬ present loc) :
    Threads (addNewEntries first n s).links (update lists none (List.range' first n ++ lists none))
      (fun loc => first ≤ loc ∧ loc < first + n ∨ present loc) := by
  induction n generalizing s lists present with
  | zero =>
    rw [List.range'_zero, List.nil_append, Function.update_eq_self]
    exact hthreads.congr_present fun loc => or_iff_right fun hloc => by omega
  | succ n ih =>
    have hpush := hthreads.push (hnew (first + n) (Nat.le_add_right ..) (Nat.lt_succ_self _)) none
    have hrest := ih (s := s.push none (first + n)) hpush fun loc hfirst hlast => by
      rintro (heq | hpresent)
      · omega
      · exact hnew loc hfirst (Nat.lt_succ_of_lt hlast) hpresent
    rw [update_self, Function.update_idem] at hrest
    rw [addNewEntries, List.range'_concat, Nat.one_mul, List.append_assoc, List.singleton_append]
    refine hrest.congr_present fun loc => ?_
    by_cases hlast : loc = first + n
    · simp [hlast]
    · have : loc < first + (n + 1) ↔ loc < first + n := by omega
      simp [hlast, this]

theorem addNewEntries_eq (first n : Nat) (s : Index) :
    addNewEntries first n s = { s with links := (addNewEntries first n s).links } := by
  induction n generalizing s with
  | zero => rfl
  | succ n ih => rw [addNewEntries, ih]; rfl

theorem Kept.expand (hkept : s.Kept lists groups) (hfree : lists none = []) :
    s.GROUPexpand.Kept (update lists none (List.range' s.GROUPcount 1024)) groups ∧
      s.GROUPexpand.GROUPcount = s.GROUPcount + 1024 ∧
      ∀ i, ∀ loc ∈ lists (some i), s.GROUPexpand.entries loc = s.entries loc := by
  have hheader :
      (s.ftruncate (s.GROUPcount + 1024)).setHeader = s.ftruncate (s.GROUPcount + 1024) :=
    if_neg (not_not.mpr hkept.magic)
  have hthreads :=
    addNewEntries_threads (s := s.ftruncate (s.GROUPcount + 1024)) (n := 1024) hkept.threads
    fun loc hloc _ => Nat.not_lt.mpr hloc
  rw [hfree, List.append_nil] at hthreads
  have hexpand : s.GROUPexpand = { s.ftruncate (s.GROUPcount + 1024) with
      links := (addNewEntries s.GROUPcount 1024 (s.ftruncate (s.GROUPcount + 1024))).links } := by
    rw [GROUPexpand, Nat.add_sub_cancel, hheader]
    exact addNewEntries_eq ..
  have hchains {i : Bucket} {loc : Nat}
      (hloc : loc ∈ update lists none (List.range' s.GROUPcount 1024) (some i)) :
      loc ∈ lists (some i) ∧ (s.ftruncate (s.GROUPcount + 1024)).entries loc = s.entries loc := by
    rw [update_of_ne (some_ne_none i)] at hloc
    exact ⟨hloc, if_pos (hkept.lt hloc)⟩
  generalize (addNewEntries s.GROUPcount 1024 (s.ftruncate (s.GROUPcount + 1024))).links =
    links at hthreads hexpand
  rw [hexpand]
  refine ⟨⟨?_, hkept.magic, fun loc hloc => ?_, fun {i loc} hloc => ?_,
    fun {i j loc₁ loc₂} hloc₁ hloc₂ => ?_,
    fun hash contents hhash => ?_, ?_⟩, rfl, fun i loc hloc => if_pos (hkept.lt hloc)⟩
  · refine hthreads.congr_present fun loc => ?_
    change loc < s.GROUPcount + 1024 ↔ _
    omega
  · rw [update_self] at hloc
    have hbeyond := (List.mem_range'_1.mp hloc).1
    change ((s.ftruncate (s.GROUPcount + 1024)).entries loc).low = 0
    rw [Index.ftruncate]
    dsimp only
    rw [if_neg (Nat.not_lt.mpr hbeyond)]
    rfl
  · obtain ⟨hold, hsame⟩ := hchains hloc
    change ((s.ftruncate (s.GROUPcount + 1024)).entries loc).hash = HashClear ∨
      ((s.ftruncate (s.GROUPcount + 1024)).entries loc).deleted = 0 ∧
        bucket ((s.ftruncate (s.GROUPcount + 1024)).entries loc).hash = i
    rw [hsame]
    exact hkept.placed hold
  · obtain ⟨hold₁, hsame₁⟩ := hchains hloc₁
    obtain ⟨hold₂, hsame₂⟩ := hchains hloc₂
    change ((s.ftruncate (s.GROUPcount + 1024)).entries loc₁).hash =
      ((s.ftruncate (s.GROUPcount + 1024)).entries loc₂).hash →
      ((s.ftruncate (s.GROUPcount + 1024)).entries loc₁).hash ≠ HashClear → _
    rw [hsame₁, hsame₂]
    exact hkept.distinct hold₁ hold₂
  · rw [hkept.stored hash contents hhash]
    change _ ↔ ∃ i, ∃ loc ∈ _, ((s.ftruncate (s.GROUPcount + 1024)).entries loc).hash = hash ∧
      ((s.ftruncate (s.GROUPcount + 1024)).entries loc).contents = contents
    constructor
    · rintro ⟨i, loc, hloc, hcontents⟩
      have hnew : loc ∈ update lists none (List.range' s.GROUPcount 1024) (some i) := by
        rwa [update_of_ne (some_ne_none i)]
      exact ⟨i, loc, hnew, by rwa [(hchains hnew).2]⟩
    · rintro ⟨i, loc, hloc, hcontents⟩
      obtain ⟨hold, hsame⟩ := hchains hloc
      rw [hsame] at hcontents
      exact ⟨i, loc, hold, hcontents⟩
  · rw [update_self]
    exact Nat.le_of_eq List.length_range'

theorem open_kept :
    Kept buffindexedOpen (update (fun _ => []) none (List.range' 0 1024)) fun _ => none := by
  have hempty : Threads (Index.created.ftruncate 1024).setHeader.links (fun _ : Option Bucket => [])
      fun _ => False := by
    rw [setHeader, if_pos (by decide)]
    exact ⟨fun _ => .nil, nofun, by simp⟩
  have hthreads : Threads (addNewEntries 0 1024 _).links _ _ :=
    addNewEntries_threads hempty fun _ _ _ => not_false
  have hopen : buffindexedOpen = { (Index.created.ftruncate 1024).setHeader with
      links := (addNewEntries 0 1024 (Index.created.ftruncate 1024).setHeader).links } :=
        addNewEntries_eq ..
  have hentries (loc : Nat) :
      (Index.created.ftruncate 1024).setHeader.entries loc = GROUPENTRY.zero := by
    rw [setHeader, if_pos (by decide)]
    rfl
  have hcount : (Index.created.ftruncate 1024).setHeader.GROUPcount = 1024 := by
    rw [setHeader, if_pos (by decide)]
    rfl
  have hmagic : (Index.created.ftruncate 1024).setHeader.magic = GROUPHEADERMAGIC := by
    rw [setHeader, if_pos (by decide)]
  have hnone {i : Bucket} {loc : Nat}
      (hloc : loc ∈ update (fun _ : Option Bucket => []) none (List.range' 0 1024) (some i)) :
        False := by
    rw [update_of_ne (some_ne_none i)] at hloc
    cases hloc
  generalize (addNewEntries 0 1024 (Index.created.ftruncate 1024).setHeader).links =
    links at hthreads hopen
  rw [hopen]
  refine ⟨?_, hmagic, fun loc _ => congrArg GROUPENTRY.low (hentries loc),
    fun hloc => (hnone hloc).elim,
    fun hloc _ _ _ => (hnone hloc).elim, fun hash contents _ => ?_, ?_⟩
  · rw [List.append_nil] at hthreads
    refine hthreads.congr_present fun loc => ?_
    change loc < (Index.created.ftruncate 1024).setHeader.GROUPcount ↔ _
    rw [hcount]
    simp
  · exact ⟨nofun, fun ⟨i, loc, hloc, _⟩ => (hnone hloc).elim⟩
  · rw [update_self]
    exact Nat.le_of_eq List.length_range'

section Calls

variable {Hash : Group → HASH} {group : Group}

theorem Kept.groupadd (hkept : s.Kept lists groups) (hclear : Hash group ≠ HashClear) (lo hi : Nat)
    (flag : UInt8) :
    ∃ s' lists', s.buffindexedGroupadd Hash group lo hi flag = .ok s' ∧
      s'.Kept lists' (update groups (Hash group)
        (some (((groups (Hash group)).map fun contents => { contents with flag := flag }).getD ⟨lo,
          hi, 0, flag⟩))) ∧
      s'.GROUPcount + (lists none).length + (if groups (Hash group) = none then 0 else 1) =
        s.GROUPcount + (lists' none).length + 1 ∧
      ∀ i, ∀ loc ∈ lists' (some i), (s'.entries loc).hash = Hash group ∨
        ∃ j, loc ∈ lists (some j) ∧ (s'.entries loc).hash = (s.entries loc).hash := by
  rw [buffindexedGroupadd]
  rcases hkept.find hclear true with ⟨hfind, hgroup⟩ | ⟨loc, hfind, hloc, hhash, hdeleted, hgroup⟩
  · simp only [hfind, hgroup, if_pos, Option.map_none, Option.getD_none, Nat.add_zero]
    obtain ⟨t, lists₁, hroom, hkept₁, loc, rest, hfree, hcount, hsame⟩ : ∃ t lists₁,
        (if s.links (.inl none) = none then s.GROUPexpand else s) = t ∧ t.Kept lists₁ groups ∧
        ∃ loc rest, lists₁ none = loc :: rest ∧
          t.GROUPcount + (lists none).length = s.GROUPcount + (lists₁ none).length ∧
          ∀ i, lists₁ (some i) = lists (some i) ∧
            ∀ loc ∈ lists (some i), t.entries loc = s.entries loc := by
      have hhead := (hkept.threads.chain none).start_eq
      split
      next hnone =>
        have hempty : lists none = [] := List.head?_eq_none_iff.mp (hhead.symm.trans hnone)
        obtain ⟨hexpand, hcount, hentries⟩ := hkept.expand hempty
        refine ⟨_, _, rfl, hexpand, s.GROUPcount, List.range' (s.GROUPcount + 1) 1023, ?_, ?_,
          fun i => ⟨?_, hentries i⟩⟩
        · rw [update_self]
          exact List.range'_succ
        · rw [update_self, hempty, List.length_range', hcount]
          rfl
        · exact update_of_ne (some_ne_none i) ..
      next hsome =>
        obtain ⟨loc, hloc⟩ := Option.ne_none_iff_exists'.mp hsome
        obtain ⟨rest, hrest⟩ := List.head?_eq_some_iff.mp (hhead.symm.trans hloc)
        exact ⟨s, lists, rfl, hkept, loc, rest, hrest, rfl, fun i => ⟨rfl, fun _ _ => rfl⟩⟩
    have hhead : t.links (.inl none) = some loc := by
      rw [(hkept₁.threads.chain none).start_eq, hfree]
      rfl
    rw [GROUPnewnode, hroom, hhead]
    refine ⟨_, _, rfl, hkept₁.newnode hclear hgroup hfree, ?_, fun i loc' hloc' => ?_⟩
    · rw [update_of_ne (some_ne_none _).symm, update_self]
      rw [hfree, List.length_cons] at hcount
      exact hcount
    · have hentry (other : Nat) (hne : other ≠ loc) : update t.entries loc
          (setinitialge (t.entries loc) (Hash group) flag lo hi) other = t.entries other :=
            update_of_ne hne ..
      change (update t.entries loc _ loc').hash = _ ∨ ∃ j, _ ∧
        (update t.entries loc _ loc').hash = _
      by_cases hne : loc' = loc
      · rw [hne, update_self]
        exact .inl rfl
      · right
        rw [hentry loc' hne]
        have hold : loc' ∈ lists₁ (some i) := by
          by_cases hi : i = bucket (Hash group)
          · rw [hi, update_self] at hloc'
            exact hi ▸ (List.mem_cons.mp hloc').resolve_left hne
          · rwa [update_of_ne (fun heq => hi (Option.some.inj heq)),
              update_of_ne (some_ne_none i)] at hloc'
        rw [(hsame i).1] at hold
        exact ⟨i, hold, congrArg GROUPENTRY.hash ((hsame i).2 loc' hold)⟩
  · rw [hfind]
    dsimp only
    rw [if_neg (not_not.mpr hdeleted), hgroup, Option.map_some, Option.getD_some,
      if_neg (some_ne_none _)]
    have hset :=
      @Kept.setEntry _ _ _ _ _ hkept hclear _ hloc hhash { s.entries loc with flag := flag }
      (.inr ⟨hhash, hdeleted⟩)
    rw [if_neg (hhash ▸ hclear)] at hset
    refine ⟨_, lists, rfl, hset, rfl, fun i loc' hloc' => .inr ⟨i, hloc', ?_⟩⟩
    by_cases hne : loc' = loc
    · rw [hne, setEntry_self]
    · rw [setEntry_of_ne s hne]

theorem Kept.groupdel (hkept : s.Kept lists groups) (hclear : Hash group ≠ HashClear) (now : Nat) :
    ∃ s', s.buffindexedGroupdel Hash group now = .ok s' ∧
      s'.Kept lists (update groups (Hash group) none) ∧
      (groups (Hash group) = none → s' = s) ∧
      (groups (Hash group) ≠ none →
        ∃ i, ∃ loc ∈ lists (some i), (s'.entries loc).hash = HashClear) := by
  rw [buffindexedGroupdel]
  rcases hkept.find hclear false with ⟨hfind, hgroup⟩ | ⟨loc, hfind, hloc, hhash, hdeleted, hgroup⟩
  · rw [hfind]
    refine ⟨s, rfl, ?_, fun _ => rfl, fun hsome => absurd hgroup hsome⟩
    rwa [← hgroup, Function.update_eq_self]
  · rw [hfind, hgroup]
    refine ⟨_, rfl, ?_, nofun, fun _ => ⟨_, loc, hloc, ?_⟩⟩
    · have hset := @Kept.setEntry _ _ _ _ _ hkept hclear _ hloc hhash
        { s.entries loc with deleted := now, hash := HashClear } (.inl rfl)
      rwa [if_pos rfl] at hset
    · rw [setEntry_self]

end Calls

end Index

end Inn.Buffindexed.Groups
