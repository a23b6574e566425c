import Inn.Buffindexed.Retrieved

/-!
# Looking up an article in the sorted index

The index is searched by halving. An entry that was removed has no number to
compare, so the one before it is asked. Nothing is known of an article when all
entries before the middle were removed, and the search gives up.
-/

namespace Inn.Buffindexed

open History (TOKEN)
open Relation (ReflTransGen)

def stepBack (gib : List OVINDEX) (offset : Nat) : Nat → Except Unit (Option Nat)
  | 0 => .ok none
  | i + 1 =>
    match gib[offset + i]? with
    | none => .error ()
    | some ie => if ie.artnum ≠ 0 then .ok (some (offset + i)) else stepBack gib offset i

theorem stepBack_lt {gib : List OVINDEX} {offset i j : Nat}
    (h : stepBack gib offset i = .ok (some j)) :
    offset ≤ j ∧ j < offset + i := by
  induction i with
  | zero => cases h
  | succ i ih =>
    rw [stepBack] at h
    split at h
    · cases h
    · split at h
      · cases h
        omega
      · have := ih h
        omega

def search (gib : List OVINDEX) (artnum offset limit : Nat) : Except Unit (Option TOKEN) :=
  let i := (limit - offset) / 2
  if 0 < i then
    match gib[offset + i]? with
    | none => .error ()
    | some ie =>
      if ie.artnum = artnum then .ok (some ie.token)
      else if ie.artnum = 0 then
        match _h : stepBack gib offset i with
        | .error e => .error e
        | .ok none => .ok none
        | .ok (some j) =>
          match gib[j]? with
          | none => .error ()
          | some ie =>
            if ie.artnum = artnum then .ok (some ie.token)
            else if ie.artnum < artnum then search gib artnum (offset + (i + 1)) limit
            else search gib artnum offset j
      else if ie.artnum < artnum then search gib artnum (offset + (i + 1)) limit
      else search gib artnum offset (offset + i)
  else
    match gib[offset]? with
    | none => .error ()
    | some ie => if ie.artnum ≠ artnum then .ok none else .ok (some ie.token)
termination_by limit - offset
decreasing_by
  · omega
  · have := stepBack_lt ‹_›
    omega
  · omega
  · omega

def gettoken (gib : List OVINDEX) (artnum : Nat) : Except Unit (Option TOKEN) :=
    search gib artnum 0 gib.length

variable {gib : List OVINDEX} {artnum offset limit j : Nat} {ie : OVINDEX}

structure Seen (gib : List OVINDEX) (offset middle j : Nat) (ie : OVINDEX) : Prop where
  inside : offset ≤ j ∧ j ≤ middle
  entry : gib[j]? = some ie
  kept : ie.artnum ≠ 0
  removed : ∀ k, j < k → k ≤ middle → ∀ ie, gib[k]? = some ie → ie.artnum = 0

/-- An interval with nothing but zeroed entries up to its middle. -/
structure Blind (gib : List OVINDEX) (interval : Nat × Nat) : Prop where
  halved : 2 ≤ interval.2 - interval.1
  removed : ∀ k, interval.1 ≤ k → k ≤ interval.1 + (interval.2 - interval.1) / 2 →
    ∀ ie, gib[k]? = some ie → ie.artnum = 0

inductive Halved (gib : List OVINDEX) (artnum : Nat) : Nat × Nat → Nat × Nat → Prop
  | right {offset limit j : Nat} {ie : OVINDEX} (halved : 2 ≤ limit - offset)
      (seen : Seen gib offset (offset + (limit - offset) / 2) j ie) (below : ie.artnum < artnum) :
      Halved gib artnum (offset, limit) (offset + ((limit - offset) / 2 + 1), limit)
  | left {offset limit j : Nat} {ie : OVINDEX} (halved : 2 ≤ limit - offset)
      (seen : Seen gib offset (offset + (limit - offset) / 2) j ie) (above : artnum < ie.artnum) :
      Halved gib artnum (offset, limit) (offset, j)

def Reached (gib : List OVINDEX) (artnum : Nat) (interval : Nat × Nat) : Prop :=
  ReflTransGen (Halved gib artnum) (0, gib.length) interval

inductive Hit (gib : List OVINDEX) (artnum : Nat) : Nat × Nat → OVINDEX → Prop
  | middle {offset limit j : Nat} {ie : OVINDEX} (halved : 2 ≤ limit - offset)
      (seen : Seen gib offset (offset + (limit - offset) / 2) j ie) (same : ie.artnum = artnum) :
      Hit gib artnum (offset, limit) ie
  | last {offset limit : Nat} {ie : OVINDEX} (single : limit - offset < 2)
      (entry : gib[offset]? = some ie)
      (same : ie.artnum = artnum) : Hit gib artnum (offset, limit) ie

theorem Seen.unique {middle k : Nat} {other : OVINDEX} (h : Seen gib offset middle j ie)
    (h' : Seen gib offset middle k other) : j = k ∧ ie = other := by
  have hjk : j = k := by
    rcases Nat.lt_trichotomy j k with hlt | heq | hgt
    · exact absurd (h.removed k hlt h'.inside.2 other h'.entry) h'.kept
    · exact heq
    · exact absurd (h'.removed j hgt h.inside.2 ie h.entry) h.kept
  subst hjk
  exact ⟨rfl, Option.some.inj (h.entry.symm.trans h'.entry)⟩

theorem halved_rightUnique : Relator.RightUnique (Halved gib artnum) := by
  rintro _ _ _ (⟨_, hseen, hbelow⟩ | ⟨_, hseen, habove⟩) hother
  · cases hother with
    | right _ _ _ => rfl
    | left _ hseen' habove =>
      obtain ⟨_, rfl⟩ := hseen.unique hseen'
      exact absurd hbelow (Nat.lt_asymm habove)
  · cases hother with
    | right _ hseen' hbelow =>
      obtain ⟨_, rfl⟩ := hseen.unique hseen'
      exact absurd hbelow (Nat.lt_asymm habove)
    | left _ hseen' _ =>
      obtain ⟨rfl, rfl⟩ := hseen.unique hseen'
      rfl

theorem reached_unique {interval other : Nat × Nat} (h : Reached gib artnum interval)
    (h' : Reached gib artnum other) (hends : ∀ next, ¬Halved gib artnum interval next)
    (hends' : ∀ next, ¬Halved gib artnum other next) :
    interval = other := by
  have hstay {a b : Nat × Nat} (hab : ReflTransGen (Halved gib artnum) a b) (ha : ∀ next,
      ¬Halved gib artnum a next) :
      a = b := by
    cases hab.cases_head with
    | inl heq => exact heq
    | inr hstep => exact absurd hstep.choose_spec.1 (ha _)
  rcases ReflTransGen.total_of_right_unique halved_rightUnique h h' with hab | hba
  · exact hstay hab hends
  · exact (hstay hba hends').symm

theorem Blind.ends {interval : Nat × Nat} (h : Blind gib interval) :
    ∀ next, ¬Halved gib artnum interval next := by
  rintro _ (⟨_, hseen, _⟩ | ⟨_, hseen, _⟩)
  · exact hseen.kept (h.removed _ hseen.inside.1 hseen.inside.2 _ hseen.entry)
  · exact hseen.kept (h.removed _ hseen.inside.1 hseen.inside.2 _ hseen.entry)

theorem Hit.ends {interval : Nat × Nat} (h : Hit gib artnum interval ie) :
    ∀ next, ¬Halved gib artnum interval next := by
  rintro _ (⟨hhalved, hseen, hbelow⟩ | ⟨hhalved, hseen, habove⟩)
  · cases h with
    | middle _ hseen' hsame =>
      obtain ⟨_, rfl⟩ := hseen.unique hseen'
      omega
    | last hsingle _ _ => omega
  · cases h with
    | middle _ hseen' hsame =>
      obtain ⟨_, rfl⟩ := hseen.unique hseen'
      omega
    | last hsingle _ _ => omega

theorem single_ends (hsingle : limit - offset < 2) :
    ∀ next, ¬Halved gib artnum (offset, limit) next := by
  rintro _ (⟨hhalved, _, _⟩ | ⟨hhalved, _, _⟩)
  · omega
  · omega

theorem Hit.not_blind {interval : Nat × Nat} (h : Hit gib artnum interval ie) :
    ¬Blind gib interval := by
  intro hblind
  cases h with
  | middle _ hseen _ =>
      exact hseen.kept (hblind.removed _ hseen.inside.1 hseen.inside.2 _ hseen.entry)
  | last hsingle _ _ =>
    have := hblind.halved
    omega

theorem stepBack_spec {i : Nat} (hlength : offset + i ≤ gib.length) :
    (stepBack gib offset i = .ok none ∧ ∀ k, offset ≤ k → k < offset + i → ∀ ie, gib[k]? = some ie →
      ie.artnum = 0) ∨
      ∃ j ie, stepBack gib offset i = .ok (some j) ∧ j < offset + i ∧
        Seen gib offset (offset + i - 1) j ie := by
  induction i with
  | zero => exact .inl ⟨rfl, fun k hle hlt => absurd hlt (Nat.not_lt.mpr hle)⟩
  | succ i ih =>
    have hentry := List.getElem?_eq_getElem (show offset + i < gib.length from hlength)
    rw [stepBack, hentry]
    dsimp only
    by_cases hkept : gib[offset + i].artnum ≠ 0
    · rw [if_pos hkept]
      refine .inr ⟨offset + i, gib[offset + i], rfl, Nat.lt_succ_self _,
        ⟨Nat.le_add_right _ _, Nat.le_refl _⟩, hentry, hkept, ?_⟩
      intro k hlt hle
      omega
    · rw [if_neg hkept]
      have hlast : ∀ k, k = offset + i → ∀ ie, gib[k]? = some ie → ie.artnum = 0 := by
        rintro _ rfl ie hie
        rw [hentry] at hie
        rw [← Option.some.inj hie]
        exact not_not.mp hkept
      rcases ih (Nat.le_of_succ_le hlength) with ⟨hnone, hremoved⟩ | ⟨j, ie, hj, hlt, hseen⟩
      · refine .inl ⟨hnone, fun k hle hlt => ?_⟩
        rcases Nat.lt_or_eq_of_le (Nat.le_of_lt_succ hlt) with hlt | heq
        · exact hremoved k hle hlt
        · exact hlast k heq
      · refine .inr ⟨j, ie, hj, Nat.lt_succ_of_lt hlt, ⟨hseen.inside.1, ?_⟩, hseen.entry,
          hseen.kept, fun k hgt hle => ?_⟩
        · have := hseen.inside.2
          omega
        · rcases Nat.lt_or_eq_of_le (show k ≤ offset + i by omega) with hlt | heq
          · exact hseen.removed k hgt (by omega)
          · exact hlast k heq

theorem search_removed {other : OVINDEX} (hpos : 0 < artnum) (hi : 0 < (limit - offset) / 2)
    (hentry : gib[offset + (limit - offset) / 2]? = some ie) (hzero : ie.artnum = 0)
    (hj : stepBack gib offset ((limit - offset) / 2) = .ok (some j))
    (hother : gib[j]? = some other) :
    search gib artnum offset limit =
      if other.artnum = artnum then .ok (some other.token)
      else if other.artnum < artnum then search gib artnum
        (offset + ((limit - offset) / 2 + 1)) limit
      else search gib artnum offset j := by
  rw [search]
  simp only [if_pos hi, hentry]
  rw [if_neg (by omega), if_pos hzero]
  split
  next heq => rw [hj] at heq; cases heq
  next heq => rw [hj] at heq; cases heq
  next heq =>
    rw [hj] at heq
    cases heq
    rw [hother]

theorem search_cases (hpos : 0 < artnum) (hhalved : 2 ≤ limit - offset)
    (hlimit : limit ≤ gib.length) :
    (∃ ie, Hit gib artnum (offset, limit) ie ∧
      search gib artnum offset limit = .ok (some ie.token)) ∨
      (Blind gib (offset, limit) ∧ search gib artnum offset limit = .ok none) ∨
      ∃ offset' limit', Halved gib artnum (offset, limit) (offset', limit') ∧ offset' ≤ limit' ∧
        limit' ≤ limit ∧
        limit' - offset' < limit - offset ∧
          search gib artnum offset limit = search gib artnum offset' limit' := by
  have hi : 0 < (limit - offset) / 2 := by omega
  have hmiddle : offset + (limit - offset) / 2 < gib.length := by omega
  have hentry := List.getElem?_eq_getElem hmiddle
  generalize hie : gib[offset + (limit - offset) / 2] = ie at hentry
  by_cases hzero : ie.artnum = 0
  · have hremovedMiddle : ∀ k, k = offset + (limit - offset) / 2 → ∀ other, gib[k]? = some other →
        other.artnum = 0 := by
      rintro _ rfl other hother
      rw [hentry] at hother
      rw [← Option.some.inj hother]
      exact hzero
    rcases stepBack_spec (show offset + (limit - offset) / 2 ≤ gib.length by omega) with
      ⟨hnone, hremoved⟩ | ⟨j, other, hj, hlt, hseen⟩
    · refine .inr (.inl ⟨⟨hhalved, fun k hle hle' => ?_⟩, ?_⟩)
      · rcases Nat.lt_or_eq_of_le hle' with hlt | heq
        · exact hremoved k hle hlt
        · exact hremovedMiddle k heq
      · rw [search]
        simp only [if_pos hi, hentry]
        rw [if_neg (by omega), if_pos hzero]
        split
        next heq => rw [hnone] at heq; cases heq
        next => rfl
        next heq => rw [hnone] at heq; cases heq
    · have hseen' : Seen gib offset (offset + (limit - offset) / 2) j other := by
        refine ⟨⟨hseen.inside.1, hlt.le⟩, hseen.entry, hseen.kept, fun k hgt hle => ?_⟩
        rcases Nat.lt_or_eq_of_le hle with hlt | heq
        · exact hseen.removed k hgt (by omega)
        · exact hremovedMiddle k heq
      rw [search_removed hpos hi hentry hzero hj hseen.entry]
      rcases Nat.lt_trichotomy other.artnum artnum with hbelow | hsame | habove
      · rw [if_neg hbelow.ne, if_pos hbelow]
        exact .inr (.inr ⟨_, _, .right hhalved hseen' hbelow,
          by omega, Nat.le_refl _, by omega, rfl⟩)
      · rw [if_pos hsame]
        exact .inl ⟨other, .middle hhalved hseen' hsame, rfl⟩
      · rw [if_neg habove.ne', if_neg (Nat.not_lt.mpr habove.le)]
        exact .inr (.inr ⟨_, _, .left hhalved hseen' habove, hseen.inside.1,
          by omega, by omega, rfl⟩)
  · have hseen :
        Seen gib offset (offset + (limit - offset) / 2) (offset + (limit - offset) / 2) ie :=
      ⟨⟨Nat.le_add_right _ _, Nat.le_refl _⟩, hentry, hzero,
        fun k hgt hle => absurd hgt (Nat.not_lt.mpr hle)⟩
    have hturn : search gib artnum offset limit =
        if ie.artnum = artnum then .ok (some ie.token)
        else if ie.artnum < artnum then search gib artnum
          (offset + ((limit - offset) / 2 + 1)) limit
        else search gib artnum offset (offset + (limit - offset) / 2) := by
      rw [search]
      simp only [if_pos hi, hentry, if_neg hzero]
    rw [hturn]
    rcases Nat.lt_trichotomy ie.artnum artnum with hbelow | hsame | habove
    · rw [if_neg hbelow.ne, if_pos hbelow]
      exact .inr (.inr ⟨_, _, .right hhalved hseen hbelow, by omega, Nat.le_refl _, by omega, rfl⟩)
    · rw [if_pos hsame]
      exact .inl ⟨ie, .middle hhalved hseen hsame, rfl⟩
    · rw [if_neg habove.ne', if_neg (Nat.not_lt.mpr habove.le)]
      exact .inr (.inr ⟨_, _, .left hhalved hseen habove, Nat.le_add_right _ _,
        by omega, by omega, rfl⟩)

theorem search_spec (hpos : 0 < artnum) (hle : offset ≤ limit) (hlimit : limit ≤ gib.length)
    (hreached : Reached gib artnum (offset, limit)) :
    (∃ interval ie, Reached gib artnum interval ∧ Hit gib artnum interval ie ∧
        search gib artnum offset limit = .ok (some ie.token)) ∨
      (∃ interval, Reached gib artnum interval ∧ Blind gib interval ∧
        search gib artnum offset limit = .ok none) ∨
      (∃ first last ie, Reached gib artnum (first, last) ∧ last - first < 2 ∧
        gib[first]? = some ie ∧
        ie.artnum ≠ artnum ∧ search gib artnum offset limit = .ok none) ∨
      (Reached gib artnum (gib.length, gib.length) ∧
        search gib artnum offset limit = .error ()) := by
  induction hsize : limit - offset using Nat.strongRecOn generalizing offset limit with
  | ind size ih =>
    by_cases hhalved : 2 ≤ limit - offset
    · rcases search_cases hpos hhalved hlimit with ⟨ie, hhit, heq⟩ | ⟨hblind, heq⟩ | ⟨offset',
        limit', hstep, hle', hlimit', hless, heq⟩
      · exact .inl ⟨_, ie, hreached, hhit, heq⟩
      · exact .inr (.inl ⟨_, hreached, hblind, heq⟩)
      · rw [heq]
        exact ih _ (by omega) hle' (hlimit'.trans hlimit) (hreached.tail hstep) rfl
    · have hsingle : limit - offset < 2 := by omega
      have hi : ¬0 < (limit - offset) / 2 := by omega
      rw [search]
      simp only [if_neg hi]
      cases hentry : gib[offset]? with
      | none =>
        have hend := List.getElem?_eq_none_iff.mp hentry
        obtain ⟨rfl, rfl⟩ : offset = gib.length ∧ limit = gib.length := by omega
        exact .inr (.inr (.inr ⟨hreached, rfl⟩))
      | some ie =>
        dsimp only
        by_cases hsame : ie.artnum = artnum
        · rw [if_neg (not_not.mpr hsame)]
          exact .inl ⟨_, ie, hreached, .last hsingle hentry hsame, rfl⟩
        · rw [if_pos hsame]
          exact .inr (.inr (.inl ⟨offset, limit, ie, hreached, hsingle, hentry, hsame, rfl⟩))

/-- A token is found just for the numbers that the index holds. -/
def Answers (gib : List OVINDEX) (artnum : Nat) : Prop :=
  ∃ answer, gettoken gib artnum = .ok answer ∧
    (∀ token ∈ answer, ∃ ie ∈ gib, ie.artnum = artnum ∧ ie.token = token) ∧
    ((∃ ie ∈ gib, ie.artnum = artnum) → answer ≠ none)

theorem Hit.found {interval : Nat × Nat} (h : Hit gib artnum interval ie) :
    ie ∈ gib ∧ ie.artnum = artnum := by
  cases h with
  | middle _ hseen hsame => exact ⟨List.mem_of_getElem? hseen.entry, hsame⟩
  | last _ hentry hsame => exact ⟨List.mem_of_getElem? hentry, hsame⟩

theorem Halved.contains {interval next : Nat × Nat} {k : Nat}
    (hstep : Halved gib artnum interval next)
    (hsorted : gib.Pairwise fun a b => a.artnum ≠ 0 → b.artnum ≠ 0 → a.artnum < b.artnum)
    (hpos : 0 < artnum) (hentry : gib[k]? = some ie) (hsame : ie.artnum = artnum)
    (hk : interval.1 ≤ k ∧ k < interval.2) :
    next.1 ≤ k ∧ k < next.2 := by
  have hbefore {a b : Nat} {first second : OVINDEX} (ha : gib[a]? = some first)
      (hb : gib[b]? = some second)
      (hfirst : first.artnum ≠ 0) (hsecond : second.artnum ≠ 0) (hlt : first.artnum <
        second.artnum) : a < b := by
    obtain ⟨ha', rfl⟩ := List.getElem?_eq_some_iff.mp ha
    obtain ⟨hb', rfl⟩ := List.getElem?_eq_some_iff.mp hb
    by_contra hnot
    rcases Nat.lt_or_eq_of_le (Nat.le_of_not_lt hnot) with hgt | rfl
    · have := List.pairwise_iff_getElem.mp hsorted b a hb' ha' hgt hsecond hfirst
      omega
    · exact Nat.lt_irrefl _ hlt
  have hkept : ie.artnum ≠ 0 := by omega
  cases hstep with
  | right _ hseen hbelow =>
    have hj := hbefore hseen.entry hentry hseen.kept hkept (hsame ▸ hbelow)
    -- behind the last entry that is kept there are only removed ones up to the middle
    refine ⟨?_, hk.2⟩
    by_contra hmiddle
    exact hkept (hseen.removed k hj (by dsimp only at hmiddle; omega) ie hentry)
  | left _ hseen habove =>
      exact ⟨hk.1, hbefore hentry hseen.entry hkept hseen.kept (hsame ▸ habove)⟩

theorem Reached.contains {interval : Nat × Nat} {k : Nat} (h : Reached gib artnum interval)
    (hsorted : gib.Pairwise fun a b => a.artnum ≠ 0 → b.artnum ≠ 0 → a.artnum < b.artnum)
    (hpos : 0 < artnum) (hentry : gib[k]? = some ie) (hsame : ie.artnum = artnum) :
    interval.1 ≤ k ∧ k < interval.2 := by
  induction h with
  | refl => exact ⟨Nat.zero_le k, (List.getElem?_eq_some_iff.mp hentry).1⟩
  | tail _ hstep ih => exact hstep.contains hsorted hpos hentry hsame ih

theorem end_ends : ∀ next, ¬Halved gib artnum (gib.length, gib.length) next :=
    single_ends (by omega)

/-- The intervals of the index that are come to when it is halved towards a place. An interval ends
with the last entry that is kept up to the middle when the place is in front of this entry. -/
inductive Towards (gib : List OVINDEX) (place : Nat) : Nat × Nat → Prop
  | whole : Towards gib place (0, gib.length)
  | behind {offset limit : Nat} (from_ : Towards gib place (offset, limit)) (halved : 2 ≤
      limit - offset)
      (hplace : offset + (limit - offset) / 2 < place) :
      Towards gib place (offset + ((limit - offset) / 2 + 1), limit)
  | before {offset limit j : Nat} {ie : OVINDEX} (from_ : Towards gib place (offset, limit))
      (halved : 2 ≤ limit - offset) (seen : Seen gib offset (offset + (limit - offset) / 2) j ie)
      (hplace : place < j) : Towards gib place (offset, j)

/-- Where the piece `k` of an index of `n` entries begins when the half behind the middle is cut
again and again. -/
def cut (n k : Nat) : Nat := n + 1 - (n + 1) / 2 ^ k

/-- The number is above all others of an index whose pieces each have an entry that is kept, and
whose last piece has two entries. -/
def FallsOff (gib : List OVINDEX) (artnum : Nat) : Prop :=
  gib = [] ∨
    (∃ k, (gib.length + 1) / 2 ^ k = 3) ∧ (∀ ie ∈ gib, ie.artnum < artnum) ∧
      ∀ k, 3 ≤ (gib.length + 1) / 2 ^ k →
        ∃ i ie, cut gib.length k ≤ i ∧ i < cut gib.length (k + 1) ∧
          gib[i]? = some ie ∧ ie.artnum ≠ 0

theorem seen_or_blind (halved : 2 ≤ limit - offset) (hlimit : limit ≤ gib.length) :
    (∃ j ie, Seen gib offset (offset + (limit - offset) / 2) j ie) ∨ Blind gib (offset, limit) := by
  have hlength : offset + ((limit - offset) / 2 + 1) ≤ gib.length := by omega
  rcases stepBack_spec hlength with ⟨-, hremoved⟩ | ⟨j, ie, -, -, hseen⟩
  · exact .inr ⟨halved, fun k hle hlt => hremoved k hle (Nat.lt_succ_of_le hlt)⟩
  · exact .inl ⟨j, ie, hseen⟩

section Increasing

variable (hincreasing : gib.Pairwise fun a b => a.artnum ≠ 0 → b.artnum ≠ 0 → a.artnum < b.artnum)

include hincreasing

theorem lt_of_artnum_lt {a b : Nat} {first second : OVINDEX} (ha : gib[a]? = some first)
    (hb : gib[b]? = some second) (hfirst : first.artnum ≠ 0) (hsecond : second.artnum ≠ 0)
    (hlt : first.artnum < second.artnum) : a < b := by
  obtain ⟨ha', rfl⟩ := List.getElem?_eq_some_iff.mp ha
  obtain ⟨hb', rfl⟩ := List.getElem?_eq_some_iff.mp hb
  by_contra hnot
  rcases Nat.lt_or_eq_of_le (Nat.le_of_not_lt hnot) with hgt | rfl
  · have := List.pairwise_iff_getElem.mp hincreasing b a hb' ha' hgt hsecond hfirst
    omega
  · exact Nat.lt_irrefl _ hlt

theorem artnum_lt_of_lt {a b : Nat} {first second : OVINDEX} (ha : gib[a]? = some first)
    (hb : gib[b]? = some second) (hfirst : first.artnum ≠ 0) (hsecond : second.artnum ≠ 0)
    (hlt : a < b) : first.artnum < second.artnum := by
  obtain ⟨ha', rfl⟩ := List.getElem?_eq_some_iff.mp ha
  obtain ⟨hb', rfl⟩ := List.getElem?_eq_some_iff.mp hb
  exact List.pairwise_iff_getElem.mp hincreasing a b ha' hb' hlt hfirst hsecond

theorem Reached.towards {place : Nat} (hpos : 0 < artnum) (hplace : gib[place]? = some ie)
    (hsame : ie.artnum = artnum) {interval : Nat × Nat} (h : Reached gib artnum interval) :
    Towards gib place interval := by
  have hkept : ie.artnum ≠ 0 := by omega
  induction h with
  | refl => exact .whole
  | tail _ hstep ih =>
    cases hstep with
    | right hhalved hseen hbelow =>
      refine .behind ih hhalved ?_
      have hj := lt_of_artnum_lt hincreasing hseen.entry hplace hseen.kept hkept (hsame ▸ hbelow)
      by_contra hle
      exact hkept (hseen.removed place hj (Nat.le_of_not_lt hle) ie hplace)
    | left hhalved hseen habove =>
      exact .before ih hhalved hseen
        (lt_of_artnum_lt hincreasing hplace hseen.entry hkept hseen.kept (hsame ▸ habove))

theorem Towards.reached {place : Nat} (hpos : 0 < artnum) (hplace : gib[place]? = some ie)
    (hsame : ie.artnum = artnum) {interval : Nat × Nat} (h : Towards gib place interval)
    (hsees : ∀ interval, Reached gib artnum interval → ¬Blind gib interval) :
    Reached gib artnum interval ∧ interval.2 ≤ gib.length := by
  have hkept : ie.artnum ≠ 0 := by omega
  induction h with
  | whole => exact ⟨.refl, Nat.le_refl _⟩
  | behind _ hhalved hbehind ih =>
    obtain ⟨hreached, hlimit⟩ := ih
    rcases seen_or_blind hhalved hlimit with ⟨j, other, hseen⟩ | hblind
    · refine ⟨hreached.tail (.right hhalved hseen ?_), hlimit⟩
      exact hsame ▸ artnum_lt_of_lt hincreasing hseen.entry hplace hseen.kept hkept
        (Nat.lt_of_le_of_lt hseen.inside.2 hbehind)
    · exact absurd hblind (hsees _ hreached)
  | before _ hhalved hseen hbefore ih =>
    obtain ⟨hreached, hlimit⟩ := ih
    have hinside := hseen.inside.2
    refine ⟨hreached.tail (.left hhalved hseen ?_), ?_⟩
    · exact hsame ▸ artnum_lt_of_lt hincreasing hplace hseen.entry hkept hseen.kept hbefore
    · dsimp only at hlimit ⊢
      omega

end Increasing

theorem cut_succ (n k : Nat) (hk : 1 ≤ (n + 1) / 2 ^ k) :
    cut n (k + 1) = cut n k + ((n - cut n k) / 2 + 1) ∧ n - cut n k + 1 = (n + 1) / 2 ^ k := by
  have hle : (n + 1) / 2 ^ k ≤ n + 1 := Nat.div_le_self _ _
  have hhalf : (n + 1) / 2 ^ (k + 1) = (n + 1) / 2 ^ k / 2 := by
    rw [Nat.pow_succ, Nat.div_div_eq_div_mul]
  rw [cut, cut, hhalf]
  omega

/-- When the limit has stayed where it was, each piece so far has an entry that is kept, the last
of which is below the number. -/
theorem Reached.pieces {interval : Nat × Nat} (h : Reached gib artnum interval) :
    interval.2 ≤ gib.length ∧ (interval.2 = gib.length → ∃ k, interval.1 = cut gib.length k ∧
      1 ≤ (gib.length + 1) / 2 ^ k ∧ ∀ k' < k, 3 ≤ (gib.length + 1) / 2 ^ k' ∧
        ∃ j ie, Seen gib (cut gib.length k') (cut gib.length (k' + 1) - 1) j ie ∧
          ie.artnum < artnum) := by
  induction h with
  | refl => exact ⟨Nat.le_refl _,
      fun _ => ⟨0, by simp [cut], by simp, fun k' hk' => absurd hk' (Nat.not_lt_zero _)⟩⟩
  | tail _ hstep ih =>
    obtain ⟨hlimit, hpieces⟩ := ih
    cases hstep with
    | @right offset limit j ie hhalved hseen hbelow =>
      refine ⟨hlimit, fun hend => ?_⟩
      obtain rfl : limit = gib.length := hend
      obtain ⟨k, hoffset, hk, hbefore⟩ := hpieces rfl
      obtain rfl : offset = cut gib.length k := hoffset
      obtain ⟨hsucc, hrest⟩ := cut_succ gib.length k hk
      have hhalf : (gib.length + 1) / 2 ^ (k + 1) = (gib.length + 1) / 2 ^ k / 2 := by
        rw [Nat.pow_succ, Nat.div_div_eq_div_mul]
      refine ⟨k + 1, hsucc.symm, by omega, fun k' hk' => ?_⟩
      rcases Nat.lt_or_eq_of_le (Nat.le_of_lt_succ hk') with hlt | rfl
      · exact hbefore k' hlt
      · refine ⟨by omega, j, ie, ?_, hbelow⟩
        rwa [show cut gib.length (k' + 1) - 1 =
          cut gib.length k' + (gib.length - cut gib.length k') / 2 by omega]
    | @left offset limit j ie hhalved hseen _ =>
      have hinside := hseen.inside.2
      dsimp only at hlimit
      exact ⟨by dsimp only; omega, fun hend => by dsimp only at hend; omega⟩

theorem reached_end_iff
    (hincreasing : gib.Pairwise fun a b => a.artnum ≠ 0 → b.artnum ≠ 0 → a.artnum < b.artnum)
    (hpos : 0 < artnum) :
    Reached gib artnum (gib.length, gib.length) ↔ FallsOff gib artnum := by
  constructor
  · intro h
    obtain ⟨k, hk, hone, hpieces⟩ := h.pieces.2 rfl
    obtain ⟨-, hrest⟩ := cut_succ gib.length k hone
    rw [← hk] at hrest
    dsimp only at hrest
    cases k with
    | zero =>
      rw [Nat.pow_zero, Nat.div_one] at hrest
      exact .inl (List.length_eq_zero_iff.mp (by omega))
    | succ k =>
      have hhalf : (gib.length + 1) / 2 ^ (k + 1) = (gib.length + 1) / 2 ^ k / 2 := by
        rw [Nat.pow_succ, Nat.div_div_eq_div_mul]
      obtain ⟨hthree, j, last, hseen, hbelow⟩ := hpieces k (Nat.lt_succ_self k)
      have hlast : (gib.length + 1) / 2 ^ k = 3 := by omega
      refine .inr ⟨⟨k, hlast⟩, fun ie hmem => ?_, fun k' hk' => ?_⟩
      · obtain ⟨i, hi⟩ := List.mem_iff_getElem?.mp hmem
        have hi' := (List.getElem?_eq_some_iff.mp hi).1
        by_cases hkept : ie.artnum = 0
        · rwa [hkept]
        rcases Nat.lt_trichotomy i j with hlt | rfl | hgt
        · exact (artnum_lt_of_lt hincreasing hi hseen.entry hkept hseen.kept hlt).trans hbelow
        · rw [hseen.entry] at hi
          exact Option.some.inj hi ▸ hbelow
        · exact absurd (hseen.removed i hgt (by rw [← hk]; dsimp only; omega) ie hi) hkept
      · have hless : k' < k + 1 := by
          by_contra hnot
          have hle : (gib.length + 1) / 2 ^ k' ≤ (gib.length + 1) / 2 ^ (k + 1) :=
            Nat.div_le_div_left (Nat.pow_le_pow_right Nat.two_pos (Nat.le_of_not_lt hnot))
              (Nat.two_pow_pos (k + 1))
          omega
        obtain ⟨hthree', i, ie, hseen', -⟩ := hpieces k' hless
        have hsucc := (cut_succ gib.length k' (by omega)).1
        have hinside := hseen'.inside
        exact ⟨i, ie, hinside.1, by omega, hseen'.entry, hseen'.kept⟩
  · rintro (rfl | ⟨⟨k, hk⟩, hbelow, hpieces⟩)
    · exact .refl
    have hreached : ∀ k', (k' = 0 ∨ 3 ≤ (gib.length + 1) / 2 ^ (k' - 1)) →
        Reached gib artnum (cut gib.length k', gib.length) := by
      intro k'
      induction k' with
      | zero =>
        intro _
        have hzero : cut gib.length 0 = 0 := by simp [cut]
        rw [hzero]
        exact .refl
      | succ k' ih =>
        intro hthree
        replace hthree : 3 ≤ (gib.length + 1) / 2 ^ k' := by simpa using hthree
        have hhere := ih <| by
          rcases k' with _ | k'
          · exact .inl rfl
          · have hhalf : (gib.length + 1) / 2 ^ (k' + 1) = (gib.length + 1) / 2 ^ k' / 2 := by
              rw [Nat.pow_succ, Nat.div_div_eq_div_mul]
            exact .inr (by rw [Nat.add_sub_cancel]; omega)
        obtain ⟨hsucc, hrest⟩ := cut_succ gib.length k' (by omega)
        obtain ⟨i, ie, hfirst, hlast, hi, hkept⟩ := hpieces k' hthree
        have hhalved : 2 ≤ gib.length - cut gib.length k' := by omega
        rcases seen_or_blind hhalved (Nat.le_refl _) with ⟨j, other, hseen⟩ | hblind
        · rw [hsucc]
          exact hhere.tail (.right hhalved hseen (hbelow other (List.mem_of_getElem? hseen.entry)))
        · exact absurd (hblind.removed i hfirst (by dsimp only; omega) ie hi) hkept
    have hend : cut gib.length (k + 1) = gib.length := by
      have hhalf : (gib.length + 1) / 2 ^ (k + 1) = (gib.length + 1) / 2 ^ k / 2 := by
        rw [Nat.pow_succ, Nat.div_div_eq_div_mul]
      rw [cut, hhalf, hk]
      rfl
    have h := hreached (k + 1) (.inr (by rw [Nat.add_sub_cancel]; omega))
    rwa [hend] at h

theorem answers_iff (hincreasing : gib.Pairwise fun a b => a.artnum ≠ 0 → b.artnum ≠ 0 →
    a.artnum < b.artnum)
    (hpos : 0 < artnum) :
    Answers gib artnum ↔
      ((∃ ie ∈ gib, ie.artnum = artnum) → ∀ interval, Reached gib artnum interval →
        ¬Blind gib interval) ∧
        ((∀ ie ∈ gib, ie.artnum ≠ artnum) → ¬Reached gib artnum (gib.length, gib.length)) := by
  have hspec :=
    search_spec hpos (Nat.zero_le _) (Nat.le_refl gib.length)
    (.refl : Reached gib artnum (0, gib.length))
  rw [← gettoken] at hspec
  constructor
  · rintro ⟨answer, hanswer, _, hfinds⟩
    refine ⟨fun hthere interval hreached hblind => ?_, fun habsent hreached => ?_⟩
    · rcases hspec with ⟨other, ie, hother, hhit, _⟩ | ⟨_, _, _, heq⟩ | ⟨_, _, _, _, _, _, _,
        heq⟩ | ⟨_, heq⟩
      · have hsame := reached_unique hother hreached hhit.ends hblind.ends
        exact hhit.not_blind (hsame ▸ hblind)
      · exact hfinds hthere (Except.ok.inj (hanswer.symm.trans heq))
      · exact hfinds hthere (Except.ok.inj (hanswer.symm.trans heq))
      · rw [hanswer] at heq
        cases heq
    · rcases hspec with ⟨_, ie, _, hhit, _⟩ | ⟨other, hother, hblind, _⟩ | ⟨first, last, ie, hother,
        hsingle, hentry, _⟩ | ⟨_, heq⟩
      · exact habsent ie hhit.found.1 hhit.found.2
      · have hsame := reached_unique hother hreached hblind.ends end_ends
        have := hblind.halved
        rw [hsame] at this
        omega
      · have hsame := reached_unique hother hreached (single_ends hsingle) end_ends
        have := (List.getElem?_eq_some_iff.mp hentry).1
        rw [(Prod.mk.inj hsame).1] at this
        exact Nat.lt_irrefl _ this
      · rw [hanswer] at heq
        cases heq
  · rintro ⟨hsees, hinside⟩
    rcases hspec with ⟨_, ie, _, hhit, heq⟩ | ⟨other, hother, hblind, heq⟩ | ⟨first, last, ie,
      hother, hsingle, hentry, hne, heq⟩ | ⟨hend, _⟩
    · refine ⟨_, heq, ?_, fun _ => nofun⟩
      rintro _ ⟨⟩
      exact ⟨ie, hhit.found.1, hhit.found.2, rfl⟩
    · exact ⟨none, heq, nofun, fun hthere => absurd hblind (hsees hthere other hother)⟩
    · refine ⟨none, heq, nofun, ?_⟩
      rintro ⟨other, hmem, hsame⟩
      obtain ⟨k, hk⟩ := List.mem_iff_getElem?.mp hmem
      obtain ⟨hfirst, hlast⟩ := hother.contains hincreasing hpos hk hsame
      obtain rfl : first = k := by
        dsimp only at hfirst hlast
        omega
      rw [hentry] at hk
      exact absurd hsame (Option.some.inj hk ▸ hne)
    · by_cases hthere : ∃ ie ∈ gib, ie.artnum = artnum
      · obtain ⟨ie, hmem, hsame⟩ := hthere
        obtain ⟨k, hk⟩ := List.mem_iff_getElem?.mp hmem
        have := hend.contains hincreasing hpos hk hsame
        dsimp only at this
        omega
      · exact absurd hend (hinside fun ie hmem hsame => hthere ⟨ie, hmem, hsame⟩)

/-- The search finds an article of the index if no interval that the index is halved into towards
the article has only removed entries up to its middle, and gives up on another one inside the index
unless the number falls off its end. -/
theorem gettoken_answers_iff (gib : List OVINDEX)
    (hsorted : gib.Pairwise fun a b => a.artnum ≤ b.artnum) (artnum : Nat) (hpos : 0 < artnum) :
    Answers (removeDuplicates gib) artnum ↔
      (∀ place ie, (removeDuplicates gib)[place]? = some ie → ie.artnum = artnum →
        ∀ interval, Towards (removeDuplicates gib) place interval →
          ¬Blind (removeDuplicates gib) interval) ∧
      ((∀ ie ∈ removeDuplicates gib, ie.artnum ≠ artnum) →
        ¬FallsOff (removeDuplicates gib) artnum) := by
  have hincreasing := removeDuplicates_pairwise hsorted
  generalize removeDuplicates gib = gib at hincreasing ⊢
  rw [answers_iff hincreasing hpos, ← reached_end_iff hincreasing hpos]
  refine and_congr_left fun _ => ⟨fun hsees place ie hplace hsame interval htowards => ?_, ?_⟩
  · have hblinds := hsees ⟨ie, List.mem_of_getElem? hplace, hsame⟩
    exact hblinds interval (htowards.reached hincreasing hpos hplace hsame hblinds).1
  · rintro hsees ⟨ie, hmem, hsame⟩ interval hreached
    obtain ⟨place, hplace⟩ := List.mem_iff_getElem?.mp hmem
    exact hsees place ie hplace hsame interval (hreached.towards hincreasing hpos hplace hsame)

def OVINDEX.numbered (artnum : Nat) : OVINDEX := { OVINDEX.zero with artnum := artnum }

def repeated : List OVINDEX := [.numbered 1, .numbered 3, .numbered 3, .numbered 3, .numbered 4]

theorem towards_repeated {interval : Nat × Nat}
    (h : Towards (removeDuplicates repeated) 3 interval) :
    interval = (0, 5) ∨ interval = (3, 5) ∨ interval = (3, 4) := by
  induction h with
  | whole => exact .inl (by decide)
  | behind _ hhalved hplace ih =>
    rcases ih with h | h | h
    · cases h
      exact .inr (.inl rfl)
    · cases h
      omega
    · cases h
      omega
  | @before _ _ j _ _ hhalved hseen hplace ih =>
    have hinside := hseen.inside
    rcases ih with h | h | h
    · cases h
      omega
    · cases h
      obtain rfl : j = 4 := by omega
      exact .inr (.inr rfl)
    · cases h
      omega

/-- The article 3 stands behind the middle, which was removed with its own duplicates; 2 is between
two entries. -/
theorem gettoken_answers_repeated :
    Answers (removeDuplicates repeated) 3 ∧ Answers (removeDuplicates repeated) 2 := by
  constructor
  · refine (gettoken_answers_iff repeated (by decide) 3 (by decide)).mpr ⟨?_, ?_⟩
    · intro place ie hplace hsame interval htowards hblind
      have hfirst : (removeDuplicates repeated)[0]? = some (.numbered 1) := by decide
      have hthird : (removeDuplicates repeated)[3]? = some (.numbered 3) := by decide
      obtain rfl : place = 3 := by
        have hlt := (List.getElem?_eq_some_iff.mp hplace).1
        change place < 5 at hlt
        interval_cases place <;> first | rfl | (cases hplace; cases hsame)
      rcases towards_repeated htowards with rfl | rfl | rfl
      · exact absurd (hblind.removed 0 (by decide) (by decide) _ hfirst) (by decide)
      · exact absurd (hblind.removed 3 (by decide) (by decide) _ hthird) (by decide)
      · exact absurd hblind.halved (by decide)
    · intro habsent
      exact absurd rfl (habsent (.numbered 3) (by decide))
  · refine (gettoken_answers_iff repeated (by decide) 2 (by decide)).mpr ⟨?_, ?_⟩
    · intro place ie hplace hsame
      have hlt := (List.getElem?_eq_some_iff.mp hplace).1
      change place < 5 at hlt
      interval_cases place <;> (cases hplace; cases hsame)
    · rintro - (hnil | ⟨-, hbelow, -⟩)
      · cases hnil
      · exact absurd (hbelow (.numbered 4) (by decide)) (by decide)

/-- An article behind the last of two is looked for behind the index. -/
theorem not_gettoken_answers :
    ¬∀ gib : List OVINDEX, (gib.Pairwise fun a b => a.artnum ≤ b.artnum) → ∀ artnum, 0 < artnum →
      Answers (removeDuplicates gib) artnum := by
  intro h
  obtain ⟨answer, hanswer, _⟩ := h [.numbered 1, .numbered 2] (by decide) 3 (by decide)
  have hfails : gettoken (removeDuplicates [.numbered 1, .numbered 2]) 3 = .error () := by
    decide +kernel
  rw [hfails] at hanswer
  cases hanswer

end Inn.Buffindexed
