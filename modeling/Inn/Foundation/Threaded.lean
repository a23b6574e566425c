import Mathlib

/-!
# Lists threaded through records

Several linked lists share one array of records. A link is stored either at the
head of a list or in a record, and names the next record or none. A record that
is in a list is in one list only, so that a list is changed by writing one link
where a record is taken out of it, and two where one is put at its front.
-/

namespace Inn.Foundation.Threaded

open Function (update update_self update_of_ne)
open List (nodup_cons mem_cons append_assoc eq_nil_or_concat concat_eq_append)

variable {ι Rec : Type*}

abbrev Links (ι Rec : Type*) := ι ⊕ Rec → Option Rec

inductive Chain (link : Links ι Rec) : Option Rec → List Rec → Prop
  | nil : Chain link none []
  | cons {a rest} : Chain link (link (.inr a)) rest → Chain link (some a) (a :: rest)

namespace Chain

variable {link link' : Links ι Rec} {start : Option Rec} {list : List Rec} {a : Rec}

theorem start_eq (hchain : Chain link start list) : start = list.head? := by
  cases hchain <;> rfl

theorem unique {list' : List Rec} (hchain : Chain link start list)
    (hchain' : Chain link start list') : list = list' := by
  induction hchain generalizing list' with
  | nil =>
    cases hchain' with
    | nil => rfl
  | cons _ ih =>
    cases hchain' with
    | cons hrest => rw [ih hrest]

theorem of_append (front : List Rec) {back : List Rec}
    (hchain : Chain link start (front ++ back)) : Chain link back.head? back := by
  induction front generalizing start with
  | nil =>
    rw [List.nil_append] at hchain
    exact hchain.start_eq ▸ hchain
  | cons b front ih =>
    cases hchain with
    | cons hrest => exact ih hrest

theorem nodup (hchain : Chain link start list) : list.Nodup := by
  induction hchain with
  | nil => exact List.nodup_nil
  | @cons a rest hrest ih =>
    refine nodup_cons.mpr ⟨fun hmem => ?_, ih⟩
    -- The walk from the second visit would be the walk from the first one.
    obtain ⟨front, back, rfl⟩ := List.append_of_mem hmem
    have hagain : Chain link (some a) (a :: back) := hrest.of_append _
    have heq := hagain.unique (Chain.cons hrest)
    have hlength := congrArg List.length heq
    simp only [List.length_cons, List.length_append] at hlength
    omega

theorem length_le {link : Links ι Nat} {start : Option Nat} {list : List Nat} {n : Nat}
    (hchain : Chain link start list) (hin : ∀ a ∈ list, a < n) : list.length ≤ n := by
  have hsub : list ⊆ List.range n := fun a ha => List.mem_range.mpr (hin a ha)
  simpa using (List.Nodup.subperm hchain.nodup hsub).length_le

theorem congr (hchain : Chain link start list)
    (hsame : ∀ a ∈ list, link' (.inr a) = link (.inr a)) : Chain link' start list := by
  induction hchain with
  | nil => exact .nil
  | @cons a rest _ ih =>
    refine .cons ?_
    rw [hsame a (List.mem_cons_self ..)]
    exact ih fun b hb => hsame b (List.mem_cons_of_mem a hb)

theorem next_eq {front back : List Rec} (hchain : Chain link start (front ++ a :: back)) :
    link (.inr a) = back.head? := by
  cases hchain.of_append front with
  | cons hrest => exact hrest.start_eq

theorem next_ne (hchain : Chain link start list) (ha : a ∈ list) : link (.inr a) ≠ some a := by
  obtain ⟨front, back, rfl⟩ := List.append_of_mem ha
  intro hself
  have hnodup := (hchain.of_append front).nodup
  rw [hchain.next_eq] at hself
  exact (nodup_cons.mp hnodup).1 (List.mem_of_mem_head? hself)

theorem splice [DecidableEq ι] [DecidableEq Rec] {front back : List Rec} {b : Rec}
    (hchain : Chain link start (front ++ b :: a :: back)) :
    Chain (update link (.inr b) (link (.inr a))) start (front ++ b :: back) := by
  have hnodup := hchain.nodup
  induction front generalizing start with
  | nil =>
    simp only [List.nil_append, nodup_cons, mem_cons, not_or] at hchain hnodup ⊢
    cases hchain with
    | cons hrest =>
      refine .cons ?_
      rw [update_self]
      have hback : Chain link (link (.inr a)) back := by
        generalize link (.inr b) = next at hrest
        cases hrest with
        | cons hback => exact hback
      refine hback.congr fun c hc => ?_
      have hne : c ≠ b := by
        rintro rfl
        exact hnodup.1.2 hc
      simp [hne]
  | cons c front ih =>
    simp only [List.cons_append, nodup_cons] at hchain hnodup ⊢
    cases hchain with
    | cons hrest =>
      refine .cons ?_
      have hne : c ≠ b := by
        rintro rfl
        exact hnodup.1 (by simp)
      rw [update_of_ne (by simpa using hne)]
      exact ih hrest hnodup.2

end Chain

def parent (i : ι) (front : List Rec) : ι ⊕ Rec :=
  match front.getLast? with
  | none => .inl i
  | some b => .inr b

theorem parent_nil (i : ι) : parent i ([] : List Rec) = .inl i := rfl

theorem parent_append (i : ι) (front : List Rec) (b : Rec) : parent i (front ++ [b]) = .inr b := by
  simp [parent]

/-- Lists that are apart and take all that is present. -/
structure Threads (link : Links ι Rec) (lists : ι → List Rec) (present : Rec → Prop) : Prop where
  chain : ∀ i, Chain link (link (.inl i)) (lists i)
  disjoint : ∀ {i j a}, a ∈ lists i → a ∈ lists j → i = j
  covers : ∀ a, present a ↔ ∃ i, a ∈ lists i

namespace Threads

variable [DecidableEq ι] [DecidableEq Rec] {link : Links ι Rec} {lists : ι → List Rec}
  {present : Rec → Prop} {a : Rec} {i : ι}

omit [DecidableEq ι] [DecidableEq Rec] in
theorem congr (hthreads : Threads link lists present) {link' : Links ι Rec}
    (hheads : ∀ i, link' (.inl i) = link (.inl i))
    (hsame : ∀ a, present a → link' (.inr a) = link (.inr a)) : Threads link' lists present where
  chain i := by
    rw [hheads]
    exact (hthreads.chain i).congr fun a ha => hsame a ((hthreads.covers a).mpr ⟨i, ha⟩)
  disjoint := hthreads.disjoint
  covers := hthreads.covers

omit [DecidableEq ι] [DecidableEq Rec] in
theorem congr_present (hthreads : Threads link lists present) {present' : Rec → Prop}
    (hsame : ∀ a, present' a ↔ present a) : Threads link lists present' where
  chain := hthreads.chain
  disjoint := hthreads.disjoint
  covers a := (hsame a).trans (hthreads.covers a)

theorem push (hthreads : Threads link lists present) (hnew : ¬present a) (i : ι) :
    Threads (update (update link (.inr a) (link (.inl i))) (.inl i) (some a))
      (update lists i (a :: lists i)) (fun b => b = a ∨ present b) where
  chain j := by
    have hold : ∀ k, Chain (update (update link (.inr a) (link (.inl i)))
        (.inl i) (some a)) (link (.inl k)) (lists k) := by
      intro k
      refine (hthreads.chain k).congr fun b hb => ?_
      have hne : b ≠ a := by
        rintro rfl
        exact hnew ((hthreads.covers b).mpr ⟨k, hb⟩)
      simp [hne]
    by_cases hj : j = i
    · subst hj
      rw [update_self, update_self]
      refine .cons ?_
      have hlink : update (update link (.inr a) (link (.inl j))) (.inl j) (some a)
          (.inr a) = link (.inl j) := by simp
      rw [hlink]
      exact hold j
    · have hhead : update (update link (.inr a) (link (.inl i))) (.inl i) (some a)
          (.inl j) = link (.inl j) := by simp [hj]
      rw [hhead, update_of_ne hj]
      exact hold j
  disjoint := by
    intro j k b hj hk
    have hmem : ∀ l, b ∈ update lists i (a :: lists i) l →
        (l = i ∧ b = a) ∨ b ∈ lists l := by
      intro l hl
      by_cases hli : l = i
      · subst hli
        rw [update_self] at hl
        rcases mem_cons.mp hl with rfl | hl
        · exact Or.inl ⟨rfl, rfl⟩
        · exact Or.inr hl
      · rw [update_of_ne hli] at hl
        exact Or.inr hl
    rcases hmem j hj with ⟨rfl, rfl⟩ | hj' <;> rcases hmem k hk with ⟨rfl, hb⟩ | hk'
    · rfl
    · exact absurd ((hthreads.covers b).mpr ⟨k, hk'⟩) hnew
    · subst hb
      exact absurd ((hthreads.covers b).mpr ⟨j, hj'⟩) hnew
    · exact hthreads.disjoint hj' hk'
  covers b := by
    rw [hthreads.covers b]
    constructor
    · rintro (rfl | ⟨k, hk⟩)
      · exact ⟨i, by simp⟩
      · by_cases hki : k = i
        · subst hki
          exact ⟨k, by simp [hk]⟩
        · exact ⟨k, by rwa [update_of_ne hki]⟩
    · rintro ⟨k, hk⟩
      by_cases hki : k = i
      · subst hki
        rw [update_self] at hk
        rcases mem_cons.mp hk with rfl | hk
        · exact Or.inl rfl
        · exact Or.inr ⟨k, hk⟩
      · rw [update_of_ne hki] at hk
        exact Or.inr ⟨k, hk⟩

theorem splice (hthreads : Threads link lists present) {front back : List Rec}
    (hlist : lists i = front ++ a :: back) :
    Threads (update link (parent i front) (link (.inr a)))
      (update lists i (front ++ back)) (fun b => present b ∧ b ≠ a) := by
  have hchain := hthreads.chain i
  rw [hlist] at hchain
  have hnodup := hchain.nodup
  have hmem : ∀ k b, b ∈ update lists i (front ++ back) k ↔ b ∈ lists k ∧ b ≠ a := by
    intro k b
    by_cases hki : k = i
    · subst hki
      rw [update_self, hlist]
      simp only [List.nodup_append, nodup_cons, List.mem_append, mem_cons] at hnodup ⊢
      grind
    · rw [update_of_ne hki]
      refine ⟨fun hb => ⟨hb, ?_⟩, And.left⟩
      rintro rfl
      exact hki (hthreads.disjoint hb (hlist ▸ by simp))
  refine ⟨fun k => ?_, fun hj hk => ?_, fun b => ?_⟩
  · by_cases hki : k = i
    · subst hki
      rw [update_self]
      rcases eq_nil_or_concat front with rfl | ⟨front, b, rfl⟩
      · rw [parent_nil, update_self, hchain.next_eq, List.nil_append]
        exact (hchain.of_append [a]).congr fun c _ => by simp
      · simp only [concat_eq_append, append_assoc, List.singleton_append] at hchain ⊢
        rw [parent_append, update_of_ne (by simp)]
        exact hchain.splice
    · rw [update_of_ne hki]
      have hpred : ∀ b, parent i front = .inr b → b ∈ lists i := by
        intro b hb
        rcases eq_nil_or_concat front with rfl | ⟨front, c, rfl⟩
        · simp [parent_nil] at hb
        · rw [concat_eq_append, parent_append] at hb
          obtain rfl := Sum.inr.inj hb
          simp [hlist]
      have hhead : update link (parent i front) (link (.inr a)) (.inl k) =
          link (.inl k) := by
        apply update_of_ne
        intro heq
        rcases eq_nil_or_concat front with rfl | ⟨front, c, rfl⟩
        · exact hki (Sum.inl.inj (heq.trans (parent_nil i)))
        · rw [concat_eq_append, parent_append] at heq
          cases heq
      rw [hhead]
      refine (hthreads.chain k).congr fun c hc => update_of_ne ?_ _ _
      intro heq
      exact hki (hthreads.disjoint hc (hpred c heq.symm))
  · exact hthreads.disjoint ((hmem _ _).mp hj).1 ((hmem _ _).mp hk).1
  · rw [hthreads.covers b]
    constructor
    · rintro ⟨⟨k, hk⟩, hne⟩
      exact ⟨k, (hmem k b).mpr ⟨hk, hne⟩⟩
    · rintro ⟨k, hk⟩
      exact ⟨⟨k, ((hmem k b).mp hk).1⟩, ((hmem k b).mp hk).2⟩

end Threads

end Inn.Foundation.Threaded
