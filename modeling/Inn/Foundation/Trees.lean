import Mathlib

/-!
# Trees linked by first child, next sibling and parent

The nodes of a forest are listed in pre-order. What comes after a node in the listing is found from
the node by its links alone: what is below it, then its later siblings, then those of its ancestors.
A node is added at the end of the listing as the last child of one that nothing but its own nodes
comes after.
-/

namespace Inn.Foundation.Trees

open Function (update update_self update_of_ne)
open List (cons_append append_nil mem_cons_of_mem mem_append_left mem_append_right mem_cons_self)

/-- Links of a forest: the first child, the next sibling, the parent. -/
structure Links (ι : Type*) where
  child : ι → Option ι
  next : ι → Option ι
  parent : ι → Option ι

variable {ι : Type*}

inductive Forest (links : Links ι) : Option ι → Option ι → List ι → Prop
  | nil {parent : Option ι} : Forest links none parent []
  | cons {parent : Option ι} {a : ι} {below later : List ι} :
      links.parent a = parent → Forest links (links.child a) (some a) below →
      Forest links (links.next a) parent later →
        Forest links (some a) parent (a :: (below ++ later))

inductive Up (links : Links ι) : Option ι → List ι → Prop
  | none : Up links none []
  | some {a : ι} {later up : List ι} : Forest links (links.next a) (links.parent a) later →
      Up links (links.parent a) up →
      Up links (some a) (later ++ up)

/-- What is visited behind `a`: what is below it, then the rest. -/
def After (links : Links ι) (a : ι) (l : List ι) : Prop :=
  ∃ below up, Forest links (links.child a) (some a) below ∧ Up links (some a) up ∧ l = below ++ up

variable {links links' : Links ι} {start parent : Option ι} {a b g p : ι} {l : List ι}

theorem Forest.of_none (h : Forest links none parent l) : l = [] := by
  cases h
  rfl

theorem Forest.of_some (h : Forest links (some a) parent l) :
    ∃ below later, links.parent a = parent ∧
    Forest links (links.child a) (some a) below ∧ Forest links (links.next a) parent later ∧
      l = a :: (below ++ later) := by
  cases h with
  | cons hparent hbelow hlater => exact ⟨_, _, hparent, hbelow, hlater, rfl⟩

theorem After.of_child (h : After links a l) (hchild : links.child a = some b) :
    ∃ l', l = b :: l' ∧ After links b l' := by
  obtain ⟨below, up, hbelow, hup, rfl⟩ := h
  rw [hchild] at hbelow
  obtain ⟨below', later, hparent, hbelow', hlater, rfl⟩ := hbelow.of_some
  refine ⟨below' ++ (later ++ up), ?_, below', later ++ up, hbelow', ?_, rfl⟩
  · rw [cons_append, List.append_assoc]
  · exact .some (hparent ▸ hlater) (hparent ▸ hup)

theorem After.of_leaf (h : After links a l) (hchild : links.child a = none) :
    Up links (some a) l := by
  obtain ⟨below, up, hbelow, hup, rfl⟩ := h
  rw [hchild] at hbelow
  rwa [hbelow.of_none]

theorem after_of_up (h : Up links start (b :: l)) : After links b l := by
  generalize heq : b :: l = whole at h
  induction h with
  | none => cases heq
  | @some a later up hlater hup ih =>
    cases hnext : links.next a with
    | none =>
      rw [hnext] at hlater
      rw [hlater.of_none] at heq
      exact ih heq
    | some c =>
      rw [hnext] at hlater
      obtain ⟨below, later', hparent, hbelow, hlater', rfl⟩ := hlater.of_some
      cases heq
      exact ⟨below, later' ++ up, hbelow, .some (hparent ▸ hlater') (hparent ▸ hup),
        List.append_assoc ..⟩

theorem After.next (h : After links a (b :: l)) : After links b l := by
  cases hchild : links.child a with
  | none => exact after_of_up (h.of_leaf hchild)
  | some c =>
    obtain ⟨l', heq, hafter⟩ := h.of_child hchild
    obtain ⟨rfl, rfl⟩ := List.cons.inj heq
    exact hafter

theorem After.behind {front : List ι} (h : After links a (front ++ b :: l)) : After links b l := by
  induction front generalizing a with
  | nil => exact h.next
  | cons c front ih => exact ih h.next

theorem Forest.after (h : Forest links (some a) none l) : ∃ l', l = a :: l' ∧ After links a l' := by
  obtain ⟨below, later, hparent, hbelow, hlater, rfl⟩ := h.of_some
  have hup : Up links (some a) (later ++ []) :=
    .some (by rwa [hparent]) (by rw [hparent]; exact Up.none)
  rw [append_nil] at hup
  exact ⟨below ++ later, rfl, below, later, hbelow, hup, rfl⟩

section Attaching

theorem Forest.congr (h : Forest links start parent l)
    (hchild : ∀ b ∈ l, links'.child b = links.child b)
    (hnext : ∀ b ∈ l, links'.next b = links.next b)
    (hparent : ∀ b ∈ l, links'.parent b = links.parent b) :
    Forest links' start parent l := by
  induction h with
  | nil => exact .nil
  | @cons parent a below later hparent' _ _ ihbelow ihlater =>
    have hsub {b : ι} (hb : b ∈ below) : b ∈ a :: (below ++ later) :=
      mem_cons_of_mem _ (mem_append_left _ hb)
    have hsub' {b : ι} (hb : b ∈ later) : b ∈ a :: (below ++ later) :=
      mem_cons_of_mem _ (mem_append_right _ hb)
    refine .cons ?_ ?_ ?_
    · rw [hparent a mem_cons_self, hparent']
    · rw [hchild a mem_cons_self]
      exact ihbelow (fun b hb => hchild b (hsub hb)) (fun b hb => hnext b (hsub hb)) fun b hb =>
        hparent b (hsub hb)
    · rw [hnext a mem_cons_self]
      exact ihlater (fun b hb => hchild b (hsub' hb)) (fun b hb => hnext b (hsub' hb)) fun b hb =>
        hparent b (hsub' hb)

theorem up_parent_of_up (hup : Up links (some a) []) : Up links (links.parent a) [] := by
  generalize heq : ([] : List ι) = whole at hup
  cases hup with
  | some _ hup =>
    obtain ⟨rfl, rfl⟩ := List.append_eq_nil_iff.mp heq.symm
    exact hup

theorem Forest.up_of_mem (h : Forest links start parent l) (hp : p ∈ l)
    (hup : Up links (some p) []) : Up links parent [] := by
  induction h with
  | nil => cases hp
  | cons hparent _ _ ihbelow ihlater =>
    obtain rfl | hp := List.mem_cons.mp hp
    · exact hparent ▸ up_parent_of_up hup
    obtain hp | hp := List.mem_append.mp hp
    · exact hparent ▸ up_parent_of_up (ihbelow hp)
    · exact ihlater hp

theorem next_eq_none_of_up (hup : Up links (some a) []) : links.next a = none := by
  generalize heq : ([] : List ι) = whole at hup
  cases hup with
  | some hlater _ =>
    obtain ⟨rfl, rfl⟩ := List.append_eq_nil_iff.mp heq.symm
    cases hnext : links.next a with
    | none => rfl
    | some b =>
      rw [hnext] at hlater
      obtain ⟨_, _, _, _, _, hnil⟩ := hlater.of_some
      cases hnil

variable [DecidableEq ι]

namespace Links

def lastSibling (links : Links ι) : Nat → ι → ι
  | 0, a => a
  | bound + 1, a =>
    match links.next a with
    | none => a
    | some b => lastSibling links bound b

def fresh (links : Links ι) (g : ι) (parent : Option ι) : Links ι :=
  ⟨update links.child g none, update links.next g none, update links.parent g parent⟩

def append (links : Links ι) (bound : Nat) (p g : ι) : Links ι :=
  match links.child p with
  | none => { links with child := update links.child p (some g) }
  | some first => { links with next := update links.next (links.lastSibling bound first) (some g) }

def attach (links : Links ι) (bound : Nat) (p g : ι) : Links ι :=
    (links.fresh g (some p)).append bound p g

end Links

theorem Forest.snoc {bound : Nat} (h : Forest links (some a) parent l)
    (hnodup : l.Nodup) (hg : g ∉ l)
    (hbound : l.length ≤ bound) (hchild : links.child g = none) (hnext : links.next g = none)
    (hparent : links.parent g = parent) :
    links.lastSibling bound a ∈ l ∧
      Forest { links with next := update links.next (links.lastSibling bound a) (some g) }
        (some a) parent
        (l ++ [g]) := by
  generalize hstart : some a = start at h
  induction h generalizing a bound with
  | nil => cases hstart
  | @cons parent a' below later hparent' hbelow hlater _ ih =>
    obtain rfl := Option.some.inj hstart
    obtain ⟨hnot, hnodup⟩ := List.nodup_cons.mp hnodup
    obtain ⟨-, hnodup', hdisjoint⟩ := List.nodup_append'.mp hnodup
    rw [List.length_cons] at hbound
    obtain ⟨bound, rfl⟩ := Nat.exists_eq_add_of_lt (Nat.lt_of_lt_of_le (Nat.succ_pos _) hbound)
    rw [List.length_append] at hbound
    have hlast : links.lastSibling (0 + bound + 1) a =
        (links.next a).elim a (links.lastSibling (0 + bound)) := by
      rw [Links.lastSibling]
      cases links.next a <;> rfl
    cases hsibling : links.next a with
    | none =>
      rw [hlast, hsibling, Option.elim_none]
      rw [hsibling] at hlater
      obtain rfl := hlater.of_none
      refine ⟨mem_cons_self, ?_⟩
      rw [append_nil]
      refine .cons hparent' ?_ ?_
      · refine hbelow.congr (fun _ _ => rfl) (fun b hb => ?_) fun _ _ => rfl
        exact update_of_ne (ne_of_mem_of_not_mem (mem_append_left _ hb) hnot) _ _
      · have hforest :
            Forest { links with next := update links.next a (some g) } (some g) parent [g] := by
          refine @Forest.cons _ _ _ g [] [] hparent ?_ ?_
          · dsimp only
            rw [hchild]
            exact .nil
          · dsimp only
            rw [update_of_ne (ne_of_mem_of_not_mem mem_cons_self hg).symm, hnext]
            exact .nil
        dsimp only
        rwa [update_self]
    | some b =>
      rw [hlast, hsibling, Option.elim_some]
      obtain ⟨hmem, hforest⟩ := ih hnodup' (fun h => hg (mem_cons_of_mem _ (mem_append_right _ h)))
        (show later.length ≤ 0 + bound by omega) hparent hsibling.symm
      refine ⟨mem_cons_of_mem _ (mem_append_right _ hmem), ?_⟩
      rw [cons_append, List.append_assoc]
      refine .cons hparent' ?_ ?_
      · refine hbelow.congr (fun _ _ => rfl) (fun c hc => ?_) fun _ _ => rfl
        exact update_of_ne (ne_of_mem_of_not_mem hmem (hdisjoint hc)).symm _ _
      · dsimp only
        rw [update_of_ne (ne_of_mem_of_not_mem (mem_append_right _ hmem) hnot).symm, hsibling]
        exact hsibling ▸ hforest

structure Attached (links links' : Links ι) (start parent : Option ι) (l : List ι)
    (p g : ι) : Prop where
  forest : Forest links' start parent (l ++ [g])
  child : ∀ b ∉ l, b ≠ g → links'.child b = links.child b
  next : ∀ b ∉ l, b ≠ g → links'.next b = links.next b
  last : links'.next g = none
  up : Up links' parent [] → Up links' (some p) []

theorem Links.attach_parent (links : Links ι) (bound : Nat) (p g : ι) :
    (links.attach bound p g).parent = update links.parent g (some p) := by
  rw [attach, append]
  split <;> rfl

theorem Forest.attach_here {bound : Nat} {below : List ι}
    (hbelow : Forest links (links.child p) (some p) below)
    (hnodup : below.Nodup) (hp : p ∉ below) (hg : g ∉ below) (hne : p ≠ g)
    (hbound : below.length ≤ bound) :
    Forest (links.attach bound p g) ((links.attach bound p g).child p) (some p) (below ++ [g]) ∧
      (∀ b ∉ below, b ≠ g → (links.attach bound p g).next b = links.next b) ∧
        (links.attach bound p g).next g = none ∧
        ∀ b, b ≠ p → b ≠ g → (links.attach bound p g).child b = links.child b := by
  have hfresh : Forest (links.fresh g (some p)) (links.child p) (some p) below :=
    hbelow.congr (fun b hb => update_of_ne (ne_of_mem_of_not_mem hb hg) _ _)
      (fun b hb => update_of_ne (ne_of_mem_of_not_mem hb hg) _ _)
      fun b hb => update_of_ne (ne_of_mem_of_not_mem hb hg) _ _
  have hchild : (links.fresh g (some p)).child p = links.child p := update_of_ne hne _ _
  have hold {b : ι} (hb : b ≠ g) : (links.fresh g (some p)).child b = links.child b :=
    update_of_ne hb _ _
  have hold' {b : ι} (hb : b ≠ g) : (links.fresh g (some p)).next b = links.next b :=
    update_of_ne hb _ _
  have hnew : (links.fresh g (some p)).next g = none := update_self ..
  rw [Links.attach, Links.append]
  split
  next hnone =>
    rw [hchild] at hnone
    rw [hnone] at hbelow
    obtain rfl := hbelow.of_none
    dsimp only
    refine ⟨?_, fun b _ hb => hold' hb, hnew, fun b hb hb' => by rw [update_of_ne hb, hold hb']⟩
    rw [update_self, List.nil_append]
    refine @Forest.cons _ _ _ g [] [] (update_self ..) ?_ ?_
    · dsimp only
      rw [update_of_ne hne.symm, show (links.fresh g (some p)).child g = none from update_self ..]
      exact .nil
    · rw [hnew]
      exact .nil
  next first hfirst =>
    dsimp only
    rw [hfirst]
    rw [hchild] at hfirst
    rw [hfirst] at hfresh
    obtain ⟨hmem, hforest⟩ := hfresh.snoc hnodup hg hbound (update_self ..) (update_self ..)
      (update_self ..)
    exact ⟨hforest, fun b hb hb' =>
      by rw [update_of_ne (ne_of_mem_of_not_mem hmem hb).symm, hold' hb'],
      by rw [update_of_ne (ne_of_mem_of_not_mem hmem hg).symm, hnew], fun b _ hb' => hold hb'⟩

theorem Forest.attach {bound : Nat} (h : Forest links start parent l) (hnodup : l.Nodup)
    (hg : g ∉ l) (hp : p ∈ l) (hlast : Up links (some p) []) (hbound : l.length ≤ bound) :
    Attached links (links.attach bound p g) start parent l p g := by
  have hparents := links.attach_parent bound p g
  induction h with
  | nil => cases hp
  | @cons parent a below later hparent hbelow hlater ihbelow ihlater =>
    obtain ⟨hnot, hrest⟩ := List.nodup_cons.mp hnodup
    obtain ⟨hnodupbelow, hnoduplater, hdisjoint⟩ := List.nodup_append'.mp hrest
    have hne : a ≠ g := ne_of_mem_of_not_mem mem_cons_self hg
    have hgbelow : g ∉ below := fun h => hg (mem_cons_of_mem _ (mem_append_left _ h))
    have hglater : g ∉ later := fun h => hg (mem_cons_of_mem _ (mem_append_right _ h))
    have hnotbelow : a ∉ below := fun h => hnot (mem_append_left _ h)
    have hnotlater : a ∉ later := fun h => hnot (mem_append_right _ h)
    rw [List.length_cons, List.length_append] at hbound
    have hparent' : (links.attach bound p g).parent a = parent := by
      rw [hparents, update_of_ne hne, hparent]
    -- Where the node is put below this one, nothing comes behind.
    have hend (hup : Up links (some a) []) : links.next a = none ∧ later = [] := by
      have hnone := next_eq_none_of_up hup
      rw [hnone] at hlater
      exact ⟨hnone, hlater.of_none⟩
    obtain rfl | hp := List.mem_cons.mp hp
    · obtain ⟨hnone, rfl⟩ := hend hlast
      obtain ⟨hforest, hnext, hnew, hchild⟩ :=
        hbelow.attach_here hnodupbelow hnotbelow hgbelow hne (show below.length ≤ bound by omega)
      have hnext' : (links.attach bound p g).next p = none := (hnext p hnotbelow hne).trans hnone
      refine ⟨?_, fun b hb hb' => hchild b (ne_of_mem_of_not_mem mem_cons_self hb).symm hb',
        fun b hb hb' => ?_, hnew, fun hup => ?_⟩
      · rw [append_nil, cons_append, ← append_nil (below ++ [g])]
        exact .cons hparent' hforest (by rw [hnext']; exact .nil)
      · exact hnext b (fun h => hb (mem_cons_of_mem _ (mem_append_left _ h))) hb'
      · exact @Up.some _ _ p [] [] (by rw [hnext']; exact .nil) (by rw [hparent']; exact hup)
    obtain hpbelow | hplater := List.mem_append.mp hp
    · obtain ⟨hnone, rfl⟩ := hend (hbelow.up_of_mem hpbelow hlast)
      obtain ⟨hforest, hchild, hnext, hnew, hup⟩ := ihbelow hnodupbelow hgbelow hpbelow (by omega)
      have hnext' : (links.attach bound p g).next a = none := (hnext a hnotbelow hne).trans hnone
      refine ⟨?_, fun b hb hb' => ?_, fun b hb hb' => ?_, hnew, fun hup' => hup ?_⟩
      · rw [append_nil, cons_append, ← append_nil (below ++ [g])]
        exact .cons hparent' (by rw [hchild a hnotbelow hne]; exact hforest)
          (by rw [hnext']; exact .nil)
      · exact hchild b (fun h => hb (mem_cons_of_mem _ (mem_append_left _ h))) hb'
      · exact hnext b (fun h => hb (mem_cons_of_mem _ (mem_append_left _ h))) hb'
      · exact @Up.some _ _ a [] [] (by rw [hnext']; exact .nil) (by rw [hparent']; exact hup')
    · obtain ⟨hforest, hchild, hnext, hnew, hup⟩ := ihlater hnoduplater hglater hplater (by omega)
      have hkept {b : ι} (hb : b ∈ below) : b ∉ later ∧ b ≠ g :=
        ⟨hdisjoint hb, ne_of_mem_of_not_mem hb hgbelow⟩
      refine ⟨?_, fun b hb hb' => ?_, fun b hb hb' => ?_, hnew, hup⟩
      · rw [cons_append, List.append_assoc]
        refine .cons hparent' ?_ (by rw [hnext a hnotlater hne]; exact hforest)
        rw [hchild a hnotlater hne]
        refine hbelow.congr (fun b hb => hchild b (hkept hb).1 (hkept hb).2)
          (fun b hb => hnext b (hkept hb).1 (hkept hb).2) fun b hb => ?_
        rw [hparents, update_of_ne (hkept hb).2]
      · exact hchild b (fun h => hb (mem_cons_of_mem _ (mem_append_right _ h))) hb'
      · exact hnext b (fun h => hb (mem_cons_of_mem _ (mem_append_right _ h))) hb'

end Attaching

end Inn.Foundation.Trees
