import Inn.Foundation.Ended

/-!
# Doubly linked lists

A list has the two nodes at its ends in one structure: they share the null pointer in front of the
one and behind the other. Nodes of several lists are in one memory.
-/

namespace Inn.Lib.Nodes

open Function (update update_comm update_self update_of_ne)
open Foundation.Ended

inductive Place (κ ι : Type*)
  | head (list : κ)
  | tail (list : κ)
  | node (i : ι)
  deriving DecidableEq

variable {κ ι : Type*} [DecidableEq κ] [DecidableEq ι]

def listNew (list : κ) (memory : Links (Place κ ι)) : Links (Place κ ι) where
  succ := update (update memory.succ (.head list) (some (.tail list))) (.tail list) none
  pred := update (update memory.pred (.tail list) (some (.head list))) (.head list) none

def listAddtail (list : κ) (node : Place κ ι) (memory : Links (Place κ ι)) :
    Option (Links (Place κ ι)) := do
  let succ := update memory.succ node (some (.tail list))
  let pred := update memory.pred node (memory.pred (.tail list))
  let tailpred ← pred (.tail list)
  return { succ := update succ tailpred (some node), pred := update pred (.tail list) (some node) }

def listRemhead (list : κ) (memory : Links (Place κ ι)) :
    Option (Option (Place κ ι) × Links (Place κ ι)) := do
  let first ← memory.succ (.head list)
  match memory.succ first with
  | none => return (none, memory)
  | some second =>
    return (some first,
      { succ := update memory.succ (.head list) (some second)
        pred := update memory.pred second (some (.head list)) })

def listRemove (node : Place κ ι) (memory : Links (Place κ ι)) : Option (Links (Place κ ι)) := do
  let before ← memory.pred node
  let succ := update memory.succ before (memory.succ node)
  let behind ← succ node
  return { succ, pred := update memory.pred behind (memory.pred node) }

def places (list : κ) (nodes : List ι) : List (Place κ ι) :=
    .head list :: (nodes.map .node ++ [.tail list])

/-- The nodes of each list, between its head and its tail. -/
structure Holds (memory : Links (Place κ ι)) (lists : κ → List ι) : Prop where
  chain : ∀ list, Chain memory (places list (lists list))
  ends : ∀ list, memory.pred (.head list) = none ∧ memory.succ (.tail list) = none
  disjoint : ∀ {list other i}, i ∈ lists list → i ∈ lists other → list = other

namespace Holds

variable {memory : Links (Place κ ι)} {lists : κ → List ι} {list other : κ} {i : ι}
    {front back : List ι}

omit [DecidableEq κ] [DecidableEq ι] in
theorem mem_places {place : Place κ ι} {nodes : List ι} :
    place ∈ places list nodes ↔ place = .head list ∨ place = .tail list ∨
      ∃ i ∈ nodes, place = .node i := by
  rw [places, List.mem_cons, List.mem_append, List.mem_map, List.mem_singleton]
  simp only [eq_comm, or_comm]

omit [DecidableEq κ] [DecidableEq ι] in
theorem nodup (hholds : Holds memory lists) (list : κ) : (lists list).Nodup := by
  have := (hholds.chain list).nodup
  rw [places, List.nodup_cons, List.nodup_append] at this
  exact List.Nodup.of_map _ this.2.1

omit [DecidableEq κ] [DecidableEq ι] in
theorem front_places (list : κ) (front : List ι) : ∃ (first : List (Place κ ι)) (a : Place κ ι),
    .head list :: front.map .node = first ++ [a] ∧ a ≠ .tail list := by
  rcases List.eq_nil_or_concat front with rfl | ⟨front, i, rfl⟩
  · exact ⟨[], .head list, rfl, nofun⟩
  · exact ⟨.head list :: front.map .node, .node i, by simp, nofun⟩

omit [DecidableEq κ] [DecidableEq ι] in
theorem back_places (list : κ) (back : List ι) : ∃ (b : Place κ ι) (last : List (Place κ ι)),
    back.map .node ++ [.tail list] = b :: last ∧ b ≠ .head list := by
  cases back with
  | nil => exact ⟨.tail list, [], rfl, nofun⟩
  | cons i back => exact ⟨.node i, back.map .node ++ [.tail list], rfl, nofun⟩

omit [DecidableEq κ] [DecidableEq ι] in
theorem places_append (list : κ) (front nodes back : List ι) :
    places list (front ++ (nodes ++ back)) =
      (.head list :: front.map .node) ++ (nodes.map .node ++ (back.map .node ++ [.tail list])) := by
  simp [places]

omit [DecidableEq ι] in
theorem change (hholds : Holds memory lists) {memory' : Links (Place κ ι)} {nodes : List ι}
    (hchain : Chain memory' (places list nodes))
    (hsame : ∀ place, place ∉ places list (lists list) → place ∉ places list nodes →
      memory'.succ place = memory.succ place ∧ memory'.pred place = memory.pred place)
    (hends : memory'.pred (.head list) = none ∧ memory'.succ (.tail list) = none)
    (hnew : ∀ {i other}, i ∈ nodes → i ∈ lists other → i ∈ lists list) :
    Holds memory' (update lists list nodes) := by
  have happart {other : κ} (hother : other ≠ list) {place : Place κ ι}
      (hplace : place ∈ places other (lists other)) :
      memory'.succ place = memory.succ place ∧ memory'.pred place = memory.pred place := by
    refine hsame place ?_ ?_
    · intro hmem
      rcases mem_places.mp hplace with rfl | rfl | ⟨i, hi, rfl⟩
      · exact hother (by simpa [mem_places] using hmem)
      · exact hother (by simpa [mem_places] using hmem)
      · exact hother (hholds.disjoint hi (by simpa [mem_places] using hmem))
    · intro hmem
      rcases mem_places.mp hplace with rfl | rfl | ⟨i, hi, rfl⟩
      · exact hother (by simpa [mem_places] using hmem)
      · exact hother (by simpa [mem_places] using hmem)
      · exact hother (hholds.disjoint hi (hnew (by simpa [mem_places] using hmem) hi))
  refine ⟨fun other => ?_, fun other => ?_, fun {one other i} hone hother => ?_⟩
  · by_cases hother : other = list
    · rwa [hother, update_self]
    · rw [update_of_ne hother]
      exact (hholds.chain other).congr (fun _ h => (happart hother h).1) fun _ h =>
        (happart hother h).2
  · by_cases hother : other = list
    · rwa [hother]
    · rw [(happart hother (mem_places.mpr (.inl rfl))).2,
        (happart hother (mem_places.mpr (.inr (.inl rfl)))).1]
      exact hholds.ends other
  · have hmem {l : κ} (hl : i ∈ update lists list nodes l) :
        l = list ∧ i ∈ nodes ∨ i ∈ lists l := by
      by_cases h : l = list
      · rw [h, update_self] at hl
        exact .inl ⟨h, hl⟩
      · rw [update_of_ne h] at hl
        exact .inr hl
    rcases hmem hone with ⟨rfl, hnodes⟩ | h <;> rcases hmem hother with ⟨rfl, hnodes'⟩ | h'
    · rfl
    · exact hholds.disjoint (hnew hnodes h') h'
    · exact hholds.disjoint h (hnew hnodes' h)
    · exact hholds.disjoint h h'

theorem listAddtail (hholds : Holds memory lists) (list : κ) (hi : ∀ other, i ∉ lists other) :
    ∃ memory', listAddtail list (.node i) memory = some memory' ∧
      Holds memory' (update lists list (lists list ++ [i])) := by
  obtain ⟨first, a, hfirst, ha⟩ := front_places list (lists list)
  have hplaces : places list (lists list) = first ++ a :: .tail list :: [] := by
    have := places_append list (lists list) [] []
    rw [List.append_nil, List.append_nil, hfirst] at this
    simpa using this
  have hplaces' : places list (lists list ++ [i]) = first ++ a :: .node i :: .tail list :: [] := by
    have := places_append list (lists list) [i] []
    rw [List.append_nil, hfirst] at this
    simpa using this
  have hchain := hplaces ▸ hholds.chain list
  have hnode : .node i ∉ first ++ a :: .tail list :: [] := by
    rw [← hplaces, mem_places]
    simpa using hi list
  have hne : (.node i : Place κ ι) ≠ a := fun h => hnode (h ▸ by simp)
  have htail : memory.pred (.tail list) = some a := hchain.middle.2
  refine ⟨(memory.join a (.node i)).join (.node i) (.tail list), ?_, ?_⟩
  · have htail' : update memory.pred (.node i) (some a) (.tail list) = some a := by
      rw [update_of_ne (show (.tail list : Place κ ι) ≠ .node i from nofun), htail]
    rw [Nodes.listAddtail, htail]
    simp only [Option.bind_eq_bind, htail', Option.bind_some, Links.join, update_comm hne]
    rfl
  · refine hholds.change (hplaces' ▸ hchain.insert hnode) (fun place hplace hplace' =>
      ?_) ⟨?_, ?_⟩ ?_
    · rw [hplaces'] at hplace'
      simp only [List.mem_append, List.mem_cons, not_or] at hplace'
      obtain ⟨-, hpa, hpi, hpt, -⟩ := hplace'
      simp [Links.join, hpa, hpi, hpt]
    · simpa [Links.join] using (hholds.ends list).1
    · simpa [Links.join, ha.symm] using (hholds.ends list).2
    · intro j other hj hother
      rcases List.mem_append.mp hj with hj | hj
      · exact hj
      · exact absurd (List.mem_singleton.mp hj ▸ hother) (hi other)

theorem join_around (hholds : Holds memory lists) (hlist : lists list = front ++ i :: back) :
    ∃ a b, memory.succ a = some (.node i) ∧ memory.pred (.node i) = some a ∧
      memory.succ (.node i) = some b ∧
      a ≠ .node i ∧ (front = [] → a = .head list) ∧
      Holds (memory.join a b) (update lists list (front ++ back)) := by
  obtain ⟨first, a, hfirst, ha⟩ := front_places list front
  obtain ⟨b, last, hlast, hb⟩ := back_places list back
  have hplaces : places list (lists list) = first ++ a :: .node i :: b :: last := by
    have := places_append list front [i] back
    rw [hfirst, hlast] at this
    rw [hlist]
    simpa using this
  have hplaces' : places list (front ++ back) = first ++ a :: b :: last := by
    have := places_append list front [] back
    rw [hfirst, hlast] at this
    simpa using this
  have hchain := hplaces ▸ hholds.chain list
  have hbehind : memory.Joined (.node i) b := by
    have hsplit : first ++ a :: .node i :: b :: last = (first ++ [a]) ++ .node i :: b :: last := by
      simp
    exact (hsplit ▸ hchain).middle
  refine ⟨a, b, hchain.middle.1, hchain.middle.2, hbehind.1, ?_, ?_, ?_⟩
  · rintro rfl
    simpa using (List.nodup_append.mp hchain.nodup).2.1
  · rintro rfl
    have hends : ([] ++ [.head list] : List (Place κ ι)) = first ++ [a] := hfirst
    exact (List.singleton_inj.mp (List.append_inj' hends rfl).2).symm
  · refine hholds.change (hplaces' ▸ hchain.remove) (fun place _ hplace' => ?_) ⟨?_, ?_⟩ ?_
    · rw [hplaces'] at hplace'
      simp only [List.mem_append, List.mem_cons, not_or] at hplace'
      obtain ⟨-, hpa, hpb, -⟩ := hplace'
      simp [Links.join, hpa, hpb]
    · simpa [Links.join, hb.symm] using (hholds.ends list).1
    · simpa [Links.join, ha.symm] using (hholds.ends list).2
    · intro j other hj _
      rw [hlist]
      rcases List.mem_append.mp hj with hj | hj
      · exact List.mem_append_left _ hj
      · exact List.mem_append_right _ (List.mem_cons_of_mem i hj)

theorem listRemove (hholds : Holds memory lists) (hi : i ∈ lists list) :
    ∃ memory', listRemove (.node i) memory = some memory' ∧
      Holds memory' (update lists list ((lists list).erase i)) := by
  obtain ⟨front, back, hlist⟩ := List.append_of_mem hi
  obtain ⟨a, b, -, hpred, hsucc, ha, -, hjoined⟩ := hholds.join_around hlist
  have hfront : i ∉ front := fun hmem =>
    (List.nodup_cons.mp (List.nodup_middle.mp (hlist ▸ hholds.nodup list))).1
      (List.mem_append_left _ hmem)
  rw [hlist, List.erase_append_right _ hfront, List.erase_cons_head]
  refine ⟨memory.join a b, ?_, hjoined⟩
  rw [Nodes.listRemove, hpred, hsucc]
  simp only [Option.bind_eq_bind, Option.bind_some, update_of_ne ha.symm, hsucc]
  rfl

theorem listRemhead_nil (hholds : Holds memory lists) (hlist : lists list = []) :
    listRemhead list memory = some (none, memory) := by
  have hchain := hholds.chain list
  rw [hlist, ← List.nil_append (places list [])] at hchain
  have hfirst : memory.succ (.head list) = some (.tail list) := hchain.middle.1
  rw [listRemhead, hfirst, Option.bind_eq_bind, Option.bind_some, (hholds.ends list).2]
  rfl

theorem listRemhead_cons (hholds : Holds memory lists) {rest : List ι}
    (hlist : lists list = i :: rest) :
    ∃ memory', listRemhead list memory = some (some (.node i), memory') ∧
      Holds memory' (update lists list rest) := by
  obtain ⟨a, b, hfirst, -, hsucc, -, ha, hjoined⟩ :=
    hholds.join_around (hlist.trans (List.nil_append _).symm)
  obtain rfl := ha rfl
  refine ⟨memory.join (.head list) b, ?_, hjoined⟩
  rw [listRemhead, hfirst, Option.bind_eq_bind, Option.bind_some, hsucc]
  rfl

end Holds

end Inn.Lib.Nodes
