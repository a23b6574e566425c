import Mathlib

/-!
# Lists that are linked in both directions

Each element has a link to the one behind it and to the one in front of it, and the ends of the list
are known. An element is put at the front, or taken out from anywhere, by writing the links around
it.
-/

namespace Inn.Foundation.Linked

open Function (update update_self update_of_ne update_eq_self)
open List (mem_cons mem_of_head? nodup_cons mem_reverse)

variable {ι : Type*} [DecidableEq ι]

def behind : List ι → ι → Option ι
  | [], _ => none
  | a :: rest, i => if i = a then rest.head? else behind rest i

section Behind

variable {front back : List ι} {i j : ι}

theorem behind_of_notMem (hi : i ∉ front) : behind front i = none := by
  induction front with
  | nil => rfl
  | cons a rest ih =>
    rw [behind, if_neg (List.ne_of_not_mem_cons hi), ih (List.not_mem_of_not_mem_cons hi)]

theorem behind_append_of_mem (hi : i ∈ front) :
    behind (front ++ back) i = (behind front i).or back.head? := by
  induction front with
  | nil => cases hi
  | cons a rest ih =>
    rw [List.cons_append, behind, behind]
    split
    · rw [List.head?_append]
    next hne => exact ih ((mem_cons.mp hi).resolve_left hne)

theorem behind_append_of_notMem (hi : i ∉ front) : behind (front ++ back) i = behind back i := by
  induction front with
  | nil => rfl
  | cons a rest ih =>
    rw [List.cons_append, behind, if_neg (List.ne_of_not_mem_cons hi),
      ih (List.not_mem_of_not_mem_cons hi)]

theorem mem_of_behind (hbehind : behind front i = some j) : j ∈ front := by
  induction front with
  | nil => cases hbehind
  | cons a rest ih =>
    rw [behind] at hbehind
    split at hbehind
    · exact List.mem_cons_of_mem a (mem_of_head? hbehind)
    · exact List.mem_cons_of_mem a (ih hbehind)

theorem behind_eq_none_iff (hnodup : front.Nodup) (hi : i ∈ front) :
    behind front i = none ↔ front.getLast? = some i := by
  induction front with
  | nil => cases hi
  | cons a rest ih =>
    obtain ⟨hnot, hrest⟩ := nodup_cons.mp hnodup
    rw [behind]
    cases rest with
    | nil =>
      obtain rfl := List.mem_singleton.mp hi
      simp
    | cons b rest =>
      rw [List.getLast?_cons_cons]
      split
      next heq =>
        subst heq
        simp only [List.head?_cons, reduceCtorEq, false_iff]
        exact fun hlast => hnot (List.mem_of_getLast? hlast)
      next hne => exact ih hrest ((mem_cons.mp hi).resolve_left hne)

theorem behind_removed (hnodup : (front ++ i :: back).Nodup) (hj : j ≠ i) :
    behind (front ++ back) j =
      (match front.getLast? with
        | some p => update (behind (front ++ i :: back)) p back.head?
        | none => behind (front ++ i :: back)) j := by
  have hfront : front.Nodup := (List.nodup_append.mp hnodup).1
  by_cases hmem : j ∈ front
  · rw [behind_append_of_mem hmem]
    cases hlast : front.getLast? with
    | none =>
      rw [List.getLast?_eq_none_iff.mp hlast] at hmem
      cases hmem
    | some p =>
      dsimp only
      by_cases hp : j = p
      · subst hp
        rw [update_self, (behind_eq_none_iff hfront hmem).mpr hlast, Option.none_or]
      · rw [update_of_ne hp, behind_append_of_mem hmem]
        cases hbehind : behind front j with
        | none =>
          have := (behind_eq_none_iff hfront hmem).mp hbehind
          exact absurd (Option.some.inj (hlast.symm.trans this)).symm hp
        | some b => rfl
  · have hsame : behind (front ++ i :: back) j = behind back j := by
      rw [behind_append_of_notMem hmem, behind, if_neg hj]
    rw [behind_append_of_notMem hmem]
    cases hlast : front.getLast? with
    | none => exact hsame.symm
    | some p =>
      have hp : j ≠ p := fun heq => hmem (heq ▸ List.mem_of_getLast? hlast)
      dsimp only
      rw [update_of_ne hp, hsame]

end Behind

/-- A doubly linked list. -/
structure Links (ι : Type*) where
  head : Option ι
  tail : Option ι
  next : ι → Option ι
  prev : ι → Option ι

namespace Links

variable (links : Links ι)

def push (i : ι) : Links ι :=
  { head := some i
    tail := links.tail.or (some i)
    next := update links.next i links.head
    prev := update (match links.head with
      | some h => update links.prev h (some i)
      | none => links.prev) i none }

def unlinkPrev (i : ι) : Links ι :=
  match links.next i with
  | some n => { links with prev := update links.prev n (links.prev i) }
  | none => if links.tail = some i then { links with tail := links.prev i } else links

def unlinkNext (i : ι) : Links ι :=
  match links.prev i with
  | some p => { links with next := update links.next p (links.next i) }
  | none => if links.head = some i then { links with head := links.next i } else links

def clear (i : ι) : Links ι :=
  { links with next := update links.next i none, prev := update links.prev i none }

def unlink (i : ι) : Links ι := ((links.unlinkPrev i).unlinkNext i).clear i

end Links

/-- The links are those of `list`. -/
structure Represents (links : Links ι) (list : List ι) : Prop where
  nodup : list.Nodup
  head : links.head = list.head?
  tail : links.tail = list.getLast?
  next : links.next = behind list
  prev : links.prev = behind list.reverse

namespace Represents

variable {links : Links ι} {list front back : List ι} {i : ι}

theorem empty : Represents (⟨none, none, fun _ => none, fun _ => none⟩ : Links ι) [] :=
    ⟨List.nodup_nil, rfl, rfl, rfl, rfl⟩

theorem linked_iff (hlinks : Represents links list) :
    links.next i ≠ none ∨ links.prev i ≠ none ∨ links.head = some i ↔ i ∈ list := by
  rw [hlinks.next, hlinks.prev, hlinks.head]
  constructor
  · rintro (hnext | hprev | hhead)
    · by_contra hnot
      exact hnext (behind_of_notMem hnot)
    · by_contra hnot
      exact hprev (behind_of_notMem (mt mem_reverse.mp hnot))
    · exact mem_of_head? hhead
  · intro hmem
    cases hprev : behind list.reverse i with
    | some p => exact .inr (.inl nofun)
    | none =>
      have := (behind_eq_none_iff (List.nodup_reverse.mpr hlinks.nodup)
        (mem_reverse.mpr hmem)).mp hprev
      rw [List.getLast?_reverse] at this
      exact .inr (.inr this)

theorem push (hlinks : Represents links list) (hi : i ∉ list) :
    Represents (links.push i) (i :: list) := by
  refine ⟨nodup_cons.mpr ⟨hi, hlinks.nodup⟩, rfl, ?_, ?_, ?_⟩
  · rw [Links.push, hlinks.tail]
    cases list with
    | nil => rfl
    | cons a rest =>
      rw [List.getLast?_cons_cons]
      cases hlast : (a :: rest).getLast? with
      | none => exact absurd (List.getLast?_eq_none_iff.mp hlast) nofun
      | some b => rfl
  · funext j
    rw [Links.push, behind, hlinks.next, hlinks.head]
    dsimp only
    by_cases hj : j = i
    · rw [hj, update_self, if_pos rfl]
    · rw [update_of_ne hj, if_neg hj]
  · funext j
    rw [Links.push, hlinks.prev, hlinks.head, List.reverse_cons]
    dsimp only
    by_cases hj : j = i
    · subst hj
      rw [update_self, behind_append_of_notMem (mt mem_reverse.mp hi), behind, if_pos rfl]
      rfl
    · rw [update_of_ne hj]
      have hnodup := List.nodup_reverse.mpr hlinks.nodup
      by_cases hmem : j ∈ list.reverse
      · rw [behind_append_of_mem hmem]
        have hlast := behind_eq_none_iff hnodup hmem
        rw [List.getLast?_reverse] at hlast
        cases hhead : list.head? with
        | none =>
          rw [List.head?_eq_none_iff.mp hhead] at hmem
          cases hmem
        | some h =>
          dsimp only
          by_cases hjh : j = h
          · subst hjh
            rw [update_self, hlast.mpr hhead]
            rfl
          · rw [update_of_ne hjh]
            cases hbehind : behind list.reverse j with
            | none => exact absurd (Option.some.inj (hhead.symm.trans (hlast.mp hbehind))).symm hjh
            | some b => rfl
      · rw [behind_append_of_notMem hmem, behind, if_neg hj, behind]
        cases hhead : list.head? with
        | none => exact behind_of_notMem hmem
        | some h =>
          have hjh : j ≠ h := fun heq => hmem (mem_reverse.mpr (heq ▸ mem_of_head? hhead))
          dsimp only
          rw [update_of_ne hjh, behind_of_notMem hmem]

theorem unlink_of_notMem (hlinks : Represents links list) (hi : i ∉ list) :
    Represents (links.unlink i) list := by
  have hnext : links.next i = none := by rw [hlinks.next, behind_of_notMem hi]
  have hprev : links.prev i = none := by rw [hlinks.prev, behind_of_notMem (mt mem_reverse.mp hi)]
  have htail : links.tail ≠ some i := fun heq => hi (List.mem_of_getLast? (hlinks.tail ▸ heq))
  have hhead : links.head ≠ some i := fun heq => hi (mem_of_head? (hlinks.head ▸ heq))
  have hsame : links.unlink i = links := by
    rw [Links.unlink, Links.unlinkPrev, hnext]
    dsimp only
    rw [if_neg htail, Links.unlinkNext, hprev]
    dsimp only
    rw [if_neg hhead, Links.clear]
    conv_lhs => rw [← hnext, update_eq_self, hnext, ← hprev, update_eq_self]
  rwa [hsame]

theorem unlink_of_mem (hlinks : Represents links (front ++ i :: back)) :
    Represents (links.unlink i) (front ++ back) := by
  have hnodup := hlinks.nodup
  have hi : i ∉ front ++ back := (List.nodup_middle.mp hnodup |> nodup_cons.mp).1
  have hfront : i ∉ front := fun hmem => hi (List.mem_append_left _ hmem)
  have hback : i ∉ back := fun hmem => hi (List.mem_append_right _ hmem)
  have hreverse : (front ++ i :: back).reverse = back.reverse ++ i :: front.reverse := by simp
  have hnext : links.next i = back.head? := by
    rw [hlinks.next, behind_append_of_notMem hfront, behind, if_pos rfl]
  have hprev : links.prev i = front.getLast? := by
    rw [hlinks.prev, hreverse, behind_append_of_notMem (mt mem_reverse.mp hback),
      behind, if_pos rfl,
      List.head?_reverse]
  have hprev₁ : (links.unlinkPrev i).prev = (match back.head? with
      | some n => update links.prev n front.getLast?
      | none => links.prev) ∧ (links.unlinkPrev i).next = links.next ∧
          (links.unlinkPrev i).head = links.head ∧
      (links.unlinkPrev i).tail = (front ++ back).getLast? := by
    rw [Links.unlinkPrev, hnext]
    cases hhead : back.head? with
    | none =>
      obtain rfl := List.head?_eq_none_iff.mp hhead
      dsimp only
      rw [if_pos (by rw [hlinks.tail]; simp), List.append_nil]
      exact ⟨rfl, rfl, rfl, hprev⟩
    | some n =>
      refine ⟨by rw [hprev], rfl, rfl, ?_⟩
      obtain ⟨rest, rfl⟩ : ∃ rest, back = n :: rest := List.head?_eq_some_iff.mp hhead
      dsimp only
      rw [hlinks.tail, List.getLast?_append, List.getLast?_append, List.getLast?_cons_cons]
  obtain ⟨hprev₁, hnext₁, hhead₁, htail₁⟩ := hprev₁
  have hprevi : (links.unlinkPrev i).prev i = front.getLast? := by
    rw [hprev₁]
    cases hhead : back.head? with
    | none => exact hprev
    | some n =>
      have hne : i ≠ n := fun heq => hback (heq ▸ mem_of_head? hhead)
      dsimp only
      rw [update_of_ne hne, hprev]
  have hnext₂ : ((links.unlinkPrev i).unlinkNext i).next = (match front.getLast? with
      | some p => update (behind (front ++ i :: back)) p back.head?
      | none => behind (front ++ i :: back)) ∧
      ((links.unlinkPrev i).unlinkNext i).prev = (links.unlinkPrev i).prev ∧
      ((links.unlinkPrev i).unlinkNext i).head = (front ++ back).head? ∧
      ((links.unlinkPrev i).unlinkNext i).tail = (front ++ back).getLast? := by
    rw [Links.unlinkNext, hprevi]
    cases hlast : front.getLast? with
    | none =>
      obtain rfl := List.getLast?_eq_none_iff.mp hlast
      dsimp only
      rw [if_pos (by rw [hhead₁, hlinks.head]; rfl)]
      exact ⟨by rw [hnext₁, hlinks.next], rfl, by rw [hnext₁]; exact hnext, htail₁⟩
    | some p =>
      refine ⟨by rw [hnext₁, hnext, hlinks.next], rfl, ?_, htail₁⟩
      dsimp only
      rw [hhead₁, hlinks.head, List.head?_append, List.head?_append]
      cases front with
      | nil => cases hlast
      | cons a rest => rfl
  obtain ⟨hnext₂, hprev₂, hhead₂, htail₂⟩ := hnext₂
  refine ⟨(nodup_cons.mp (List.nodup_middle.mp hnodup)).2, hhead₂, htail₂, ?_, ?_⟩
  · funext j
    change update ((links.unlinkPrev i).unlinkNext i).next i none j = _
    by_cases hj : j = i
    · rw [hj, update_self, behind_of_notMem hi]
    · rw [update_of_ne hj, hnext₂, behind_removed hnodup hj]
  · funext j
    change update ((links.unlinkPrev i).unlinkNext i).prev i none j = _
    by_cases hj : j = i
    · rw [hj, update_self, behind_of_notMem (mt mem_reverse.mp hi)]
    · have hremoved := behind_removed (hreverse ▸ List.nodup_reverse.mpr hnodup) hj
      rw [List.getLast?_reverse, List.head?_reverse, ← List.reverse_append] at hremoved
      rw [update_of_ne hj, hprev₂, hprev₁, hremoved, hlinks.prev, hreverse]

theorem unlink (hlinks : Represents links list) (i : ι) :
    Represents (links.unlink i) (list.erase i) := by
  by_cases hi : i ∈ list
  · obtain ⟨front, back, rfl⟩ := List.append_of_mem hi
    have hfront : i ∉ front := fun hmem =>
      (nodup_cons.mp (List.nodup_middle.mp hlinks.nodup)).1 (List.mem_append_left _ hmem)
    rw [List.erase_append_right _ hfront, List.erase_cons_head]
    exact hlinks.unlink_of_mem
  · rw [List.erase_of_not_mem hi]
    exact hlinks.unlink_of_notMem hi

theorem relink (hlinks : Represents links [i]) : Represents ((links.push i).unlink i) [i] := by
  have hnone : behind [i] = fun _ => none := by
    funext j
    rw [behind, behind]
    split <;> rfl
  have hhead : links.head = some i := hlinks.head
  have htail : links.tail = some i := hlinks.tail
  have hpush :
      links.push i = ⟨some i, some i, update (fun _ => none) i (some i), fun _ => none⟩ := by
    have hprev := hlinks.prev
    rw [List.reverse_singleton, hnone] at hprev
    rw [Links.push, hhead, htail, hlinks.next, hprev, hnone]
    simp
  have hunlink : (links.push i).unlink i = ⟨some i, some i, fun _ => none, fun _ => none⟩ := by
    simp [hpush, Links.unlink, Links.unlinkPrev, Links.unlinkNext, Links.clear]
  rw [hunlink]
  exact ⟨List.nodup_singleton i, rfl, rfl, hnone.symm, by rw [List.reverse_singleton, hnone]⟩

end Represents

section Restricted

variable {links : Links ι} {list front back : List ι} {i : ι}

def Links.restrict (links : Links ι) (list : List ι) : Links ι where
  head := links.head
  tail := list.getLast?
  next j := if j ∈ list then links.next j else none
  prev j := if j ∈ list then links.prev j else none

/-- The links are those of `list` on its members. -/
def Members (links : Links ι) (list : List ι) : Prop := Represents (links.restrict list) list

def Links.bypass (links : Links ι) (i : ι) : Links ι where
  head := if links.prev i = none then links.next i else links.head
  tail := links.tail
  next := match links.prev i with
    | some p => update links.next p (links.next i)
    | none => links.next
  prev := match links.next i with
    | some n => update links.prev n (links.prev i)
    | none => links.prev

theorem Links.unlink_eq (hhead : links.prev i = none → links.head = some i)
    (hne : links.next i ≠ some i) :
    (links.unlink i).head = (links.bypass i).head ∧
      ∀ j ≠ i, (links.unlink i).next j = (links.bypass i).next j ∧
        (links.unlink i).prev j = (links.bypass i).prev j := by
  have hprev : (links.unlinkPrev i).prev i = links.prev i ∧ (links.unlinkPrev i).next = links.next ∧
      (links.unlinkPrev i).head = links.head ∧
        (links.unlinkPrev i).prev = (links.bypass i).prev := by
    rw [Links.unlinkPrev, Links.bypass]
    cases hnext : links.next i with
    | none => dsimp only; split <;> exact ⟨rfl, rfl, rfl, rfl⟩
    | some n => exact ⟨update_of_ne (fun h => hne (hnext.trans (congrArg some h.symm))) ..,
        rfl, rfl, rfl⟩
  obtain ⟨hprev, hnext₁, hhead₁, hprev₁⟩ := hprev
  rw [Links.unlink, Links.unlinkNext, hprev, hnext₁, hhead₁]
  cases hp : links.prev i with
  | none =>
    rw [if_pos (hhead hp)]
    refine ⟨by rw [Links.bypass, hp]; rfl, fun j hj => ⟨?_, ?_⟩⟩
    · rw [Links.bypass, hp]
      exact update_of_ne hj ..
    · exact (update_of_ne hj ..).trans (congrFun hprev₁ j)
  | some p =>
    refine ⟨by rw [Links.bypass, hp]; simp [Links.clear], fun j hj => ⟨?_, ?_⟩⟩
    · rw [Links.bypass, hp]
      exact update_of_ne hj ..
    · exact (update_of_ne hj ..).trans (congrFun hprev₁ j)

namespace Members

theorem of_represents {links' : Links ι} (hlinks : Represents links' list)
    (hhead : links.head = links'.head) (hnext : ∀ j ∈ list, links.next j = links'.next j)
    (hprev : ∀ j ∈ list, links.prev j = links'.prev j) :
    Members links list := by
  refine ⟨hlinks.nodup, hhead.trans hlinks.head, rfl, ?_, ?_⟩
  · funext j
    by_cases hj : j ∈ list
    · exact (if_pos hj).trans ((hnext j hj).trans (congrFun hlinks.next j))
    · exact (if_neg hj).trans (behind_of_notMem hj).symm
  · funext j
    by_cases hj : j ∈ list
    · exact (if_pos hj).trans ((hprev j hj).trans (congrFun hlinks.prev j))
    · exact (if_neg hj).trans (behind_of_notMem (mt mem_reverse.mp hj)).symm

theorem empty {links : Links ι} (hhead : links.head = none) : Members links [] :=
  of_represents Represents.empty hhead nofun nofun

section Members

variable (hmembers : Members links list)

include hmembers

theorem congr {links' : Links ι} (hhead : links'.head = links.head)
    (hnext : ∀ j ∈ list, links'.next j = links.next j)
    (hprev : ∀ j ∈ list, links'.prev j = links.prev j) :
    Members links' list :=
  of_represents hmembers hhead (fun j hj => (hnext j hj).trans (if_pos hj).symm) fun j hj =>
    (hprev j hj).trans (if_pos hj).symm

theorem next_eq (hi : i ∈ list) : links.next i = behind list i := by
  rw [← hmembers.next]
  exact (if_pos hi).symm

theorem prev_eq (hi : i ∈ list) : links.prev i = behind list.reverse i := by
  rw [← hmembers.prev]
  exact (if_pos hi).symm

theorem prev_eq_none_iff (hi : i ∈ list) :
    links.prev i = none ↔ links.head = some i := by
  rw [hmembers.prev_eq hi,
    behind_eq_none_iff (List.nodup_reverse.mpr hmembers.nodup) (mem_reverse.mpr hi),
    List.getLast?_reverse, ← hmembers.head]
  rfl

theorem push (hi : i ∉ list) : Members (links.push i) (i :: list) := by
  refine of_represents (Represents.push hmembers hi) rfl (fun j hj => ?_) fun j hj => ?_
  · rw [Links.push, Links.push]
    by_cases hji : j = i
    · simp [hji, Links.restrict]
    · have hlist : j ∈ list := (mem_cons.mp hj).resolve_left hji
      simp [hji, Links.restrict, hlist]
  · rw [Links.push, Links.push]
    by_cases hji : j = i
    · simp [hji]
    · have hlist : j ∈ list := (mem_cons.mp hj).resolve_left hji
      cases hhead : links.head with
      | none => simp [hji, Links.restrict, hhead, hlist]
      | some h =>
        by_cases hjh : j = h
        · subst hjh
          simp [hji, Links.restrict, hhead]
        · simp [hji, Links.restrict, hhead, hlist, hjh]

theorem next_ne (hi : i ∈ list) : links.next i ≠ some i := by
  intro hself
  obtain ⟨front, back, rfl⟩ := List.append_of_mem hi
  obtain ⟨hnot, -⟩ := nodup_cons.mp (List.nodup_middle.mp hmembers.nodup)
  rw [hmembers.next_eq hi,
    behind_append_of_notMem (fun h => hnot (List.mem_append_left _ h)), behind,
    if_pos rfl] at hself
  exact hnot (List.mem_append_right _ (mem_of_head? hself))

theorem bypass_next_of_notMem (hi : i ∈ list) {j : ι} (hj : j ∉ list) :
    (links.bypass i).next j = links.next j := by
  rw [Links.bypass]
  cases hprev : links.prev i with
  | none => rfl
  | some p =>
    rw [hmembers.prev_eq hi] at hprev
    have hp : p ∈ list := mem_reverse.mp (mem_of_behind hprev)
    exact update_of_ne (ne_of_mem_of_not_mem hp hj).symm ..

theorem bypass (hi : i ∈ list) : Members (links.bypass i) (list.erase i) := by
  have hnext : (links.restrict list).next i = links.next i := if_pos hi
  have hprev : (links.restrict list).prev i = links.prev i := if_pos hi
  have hhead : (links.restrict list).prev i = none → (links.restrict list).head = some i := fun h =>
    (hmembers.prev_eq_none_iff hi).mp (hprev.symm.trans h)
  obtain ⟨hhead', hlinks⟩ := Links.unlink_eq hhead fun h => hmembers.next_ne hi (hnext.symm.trans h)
  refine of_represents (Represents.unlink hmembers i) ?_ (fun j hj => ?_) fun j hj => ?_
  · rw [hhead', Links.bypass, Links.bypass, hnext, hprev]
    rfl
  · obtain ⟨hji, hlist⟩ := (hmembers.nodup.mem_erase_iff).mp hj
    rw [(hlinks j hji).1, Links.bypass, Links.bypass, hnext, hprev]
    cases links.prev i with
    | none => exact (if_pos hlist).symm
    | some p =>
      by_cases hjp : j = p
      · simp [hjp]
      · simp [hjp, Links.restrict, hlist]
  · obtain ⟨hji, hlist⟩ := (hmembers.nodup.mem_erase_iff).mp hj
    rw [(hlinks j hji).2, Links.bypass, Links.bypass, hnext, hprev]
    cases links.next i with
    | none => exact (if_pos hlist).symm
    | some n =>
      by_cases hjn : j = n
      · simp [hjn]
      · simp [hjn, Links.restrict, hlist]

end Members

end Members

end Restricted

end Inn.Foundation.Linked
