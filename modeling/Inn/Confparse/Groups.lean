import Inn.Confparse.Parser
import Inn.Foundation.Trees

/-!
# Going through the groups

The groups of a file are linked by first child, next sibling and parent as they are parsed, and are
numbered in the order of the file. `config_find_group` finds the next group of a type from these
links.
-/

namespace Inn.Confparse

open Foundation.Trees

structure Groups where
  types : List Octets
  links : Links Nat

namespace Groups

def root (type : Octets) : Groups := ⟨[type], ⟨fun _ => none, fun _ => none, fun _ => none⟩⟩

def add (s : Groups) (parent : Nat) (type : Octets) : Groups :=
  ⟨s.types ++ [type], s.links.attach s.types.length parent s.types.length⟩

mutual

def parsed (s : Groups) (parent : Nat) : ConfigGroup → Groups
  | ⟨type, _, _, _, _, _, child⟩ => parsedAll (s.add parent type) s.types.length child

def parsedAll (s : Groups) (parent : Nat) : List ConfigGroup → Groups
  | [] => s
  | group :: rest => parsedAll (s.parsed parent group) parent rest

end

def ofTree (group : ConfigGroup) : Groups := (root group.type).parsedAll 0 group.child

variable (s : Groups)

def behind (type : Octets) (find : Nat → Option (Option Nat)) :
    Nat → Option Nat → Option Nat → Option (Option Nat)
  | 0, _, _ => none
  | _ + 1, none, _ => some none
  | bound + 1, some group, none =>
      behind type find bound (s.links.parent group) ((s.links.parent group).bind s.links.next)
  | bound + 1, some group, some sib =>
    if s.types[sib]? = some type then some (some sib)
    else
      match s.links.child sib with
      | some child => if s.types[child]? = some type then some (some child) else find child
      | none => behind type find bound (some group) (s.links.next sib)

def findFrom (type : Octets) : Nat → Nat → Option (Option Nat)
  | 0, _ => none
  | bound + 1, group =>
    match s.links.child group with
    | some child => if s.types[child]? = some type then some (some child)
        else findFrom type bound child
    | none => s.behind type (findFrom type bound) (2 * s.types.length + 1) (some group)
        (s.links.next group)

def configFindGroup (group : Nat) (type : Octets) : Option (Option Nat) :=
    s.findFrom type s.types.length group

def configNextGroup (group : Nat) : Option (Option Nat) :=
    s.configFindGroup group (s.types.getD group [])

def rest : Nat → Option Nat → Option (List Nat)
  | _, none => some []
  | 0, some _ => none
  | bound + 1, some group => do
      let next ← s.configNextGroup group
      (rest bound next).map (group :: ·)

def visits (group : Nat) (type : Octets) : Option (List Nat) := do
  s.rest s.types.length (← s.configFindGroup group type)

end Groups

mutual

def ConfigGroup.types : ConfigGroup → List Octets
  | ⟨type, _, _, _, _, _, child⟩ => type :: typesAll child

def typesAll : List ConfigGroup → List Octets
  | [] => []
  | group :: rest => group.types ++ typesAll rest

end

namespace Groups

section Building

/-- The groups are a forest, and a parent is older than its children. -/
structure Linked (s : Groups) : Prop where
  forest : Forest s.links (some 0) none (List.range s.types.length)
  parent_lt : ∀ a b, s.links.parent a = some b → b < a

theorem root_linked (type : Octets) : (root type).Linked where
  forest := @Forest.cons _ _ _ 0 [] [] rfl .nil .nil
  parent_lt _ _ h := nomatch h

def Open (s : Groups) (group : Nat) : Prop := group < s.types.length ∧ Up s.links (some group) []

variable {s : Groups} {parent : Nat}

/-- A piece of a file adds its groups behind the others. -/
structure Extends (s s' : Groups) (parent : Nat) (types : List Octets) : Prop where
  linked : s'.Linked
  still_open : s'.Open parent
  types_eq : s'.types = s.types ++ types
  parent_eq : ∀ b < s.types.length, s'.links.parent b = s.links.parent b

theorem add_extends (hlinked : s.Linked) (hopen : s.Open parent) (type : Octets) :
    Extends s (s.add parent type) parent [type] ∧ (s.add parent type).Open s.types.length ∧
      (s.add parent type).links.parent s.types.length = some parent := by
  have hattached :=
    hlinked.forest.attach List.nodup_range List.not_mem_range_self
    (List.mem_range.mpr hopen.1) hopen.2
    (Nat.le_of_eq List.length_range)
  have hparents : (s.add parent type).links.parent =
      Function.update s.links.parent s.types.length (some parent) :=
    s.links.attach_parent s.types.length parent s.types.length
  have hlength : (s.add parent type).types.length = s.types.length + 1 := List.length_append
  have hup : Up (s.add parent type).links (some parent) [] := hattached.up .none
  have hnew : (s.add parent type).links.parent s.types.length = some parent := by
    rw [hparents, Function.update_self]
  refine ⟨⟨⟨?_, ?_⟩, ⟨hlength ▸ Nat.lt_succ_of_lt hopen.1, hup⟩, rfl, ?_⟩,
    ⟨hlength ▸ Nat.lt_succ_self _, ?_⟩, hnew⟩
  · rw [hlength, List.range_succ]
    exact hattached.forest
  · intro a b hab
    rw [hparents] at hab
    by_cases ha : a = s.types.length
    · subst ha
      rw [Function.update_self] at hab
      cases hab
      exact hopen.1
    · rw [Function.update_of_ne ha] at hab
      exact hlinked.parent_lt a b hab
  · intro b hb
    rw [hparents, Function.update_of_ne (Nat.ne_of_lt hb)]
  · refine @Up.some _ _ s.types.length [] [] ?_ (by rw [hnew]; exact hup)
    rw [show (s.add parent type).links.next s.types.length = none from hattached.last]
    exact .nil

mutual

theorem parsed_extends : ∀ (group : ConfigGroup) {s : Groups} {parent : Nat}, s.Linked →
    s.Open parent →
    Extends s (s.parsed parent group) parent group.types
  | ⟨type, _, _, _, _, _, child⟩, s, parent, hlinked, hopen => by
      obtain ⟨hadd, hhere, hnew⟩ := add_extends hlinked hopen type
      have hall := parsedAll_extends child hadd.linked hhere
      have hlength : (s.add parent type).types.length = s.types.length + 1 := List.length_append
      rw [parsed, ConfigGroup.types]
      refine ⟨hall.linked, ⟨?_, ?_⟩, ?_, fun b hb => ?_⟩
      · exact Nat.lt_trans hopen.1 hall.still_open.1
      · have hup := up_parent_of_up hall.still_open.2
        rwa [hall.parent_eq _ hhere.1, hnew] at hup
      · rw [hall.types_eq, hadd.types_eq, List.append_assoc, List.singleton_append]
      · rw [hall.parent_eq b (by omega), hadd.parent_eq b hb]

theorem parsedAll_extends : ∀ (groups : List ConfigGroup) {s : Groups} {parent : Nat}, s.Linked →
    s.Open parent →
    Extends s (s.parsedAll parent groups) parent (typesAll groups)
  | [], s, parent, hlinked, hopen => by
      rw [parsedAll, typesAll]
      exact ⟨hlinked, hopen, (List.append_nil _).symm, fun _ _ => rfl⟩
  | group :: rest, s, parent, hlinked, hopen => by
      have hfirst := parsed_extends group hlinked hopen
      have hrest := parsedAll_extends rest hfirst.linked hfirst.still_open
      rw [parsedAll, typesAll]
      refine ⟨hrest.linked, hrest.still_open, ?_, fun b hb => ?_⟩
      · rw [hrest.types_eq, hfirst.types_eq, List.append_assoc]
      · have hlength : s.types.length ≤ (s.parsed parent group).types.length := by
          rw [hfirst.types_eq, List.length_append]
          exact Nat.le_add_right _ _
        rw [hrest.parent_eq b (Nat.lt_of_lt_of_le hb hlength), hfirst.parent_eq b hb]

end

theorem ofTree_linked (group : ConfigGroup) :
    (ofTree group).Linked ∧ (ofTree group).types = group.types := by
  have hopen : (root group.type).Open 0 := ⟨Nat.zero_lt_one, @Up.some _ _ 0 [] [] .nil .none⟩
  have hall := parsedAll_extends group.child (root_linked group.type) hopen
  refine ⟨hall.linked, hall.types_eq.trans ?_⟩
  cases group
  rw [ConfigGroup.types]
  rfl

end Building

section Search

variable {s : Groups} {type : Octets} {find : Nat → Option (Option Nat)}

def hasType (s : Groups) (type : Octets) (group : Nat) : Bool := s.types[group]? = some type

theorem behind_spec (hlinked : s.Linked) {bound group : Nat} {sib : Option Nat}
    {later up : List Nat} (hlater : Forest s.links sib (s.links.parent group) later)
    (hup : Up s.links (s.links.parent group) up)
    (hbound : later.length + up.length + group + 1 < bound)
    (hfind : ∀ c l, After s.links c l → (∃ front, front ++ c :: l = later ++ up) →
      find c = some (l.find? (s.hasType type))) :
    s.behind type find bound (some group) sib = some ((later ++ up).find? (s.hasType type)) := by
  induction bound generalizing group sib later up with
  | zero => exact absurd hbound (Nat.not_lt_zero _)
  | succ bound ih =>
    cases sib with
    | none =>
      obtain rfl := hlater.of_none
      rw [List.length_nil, Nat.zero_add] at hbound
      rw [behind, List.nil_append]
      cases hparent : s.links.parent group with
      | none =>
        rw [hparent] at hup
        cases hup
        obtain ⟨bound, rfl⟩ : ∃ n, bound = n + 1 := ⟨bound - 1, by omega⟩
        rfl
      | some parent =>
        rw [hparent] at hup
        have hlt := hlinked.parent_lt group parent hparent
        cases hup with
        | @some _ later up hlater hup =>
          rw [List.length_append] at hbound
          exact ih hlater hup (by omega) hfind
    | some sib =>
      obtain ⟨below, later, hparent, hbelow, hlater', rfl⟩ := hlater.of_some
      rw [List.length_cons, List.length_append] at hbound
      rw [behind, List.cons_append, List.find?_cons]
      split
      next hhere => rw [show s.hasType type sib = true from decide_eq_true hhere]
      next hhere =>
        rw [show s.hasType type sib = false from decide_eq_false hhere]
        have hafter : After s.links sib (below ++ later ++ up) :=
          ⟨below, later ++ up, hbelow, .some (hparent ▸ hlater') (hparent ▸ hup),
            List.append_assoc ..⟩
        split
        next child hchild =>
          obtain ⟨l, hl, hafter⟩ := hafter.of_child hchild
          rw [hl, List.find?_cons]
          split
          next hhere => rw [show s.hasType type child = true from decide_eq_true hhere]
          next hhere =>
            rw [show s.hasType type child = false from decide_eq_false hhere]
            exact hfind child l hafter ⟨[sib], congrArg (List.cons sib) hl.symm⟩
        next hchild =>
          rw [hchild] at hbelow
          obtain rfl := hbelow.of_none
          rw [List.length_nil, Nat.zero_add] at hbound
          refine @ih group _ later up hlater' hup (by omega) fun c l hc hl => hfind c l hc ?_
          obtain ⟨front, hfront⟩ := hl
          exact ⟨sib :: front, congrArg (List.cons sib) hfront⟩

theorem findFrom_spec (hlinked : s.Linked) {bound group : Nat} {l : List Nat}
    (hafter : After s.links group l)
    (hgroup : group < s.types.length) (hl : ∀ a ∈ l, a < s.types.length)
    (hlength : l.length < s.types.length) (hbound : l.length < bound) :
    s.findFrom type bound group = some (l.find? (s.hasType type)) := by
  induction bound generalizing group l with
  | zero => exact absurd hbound (Nat.not_lt_zero _)
  | succ bound ih =>
    rw [findFrom]
    split
    next child hchild =>
      obtain ⟨l, rfl, hbelow⟩ := hafter.of_child hchild
      rw [List.length_cons] at hlength hbound
      obtain ⟨hchildlt, hl⟩ := List.forall_mem_cons.mp hl
      rw [List.find?_cons]
      split
      next hhere => rw [show s.hasType type child = true from decide_eq_true hhere]
      next hhere =>
        rw [show s.hasType type child = false from decide_eq_false hhere]
        exact ih hbelow hchildlt hl (by omega) (by omega)
    next hchild =>
      have hup := hafter.of_leaf hchild
      cases hup with
      | @some _ later up hlater hup =>
        refine behind_spec hlinked hlater hup (by rw [List.length_append] at hlength; omega)
          fun c l' hc hfront => ?_
        obtain ⟨front, hfront⟩ := hfront
        rw [← hfront] at hl hlength hbound
        rw [List.length_append, List.length_cons] at hlength hbound
        exact ih hc (hl c (List.mem_append_right _ List.mem_cons_self))
          (fun a ha => hl a (List.mem_append_right _ (List.mem_cons_of_mem _ ha)))
            (by omega) (by omega)

theorem after_drop (hlinked : s.Linked) {group : Nat} (hgroup : group < s.types.length) :
    After s.links group ((List.range s.types.length).drop (group + 1)) := by
  obtain ⟨l, hl, hafter⟩ := hlinked.forest.after
  have hdrop : l = (List.range s.types.length).drop 1 := by rw [hl, List.drop_one, List.tail_cons]
  cases group with
  | zero => exact hdrop ▸ hafter
  | succ group =>
    have hhere :=
      List.drop_eq_getElem_cons (show group + 1 <
        (List.range s.types.length).length by rwa [List.length_range])
    rw [List.getElem_range] at hhere
    have hsplit :
        l = l.take group ++ (group + 1) :: (List.range s.types.length).drop (group + 1 + 1) := by
      rw [← hhere, Nat.add_comm, ← List.drop_drop, ← hdrop, List.take_append_drop]
    rw [hsplit] at hafter
    exact hafter.behind

theorem rest_spec (hlinked : s.Linked) {bound group : Nat} {l : List Nat}
    (hafter : After s.links group l)
    (hl : ∀ a ∈ l, a < s.types.length) (hlength : l.length ≤ s.types.length)
    (hbound : l.length ≤ bound) :
    s.rest bound (l.find? (s.hasType type)) = some (l.filter (s.hasType type)) := by
  induction bound generalizing group l with
  | zero =>
    rw [List.eq_nil_of_length_eq_zero (Nat.le_zero.mp hbound)]
    rfl
  | succ bound ih =>
    cases hfound : l.find? (s.hasType type) with
    | none =>
      rw [List.filter_eq_nil_iff.mpr (List.find?_eq_none.mp hfound)]
      rfl
    | some a =>
      obtain ⟨htype, front, l', rfl, hfront⟩ := List.find?_eq_some_iff_append.mp hfound
      have hnext := hafter.behind
      rw [List.length_append, List.length_cons] at hlength hbound
      have hl' : ∀ b ∈ l', b < s.types.length :=
        fun b hb => hl b (List.mem_append_right _ (List.mem_cons_of_mem _ hb))
      have hgroup := hl a (List.mem_append_right _ List.mem_cons_self)
      have hsame : s.types.getD a [] = type := by
        rw [List.getD_eq_getElem?_getD, of_decide_eq_true htype, Option.getD_some]
      have hfront' : front.filter (s.hasType type) = [] :=
        List.filter_eq_nil_iff.mpr fun b hb => by simpa using hfront b hb
      rw [rest, configNextGroup, hsame, configFindGroup,
        findFrom_spec hlinked hnext hgroup hl' (by omega) (by omega), List.filter_append, hfront',
        List.filter_cons_of_pos htype]
      simp only [bind, Option.bind, ih hnext hl' (by omega) (by omega), Option.map_some,
        List.nil_append]

theorem visits_spec (hlinked : s.Linked) {group : Nat} (hgroup : group < s.types.length)
    (type : Octets) :
    s.visits group type =
      some (((List.range s.types.length).drop (group + 1)).filter (s.hasType type)) := by
  have hafter := after_drop hlinked hgroup
  have hl : ∀ a ∈ (List.range s.types.length).drop (group + 1), a < s.types.length := fun a ha =>
    List.mem_range.mp (List.mem_of_mem_drop ha)
  have hlength : ((List.range s.types.length).drop (group + 1)).length < s.types.length := by
    rw [List.length_drop, List.length_range]
    omega
  rw [visits, configFindGroup, findFrom_spec hlinked hafter hgroup hl hlength hlength]
  exact rest_spec hlinked hafter hl (Nat.le_of_lt hlength) (Nat.le_of_lt hlength)

/-- The groups of a file are numbered in its order, and from any of them the later ones of a type
are found, each once. From the root these are all the groups of the type below it. -/
theorem visits_ofTree (root : ConfigGroup) :
    (ofTree root).types = root.types ∧ ∀ group < root.types.length, ∀ type,
      (ofTree root).visits group type =
        some (((List.range root.types.length).drop (group + 1)).filter fun i => root.types[i]? =
          some type) := by
  obtain ⟨hlinked, htypes⟩ := ofTree_linked root
  refine ⟨htypes, fun group hgroup type => ?_⟩
  rw [visits_spec hlinked (htypes ▸ hgroup) type, htypes]
  congr 2
  funext i
  rw [hasType, htypes]

def nested : ConfigGroup :=
  { groupNew (octets "f") 1 (octets "GLOBAL") none with
    child := [{ groupNew (octets "f") 2 (octets "a") none
      with child := [groupNew (octets "f") 3 (octets "b") none] },
      groupNew (octets "f") 5 (octets "b") none] }

theorem visits_nested : (ofTree nested).visits 0 (octets "b") = some [2, 3] :=
  ((visits_ofTree nested).2 0 (by decide) (octets "b")).trans (by decide)

/-- The search does not come back to the group that it starts at, and so the root itself is not
found. -/
theorem not_visits_root : ¬∀ (root : ConfigGroup) (type : Octets), (ofTree root).visits 0 type =
    some ((List.range root.types.length).filter fun i => root.types[i]? = some type) := by
  intro hall
  have := hall (groupNew (octets "f") 1 (octets "GLOBAL") none) (octets "GLOBAL")
  revert this
  decide

end Search

end Groups

end Inn.Confparse
