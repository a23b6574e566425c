import Mathlib

/-!
# Chains that are linked in both directions

Each place of a chain is linked to the one behind it and the one in front of it. The ends of a chain
are places like the others, so that an element between them has one on either side.
-/

namespace Inn.Foundation.Ended

variable {ι : Type*}

/-- A list between a head and a tail that are no members. -/
structure Links (ι : Type*) where
  succ : ι → Option ι
  pred : ι → Option ι

def Links.Joined (links : Links ι) (a b : ι) : Prop := links.succ a = some b ∧ links.pred b = some a

/-- The links join each place to the next, both ways. -/
structure Chain (links : Links ι) (places : List ι) : Prop where
  nodup : places.Nodup
  joined : places.IsChain links.Joined

variable {links : Links ι} {front back places : List ι} {a b i : ι}

namespace Chain

theorem middle (hchain : Chain links (front ++ a :: b :: back)) : links.Joined a b :=
  (List.isChain_append_cons_cons.mp hchain.joined).2.1

theorem congr {links' : Links ι} (hchain : Chain links places)
    (hsucc : ∀ a ∈ places, links'.succ a = links.succ a)
    (hpred : ∀ a ∈ places, links'.pred a = links.pred a) : Chain links' places where
  nodup := hchain.nodup
  joined :=
    hchain.joined.imp_of_mem_imp fun a b ha hb h => ⟨(hsucc a ha).trans h.1, (hpred b hb).trans h.2⟩

end Chain

variable [DecidableEq ι]

def Links.join (links : Links ι) (a b : ι) : Links ι where
  succ := Function.update links.succ a (some b)
  pred := Function.update links.pred b (some a)

namespace Chain

theorem join (hnodup : (front ++ a :: b :: back).Nodup)
    (hfront : (front ++ [a]).IsChain links.Joined)
    (hback : (b :: back).IsChain links.Joined) :
    Chain (links.join a b) (front ++ a :: b :: back) := by
  have hsame {x y : ι} (hx : x ≠ a) (hy : y ≠ b) (h : links.Joined x y) :
      (links.join a b).Joined x y :=
    ⟨(Function.update_of_ne hx ..).trans h.1, (Function.update_of_ne hy ..).trans h.2⟩
  rw [List.nodup_append] at hnodup
  obtain ⟨-, hrest, hapart⟩ := id hnodup
  obtain ⟨ha, hb, -⟩ : a ∉ b :: back ∧ b ∉ back ∧ back.Nodup := by simpa using hrest
  refine ⟨List.nodup_append.mpr hnodup, List.isChain_append_cons_cons.mpr ⟨?_, ⟨?_, ?_⟩, ?_⟩⟩
  · refine List.isChain_iff_forall_rel_of_append_cons_cons.mpr fun x y before after hsplit => ?_
    have hx : x ∈ front := by
      rw [← @List.dropLast_concat ι front a, hsplit, List.dropLast_append_cons]
      simp
    have hy : y ∈ front ++ [a] := by rw [hsplit]; simp
    refine hsame (hapart x hx a List.mem_cons_self) ?_
      (List.isChain_iff_forall_rel_of_append_cons_cons.mp hfront hsplit)
    rintro rfl
    rcases List.mem_append.mp hy with hy | hy
    · exact hapart y hy y (by simp) rfl
    · exact ha (List.mem_singleton.mp hy ▸ List.mem_cons_self)
  · exact Function.update_self ..
  · exact Function.update_self ..
  · exact hback.imp_of_mem_tail_imp fun x y hx hy =>
      hsame (ne_of_mem_of_not_mem hx ha) (ne_of_mem_of_not_mem hy hb)

theorem join_apart (hchain : Chain links places) (ha : a ∉ places) (hb : b ∉ places) :
    Chain (links.join a b) places :=
  hchain.congr (fun _ hx => Function.update_of_ne (ne_of_mem_of_not_mem hx ha) ..) fun _ hx =>
    Function.update_of_ne (ne_of_mem_of_not_mem hx hb) ..

theorem insert (hchain : Chain links (front ++ a :: b :: back)) (hi : i ∉ front ++ a :: b :: back) :
    Chain ((links.join a i).join i b) (front ++ a :: i :: b :: back) := by
  have hnodup : (front ++ a :: i :: b :: back).Nodup := by
    have hmiddle : (front ++ [a] ++ i :: b :: back).Nodup :=
      List.nodup_middle.mpr (List.nodup_cons.mpr ⟨by simpa using hi, by simpa using hchain.nodup⟩)
    simpa using hmiddle
  obtain ⟨hfront, -, hback⟩ := List.isChain_append_cons_cons.mp hchain.joined
  have hsplit : front ++ a :: i :: b :: back = (front ++ [a]) ++ i :: b :: back := by simp
  have hbefore : (front ++ a :: [i]).Nodup := hnodup.sublist (by simp)
  have hafter : Chain links (b :: back) := ⟨(List.nodup_append.mp hchain.nodup).2.1.of_cons, hback⟩
  have ha : a ∉ b :: back := (List.nodup_cons.mp (List.nodup_append.mp hchain.nodup).2.1).1
  have hi' : i ∉ b :: back := fun h => hi (List.mem_append_right _ (List.mem_cons_of_mem _ h))
  rw [hsplit]
  refine join (hsplit ▸ hnodup) ?_ (hafter.join_apart ha hi').joined
  rw [List.append_assoc]
  exact (join hbefore hfront (List.isChain_singleton i)).joined

theorem remove (hchain : Chain links (front ++ a :: i :: b :: back)) :
    Chain (links.join a b) (front ++ a :: b :: back) := by
  obtain ⟨hfront, -, hrest⟩ := List.isChain_append_cons_cons.mp hchain.joined
  refine join (hchain.nodup.sublist ?_) hfront (List.isChain_cons_cons.mp hrest).2
  exact (List.sublist_cons_self i _).cons_cons a |>.append_left front

end Chain

end Inn.Foundation.Ended
