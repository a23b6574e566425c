import Inn.Foundation.Runs

/-!
# Outcomes of steps that can fail

What is known of a step is a condition on what it gives and one on how it fails.
With no way of failing left the step is total, and with every way allowed only
what it gives is known.
-/

namespace Inn.Foundation.Outcomes

variable {ε α β ι : Type} {faults : ε → Prop}

def Yields (faults : ε → Prop) (post : α → Prop) : Except ε α → Prop
  | .ok a => post a
  | .error e => faults e

theorem Yields.mono {post post' : α → Prop} {x : Except ε α} (hx : Yields faults post x)
    (himp : ∀ a, post a → post' a) : Yields faults post' x := by
  cases x with
  | ok a => exact himp a hx
  | error e => exact hx

theorem Yields.allow {post : α → Prop} {x : Except ε α} (hx : Yields (fun _ => False) post x) :
    Yields faults post x := by
  cases x with
  | ok a => exact hx
  | error e => exact hx.elim

theorem yields_self (x : Except ε α) : Yields (fun _ => True) (fun a => x = .ok a) x := by
  cases x with
  | ok a => rfl
  | error e => trivial

theorem Yields.bind {post : α → Prop} {post' : β → Prop} {x : Except ε α} {f : α → Except ε β}
    (hx : Yields faults post x) (hf : ∀ a, post a → Yields faults post' (f a)) :
    Yields faults post' (x >>= f) := by
  cases x with
  | ok a => exact hf a hx
  | error e => exact hx

theorem Yields.map {post : β → Prop} {x : Except ε α} {f : α → β}
    (hx : Yields faults (fun a => post (f a)) x) :
    Yields faults post (f <$> x) := by
  cases x with
  | ok a => exact hx
  | error e => exact hx

theorem yields_foldlM (inv : α → Prop) {f : α → ι → Except ε α} {items : List ι}
    (hf : ∀ a, inv a → ∀ i ∈ items, Yields faults inv (f a i)) {a : α} (ha : inv a) :
    Yields faults inv (items.foldlM f a) := by
  induction items generalizing a with
  | nil => exact ha
  | cons i items ih =>
    rw [List.foldlM_cons]
    exact (hf a ha i List.mem_cons_self).bind
      fun a ha => ih (fun a ha j hj => hf a ha j (List.mem_cons_of_mem i hj)) ha

theorem Yields.of_ok {post : α → Prop} {x : Except ε α} {a : α} (hx : Yields faults post x)
    (ha : x = .ok a) : post a := by
  rw [ha] at hx
  exact hx

theorem Yields.total {post : α → Prop} {x : Except ε α} (hx : Yields (fun _ => False) post x) :
    ∃ a, x = .ok a ∧ post a := by
  cases x with
  | ok a => exact ⟨a, rfl, hx⟩
  | error e => exact hx.elim

theorem yields_iff {post : α → Prop} {x : Except ε α} :
    Yields (fun _ => True) post x ↔ ∀ a, x = .ok a → post a := by
  cases x with
  | ok a => exact ⟨fun h b hb => Except.ok.inj hb ▸ h, fun h => h a rfl⟩
  | error e => exact ⟨fun _ b hb => (by cases hb), fun _ => trivial⟩

end Inn.Foundation.Outcomes
