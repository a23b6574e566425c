import Mathlib

/-!
# Writing into an allocation

Memory is asked for first and written from its start then. A write beyond the
end is an error, so a run that has been measured right ends without one.
-/

namespace Inn.Foundation.Allocated

variable {α β γ : Type}

/-- Memory of some size, whose first octets are written. -/
structure Allocation (α : Type) where
  size : Nat
  written : List α
  fits : written.length ≤ size

def alloc (size : Nat) : Allocation α := ⟨size, [], Nat.zero_le size⟩

def Allocation.put (s : Allocation α) (c : α) : Except Unit (Allocation α) :=
  if hroom : s.written.length < s.size then .ok ⟨s.size, s.written ++ [c],
    by rw [List.length_append]; exact hroom⟩
  else .error ()

def Allocation.puts (s : Allocation α) (cs : List α) : Except Unit (Allocation α) :=
    cs.foldlM Allocation.put s

def Allocation.and (s : Allocation α) (cs : List α)
    (hroom : s.written.length + cs.length ≤ s.size) : Allocation α :=
  ⟨s.size, s.written ++ cs, List.length_append ▸ hroom⟩

theorem puts_nil (s : Allocation α) : s.puts [] = .ok s := rfl

theorem puts_append (s : Allocation α) (cs ds : List α) :
    s.puts (cs ++ ds) = s.puts cs >>= fun s => s.puts ds :=
  List.foldlM_append

theorem puts_cons (s : Allocation α) (c : α) (cs : List α) :
    s.puts (c :: cs) = s.put c >>= fun s => s.puts cs := rfl

theorem puts_singleton (s : Allocation α) (c : α) : s.puts [c] = s.put c := by
  rw [puts_cons]
  cases s.put c <;> rfl

theorem puts_eq (s : Allocation α) (cs : List α) :
    s.puts cs = if hroom : s.written.length + cs.length ≤ s.size then .ok (s.and cs hroom)
      else .error () := by
  induction cs generalizing s with
  | nil =>
    have hroom : s.written.length + ([] : List α).length ≤ s.size := s.fits
    rw [dif_pos hroom, puts_nil]
    simp only [Allocation.and, List.append_nil]
  | cons c cs ih =>
    rw [puts_cons, Allocation.put]
    by_cases hroom : s.written.length < s.size
    · rw [dif_pos hroom]
      have hlength :
          (s.written ++ [c]).length + cs.length = s.written.length + (c :: cs).length := by
        rw [List.length_append, List.length_cons, List.length_cons, List.length_nil]
        omega
      refine (ih _).trans ?_
      simp only [hlength, Allocation.and, List.append_assoc, List.singleton_append]
    · rw [dif_neg hroom, dif_neg (by rw [List.length_cons]; omega)]
      rfl

theorem puts_room (s : Allocation α) (cs : List α) (hroom : s.written.length + cs.length ≤ s.size) :
    ∃ t : Allocation α, s.puts cs = .ok t ∧ t.written = s.written ++ cs ∧ t.size = s.size :=
  ⟨s.and cs hroom, (puts_eq s cs).trans (dif_pos hroom), rfl, rfl⟩

end Inn.Foundation.Allocated
