import Mathlib

/-!
# Rings

A ring keeps its items in slots of a fixed number, from a first one on and
around. Items leave it at the front and come in behind the last one.
-/

namespace Inn.Foundation.Rings

variable {α : Type*} {size : Nat}

def ring (size : Nat) (slots : Nat → α) : Nat → Nat → List α
  | _, 0 => []
  | first, count + 1 => slots (first % size) :: ring size slots (first + 1) count

theorem ring_length (slots : Nat → α) (first count : Nat) :
    (ring size slots first count).length = count := by
  induction count generalizing first with
  | zero => rfl
  | succ count ih => rw [ring, List.length_cons, ih]

theorem ring_mod (slots : Nat → α) (first count : Nat) :
    ring size slots (first % size) count = ring size slots first count := by
  induction count generalizing first with
  | zero => rfl
  | succ count ih => rw [ring, ring, Nat.mod_mod, ← ih, Nat.mod_add_mod, ih]

theorem ring_drop (slots : Nat → α) (first : Nat) {count k : Nat} (hk : k ≤ count) :
    (ring size slots first count).drop k = ring size slots (first + k) (count - k) := by
  induction k generalizing first count with
  | zero => rfl
  | succ k ih =>
    cases count with
    | zero => omega
    | succ count =>
      rw [ring, List.drop_succ_cons, ih _ (Nat.le_of_succ_le_succ hk), Nat.succ_sub_succ,
        Nat.add_assoc,
        Nat.add_comm 1 k]

theorem slot_ne {first k l : Nat} (hlt : k < l) (hsize : l < k + size) :
    (first + k) % size ≠ (first + l) % size := by
  intro heq
  have hmod := Nat.sub_mod_eq_zero_of_mod_eq heq.symm
  rw [Nat.add_sub_add_left, Nat.mod_eq_of_lt (by omega)] at hmod
  omega

theorem ring_update (slots : Nat → α) (first : Nat) {count l : Nat} (item : α) (hl : count ≤ l)
    (hsize : l < size) :
    ring size (Function.update slots ((first + l) % size) item) first count =
      ring size slots first count := by
  induction count generalizing first l with
  | zero => rfl
  | succ count ih =>
    have hfirst : first % size ≠ (first + l) % size := slot_ne (k := 0) (by omega) (by omega)
    have hrest := ih (first + 1) (l := l - 1) (by omega) (by omega)
    rw [show first + 1 + (l - 1) = first + l by omega] at hrest
    rw [ring, ring, Function.update_of_ne hfirst, hrest]

theorem ring_push (slots : Nat → α) (first : Nat) {count : Nat} (item : α) (hsize : count < size) :
    ring size (Function.update slots ((first + count) % size) item) first (count + 1) =
      ring size slots first count ++ [item] := by
  induction count generalizing first with
  | zero => rw [ring, ring, ring, Nat.add_zero, Function.update_self, List.nil_append]
  | succ count ih =>
    have hfirst : first % size ≠ (first + (count + 1)) % size :=
      slot_ne (k := 0) (by omega) (by omega)
    have hrest := ih (first + 1) (by omega)
    rw [show first + 1 + count = first + (count + 1) by omega] at hrest
    rw [ring, hrest, Function.update_of_ne hfirst, ring, List.cons_append]

end Inn.Foundation.Rings
