import Mathlib

/-!
# Reading within bounds

What a pointer can reach is a list, and a position is what is left of it there. A read beyond the
end of the list is an error, and a function is safe where it ends without one.
-/

namespace Inn.Foundation.Bounded

variable {α β : Type}

/-- The run does not read outside. -/
def Safe (run : Except Unit β) : Prop := ∃ found, run = .ok found

theorem safe_ok (found : β) : Safe (.ok found) := ⟨found, rfl⟩

theorem safe_of_eq {run : Except Unit β} {found : β} (h : run = .ok found) : Safe run := ⟨found, h⟩

theorem Safe.bind {run : Except Unit α} {next : α → Except Unit β} (hrun : Safe run)
    (hnext : ∀ found, run = .ok found → Safe (next found)) : Safe (run >>= next) := by
  obtain ⟨found, hfound⟩ := hrun
  rw [hfound]
  exact hnext found hfound

def peek (p : List α) (i : Nat) : Except Unit α :=
  match p[i]? with
  | some c => .ok c
  | none => .error ()

theorem peek_ok {p : List α} {i : Nat} {c : α} (h : p[i]? = some c) :
    peek p i = .ok c := by rw [peek, h]

theorem peek_safe {p : List α} {i : Nat} (h : i < p.length) : Safe (peek p i) :=
  safe_of_eq (peek_ok (List.getElem?_eq_getElem h))

section Searching

variable [DecidableEq α]

def memchr (c : α) : List α → Nat → Except Unit (Option (List α))
  | _, 0 => .ok none
  | [], _ + 1 => .error ()
  | d :: rest, n + 1 => if d = c then .ok (some (d :: rest)) else memchr c rest n

def memcmp (p s : List α) : Except Unit Bool :=
  if s.length ≤ p.length then .ok (p.take s.length = s) else .error ()

inductive Found (c : α) (p : List α) (n : Nat) : Option (List α) → Prop
  | missing : c ∉ p.take n → Found c p n none
  | present (before rest) : p = before ++ c :: rest → c ∉ before → before.length < n →
      Found c p n (some (c :: rest))

theorem memchr_found (c : α) {p : List α} {n : Nat} (hle : n ≤ p.length) :
    ∃ found, memchr c p n = .ok found ∧ Found c p n found := by
  fun_induction memchr c p n with
  | case1 p => exact ⟨none, rfl, .missing (by rw [List.take_zero]; exact List.not_mem_nil)⟩
  | case2 n => exact absurd hle (Nat.not_succ_le_zero n)
  | case3 rest n => exact ⟨_, rfl, .present [] rest rfl List.not_mem_nil (Nat.succ_pos n)⟩
  | case4 d rest n hne ih =>
    obtain ⟨found, hfound, hspec⟩ := ih (Nat.le_of_succ_le_succ hle)
    refine ⟨found, hfound, ?_⟩
    cases hspec with
    | missing hmissing =>
      refine .missing ?_
      rw [List.take_succ_cons]
      exact List.not_mem_cons_of_ne_of_not_mem (Ne.symm hne) hmissing
    | present before after hrest hbefore hlt =>
      refine .present (d :: before) after (by rw [hrest, List.cons_append]) ?_
        (Nat.succ_lt_succ hlt)
      exact List.not_mem_cons_of_ne_of_not_mem (Ne.symm hne) hbefore

end Searching

end Inn.Foundation.Bounded
