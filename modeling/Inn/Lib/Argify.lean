import Inn.Foundation.Words
import Inn.Innd.Channel

/-!
# Splitting a line into words

A line is copied and its words are ended in place, while a vector that was
allocated for the worst case takes their places. With a limit the rest of the
line stays as it is, so that it can be split further where it stands.
-/

namespace Inn.Lib.Argify

open Foundation.Words
open List (length_set cons_append length_cons length_singleton takeWhile_cons_of_neg append_assoc
    append_nil length_append map_cons nil_append)

inductive Slot
  | unset
  | null
  | at (p : Nat)
  deriving DecidableEq

def deref (mem : Octets) (p : Nat) : UInt8 := mem.getD p 0

def skipWhite (mem : Octets) (p : Nat) : Nat := p + ((mem.drop p).takeWhile ISWHITE).length

def wordEnd (mem : Octets) (p : Nat) : Nat :=
    p + ((mem.drop p).takeWhile fun c => c ≠ 0 && !ISWHITE c).length

def store (argv : List Slot) (i : Nat) (slot : Slot) : Except Unit (List Slot) :=
  if i < argv.length then .ok (argv.set i slot) else .error ()

theorem lt_of_deref {mem : Octets} {p : Nat} (h : ¬deref mem p = 0) : p < mem.length := by
  by_contra hlength
  exact h (by rw [deref, List.getD_eq_getElem?_getD,
    List.getElem?_eq_none (Nat.le_of_not_lt hlength)]; rfl)

theorem le_skipWhite (mem : Octets) (p : Nat) : p ≤ skipWhite mem p := Nat.le_add_right _ _

theorem le_wordEnd (mem : Octets) (p : Nat) : p ≤ wordEnd mem p := Nat.le_add_right _ _

def splitFrom (stripspaces : Bool) (mem : Octets) (p : Nat) (n : Int) (argv : List Slot) (i : Nat) :
    Except Unit (Octets × List Slot × Nat) :=
  if _h : deref mem p = 0 then .ok (mem, argv, i)
  else
    match store argv i (.at p) with
    | .error e => .error e
    | .ok argv =>
      if n = 0 then .ok (mem, argv, i + 1)
      else if deref mem (wordEnd mem p) = 0 then .ok (mem, argv, i + 1)
      else
        let mem' := mem.set (wordEnd mem p) 0
        let next := wordEnd mem p + 1
        splitFrom stripspaces mem' (if stripspaces then skipWhite mem' next else next)
          (n - 1) argv (i + 1)
termination_by mem.length - p
decreasing_by
  have hp := lt_of_deref ‹_›
  have hend := le_wordEnd mem p
  have hskip := le_skipWhite (mem.set (wordEnd mem p) 0) (wordEnd mem p + 1)
  rw [length_set]
  split <;> omega

structure Args where
  mem : Octets
  argv : List Slot
  ac : Nat
  deriving DecidableEq

def reArgify (mem : Octets) (p : Nat) (argv : List Slot) (i : Nat) (n : Int) (stripspaces : Bool) :
    Except Unit Args := do
  let p := if stripspaces then skipWhite mem p else p
  let (mem, argv, j) ← splitFrom stripspaces mem p n argv i
  let argv ← store argv j .null
  return ⟨mem, argv, j - i⟩

def nArgify (line : Octets) (n : Int) : Except Unit Args :=
  let p := line.dropWhile ISWHITE
  reArgify (p ++ [0]) 0 (List.replicate (p.length + 2) .unset) 0 n true

def resplit (args : Args) (n : Int) : Except Unit Args := do
  let ac := args.ac - 1
  match args.argv[ac]? with
  | some (.at p) =>
    let more ← reArgify args.mem p args.argv ac n true
    return { more with ac := ac + more.ac }
  | _ => .error ()

section Pointers

def pointers (mem : Octets) (p : Nat) (n : Int) : Octets × List Nat :=
  if _h : deref mem p = 0 then (mem, [])
  else if n = 0 then (mem, [p])
  else if deref mem (wordEnd mem p) = 0 then (mem, [p])
  else
    let mem' := mem.set (wordEnd mem p) 0
    let rest := pointers mem' (skipWhite mem' (wordEnd mem p + 1)) (n - 1)
    (rest.1, p :: rest.2)
termination_by mem.length - p
decreasing_by
  have hp := lt_of_deref ‹_›
  have hend := le_wordEnd mem p
  have hskip := le_skipWhite (mem.set (wordEnd mem p) 0) (wordEnd mem p + 1)
  rw [length_set]
  omega

def fill : List Slot → Nat → List Nat → List Slot
  | argv, _, [] => argv
  | argv, i, p :: ps => fill (argv.set i (.at p)) (i + 1) ps

variable {mem mem' : Octets} {p q : Nat} {n : Int}

theorem pointers_end (h : deref mem p = 0) : pointers mem p n = (mem, []) := by
  rw [pointers, dif_pos h]

theorem pointers_limit (h : ¬deref mem p = 0) : pointers mem p 0 = (mem, [p]) := by
  rw [pointers, dif_neg h, if_pos rfl]

theorem pointers_last (h : ¬deref mem p = 0) (hend : deref mem (wordEnd mem p) = 0) :
    pointers mem p n = (mem, [p]) := by
  rw [pointers, dif_neg h, if_pos hend, ite_self]

theorem pointers_word (h : ¬deref mem p = 0) (hn : n ≠ 0) (hend : ¬deref mem (wordEnd mem p) = 0)
    (hmem : mem.set (wordEnd mem p) 0 = mem') :
    pointers mem p n = ((pointers mem' (skipWhite mem' (wordEnd mem p + 1)) (n - 1)).1,
      p :: (pointers mem' (skipWhite mem' (wordEnd mem p + 1)) (n - 1)).2) := by
  rw [pointers, dif_neg h, if_neg hn, if_neg hend, hmem]

theorem fill_length (argv : List Slot) (i : Nat) (ps : List Nat) :
    (fill argv i ps).length = argv.length := by
  induction ps generalizing argv i with
  | nil => rfl
  | cons p ps ih => rw [fill, ih, length_set]

theorem fill_append (argv : List Slot) (i : Nat) (ps qs : List Nat) :
    fill argv i (ps ++ qs) = fill (fill argv i ps) (i + ps.length) qs := by
  induction ps generalizing argv i with
  | nil => rfl
  | cons p ps ih => rw [cons_append, fill, fill, ih, length_cons, Nat.add_right_comm,
      Nat.add_assoc i]

theorem fill_set (argv : List Slot) (i : Nat) (ps : List Nat) (slot : Slot) :
    (fill (argv.set i slot) i ps).set (i + ps.length) .null = (fill argv i ps).set
    (i + ps.length) .null := by
  cases ps with
  | nil => exact List.set_set _
  | cons p ps => rw [fill, fill, List.set_set]

theorem store_eq {argv : List Slot} {i : Nat} (slot : Slot) (hi : i < argv.length) :
    store argv i slot = .ok (argv.set i slot) := if_pos hi

theorem splitFrom_eq (argv : List Slot) (i : Nat)
    (hroom : i + (pointers mem p n).2.length ≤ argv.length) :
    splitFrom true mem p n argv i =
      .ok ((pointers mem p n).1, fill argv i (pointers mem p n).2,
        i + (pointers mem p n).2.length) := by
  induction mem, p, n using pointers.induct generalizing argv i with
  | case1 mem p n h => rw [splitFrom, dif_pos h, pointers_end h]; rfl
  | case2 mem p h =>
    rw [pointers_limit h] at hroom ⊢
    rw [splitFrom, dif_neg h, store_eq _ hroom]
    rfl
  | case3 mem p n h hn hend =>
    rw [pointers_last h hend] at hroom ⊢
    rw [splitFrom, dif_neg h, store_eq _ hroom]
    simp only [if_neg hn, if_pos hend]
    rfl
  | case4 mem p n h hn hend mem' ih =>
    have hmem : mem.set (wordEnd mem p) 0 = mem' := rfl
    rw [pointers_word h hn hend hmem] at hroom ⊢
    rw [length_cons] at hroom
    rw [splitFrom, dif_neg h, store_eq _ (by omega)]
    simp only [if_neg hn, if_neg hend, if_true]
    refine (ih _ (i + 1) (by rw [length_set]; omega)).trans ?_
    rw [length_cons, fill, Nat.add_assoc, Nat.add_comm 1]

theorem pointers_length (mem : Octets) (p : Nat) (n : Int) :
    (pointers mem p n).2.length ≤ mem.length - p := by
  induction mem, p, n using pointers.induct with
  | case1 mem p n h => rw [pointers_end h]; exact Nat.zero_le _
  | case2 mem p h =>
    rw [pointers_limit h, length_singleton]
    exact Nat.sub_pos_of_lt (lt_of_deref h)
  | case3 mem p n h hn hend =>
    rw [pointers_last h hend, length_singleton]
    exact Nat.sub_pos_of_lt (lt_of_deref h)
  | case4 mem p n h hn hend mem' ih =>
    have hp := lt_of_deref h
    have hle := le_wordEnd mem p
    have hskip := le_skipWhite mem' (wordEnd mem p + 1)
    have hmem : mem.set (wordEnd mem p) 0 = mem' := rfl
    have hlength : mem'.length = mem.length := length_set
    rw [pointers_word h hn hend hmem, length_cons]
    omega

theorem pointers_ne_nil (h : ¬deref mem p = 0) : (pointers mem p n).2 ≠ [] := by
  rw [pointers, dif_neg h]
  split
  · nofun
  · split <;> nofun

end Pointers

section Resumed

variable {mem : Octets} {p q : Nat}

theorem getD_takeWhile (f : UInt8 → Bool) (text : Octets) :
    text.getD (text.takeWhile f).length 0 = (text.dropWhile f).headD 0 := by
  induction text with
  | nil => rfl
  | cons c text ih =>
    cases hc : f c with
    | false => rw [takeWhile_cons_of_neg (by simp [hc]),
        List.dropWhile_cons_of_neg (by simp [hc])]; rfl
    | true =>
      rw [List.takeWhile_cons_of_pos hc, List.dropWhile_cons_of_pos hc, length_cons,
        List.getD_cons_succ, ih]

theorem deref_add (mem : Octets) (p k : Nat) : deref mem (p + k) = (mem.drop p).getD k 0 := by
  rw [deref, List.getD_eq_getElem?_getD, List.getD_eq_getElem?_getD, List.getElem?_drop]

theorem deref_skipWhite (mem : Octets) (p : Nat) :
    ISWHITE (deref mem (skipWhite mem p)) = false := by
  rw [skipWhite, deref_add, getD_takeWhile]
  have hhead := List.head?_dropWhile_not ISWHITE (mem.drop p)
  cases hrest : (mem.drop p).dropWhile ISWHITE with
  | nil => decide
  | cons c rest =>
    rw [hrest] at hhead
    exact hhead

theorem skipWhite_of_word (h : ISWHITE (deref mem p) = false) : skipWhite mem p = p := by
  have hfirst : (mem.drop p).getD 0 0 = deref mem p := (deref_add mem p 0).symm
  rw [skipWhite]
  cases htext : mem.drop p with
  | nil => rfl
  | cons c text =>
    rw [htext, List.getD_cons_zero] at hfirst
    rw [takeWhile_cons_of_neg (by rw [hfirst, h]; decide)]
    rfl

theorem takeWhile_nip (f : UInt8 → Bool) (hf : f 0 = false) (text : Octets) :
    (text.set (text.takeWhile f).length 0).takeWhile f = text.takeWhile f := by
  induction text with
  | nil => rfl
  | cons c text ih =>
    cases hc : f c with
    | false =>
      rw [takeWhile_cons_of_neg (by simp [hc]), List.length_nil, List.set_cons_zero,
        takeWhile_cons_of_neg (by simp [hf])]
    | true =>
      rw [List.takeWhile_cons_of_pos hc, length_cons, List.set_cons_succ,
        List.takeWhile_cons_of_pos hc, ih]

theorem wordEnd_nip (mem : Octets) (p : Nat) :
    wordEnd (mem.set (wordEnd mem p) 0) p = wordEnd mem p := by
  rw [wordEnd, List.drop_set, if_neg (Nat.not_lt.mpr (le_wordEnd mem p)), wordEnd,
    Nat.add_sub_cancel_left,
    takeWhile_nip _ (by decide)]

theorem deref_set (mem : Octets) (e q : Nat) :
    deref (mem.set e 0) q = if e = q then 0 else deref mem q := by
  rw [deref, deref, List.getD_eq_getElem?_getD, List.getD_eq_getElem?_getD, List.getElem?_set]
  split
  · split
    · rfl
    · rfl
  · rfl

theorem lt_wordEnd (h : ¬deref mem p = 0) (hp : ISWHITE (deref mem p) = false) :
    p < wordEnd mem p := by
  have hfirst : (mem.drop p).getD 0 0 = deref mem p := (deref_add mem p 0).symm
  rw [wordEnd]
  cases htext : mem.drop p with
  | nil =>
    rw [htext] at hfirst
    exact absurd hfirst.symm h
  | cons c text =>
    rw [htext, List.getD_cons_zero] at hfirst
    rw [List.takeWhile_cons_of_pos (by simp [hfirst, h, hp]), length_cons]
    omega

theorem only_last {qs : List Nat} (h : [p] = qs ++ [q]) : qs = [] ∧ q = p := by
  cases qs with
  | nil => exact ⟨rfl, (List.cons.inj h).1.symm⟩
  | cons r qs => simp at h

theorem pointers_resume (hp : ISWHITE (deref mem p) = false) (n m : Nat) {qs : List Nat}
    (hqs : (pointers mem p n).2 = qs ++ [q]) :
    (ISWHITE (deref (pointers mem p n).1 q) = false ∧ ¬deref (pointers mem p n).1 q = 0) ∧
      ∃ rs, pointers (pointers mem p n).1 q m = ((pointers mem p (n + m)).1, rs) ∧
        (pointers mem p (n + m)).2 = qs ++ rs := by
  have hne : ¬deref mem p = 0 := by
    intro h
    rw [pointers_end h] at hqs
    exact absurd hqs (by simp)
  induction n generalizing mem p qs with
  | zero =>
    have hlimit : pointers mem p ((0 : Nat) : Int) = (mem, [p]) := pointers_limit hne
    rw [hlimit] at hqs ⊢
    obtain ⟨rfl, rfl⟩ := only_last hqs
    refine ⟨⟨hp, hne⟩, (pointers mem q m).2, ?_, ?_⟩
    · rw [Nat.cast_zero, zero_add]
    · rw [Nat.cast_zero, zero_add]
      rfl
  | succ n ih =>
    by_cases hend : deref mem (wordEnd mem p) = 0
    · rw [pointers_last hne hend] at hqs ⊢
      obtain ⟨rfl, rfl⟩ := only_last hqs
      exact ⟨⟨hp, hne⟩, [q],
        by rw [pointers_last hne hend, pointers_last hne hend], by rw [pointers_last hne hend]; rfl⟩
    · generalize hmem : mem.set (wordEnd mem p) 0 = mem'
      generalize hnext : skipWhite mem' (wordEnd mem p + 1) = next
      have hword : ∀ k : Nat, pointers mem p ((k + 1 : Nat) : Int) =
          ((pointers mem' next k).1, p :: (pointers mem' next k).2) := by
        intro k
        rw [pointers_word hne (by omega) hend hmem, hnext, Nat.cast_succ, add_sub_cancel_right]
      have hnextw : ISWHITE (deref mem' next) = false := hnext ▸ deref_skipWhite mem' _
      have hsum : (((n + 1 : Nat) : Int) + (m : Int)) = ((n + m + 1 : Nat) : Int) := by omega
      rw [hword n] at hqs ⊢
      rw [hsum, hword (n + m)]
      by_cases hlast : deref mem' next = 0
      · have hlt := lt_wordEnd hne hp
        have hderef : deref mem' p = deref mem p := by
          rw [← hmem, deref_set, if_neg (Nat.ne_of_gt hlt)]
        have hended : deref mem' (wordEnd mem' p) = 0 := by
          rw [← hmem, wordEnd_nip, deref_set, if_pos rfl]
        rw [pointers_end hlast] at hqs ⊢
        obtain ⟨rfl, rfl⟩ := only_last hqs
        rw [pointers_end hlast]
        refine ⟨⟨hderef ▸ hp, hderef ▸ hne⟩, [q], ?_, rfl⟩
        exact pointers_last (hderef ▸ hne) hended
      · cases qs with
        | nil => exact absurd (List.cons.inj hqs).2 (pointers_ne_nil hlast)
        | cons r qs =>
          obtain ⟨hr, hrest⟩ := List.cons.inj hqs
          obtain ⟨hq, rs, hrs, happend⟩ := ih hnextw hrest hlast
          refine ⟨hq, rs, ?_, ?_⟩
          · rw [hrs, Nat.cast_add]
          · rw [Nat.cast_add, happend, hr]
            rfl

end Resumed

section Divided

def string (mem : Octets) (p : Nat) : Octets := (mem.drop p).takeWhile fun c => c ≠ 0

def Divided (ws : List Octets) (n : Nat) (text : Octets) (args : List Octets) : Prop :=
  if ws.length ≤ n then args = ws
  else ∃ before rest, text = before ++ rest ∧ Listed ISWHITE (ws.take n) before ∧
    Listed ISWHITE (ws.drop n) rest ∧
    (∀ c, rest.head? = some c → ISWHITE c = false) ∧ args = ws.take n ++ [rest]

variable {ws : List Octets} {text : Octets}

theorem deref_append (before : Octets) (c : UInt8) (rest : Octets) :
    deref (before ++ c :: rest) before.length = c := by
  rw [deref, List.getD_eq_getElem?_getD, List.getElem?_append_right (Nat.le_refl _), Nat.sub_self]
  rfl

theorem string_append (before : Octets) (word rest : Octets) (hword : 0 ∉ word) :
    string (before ++ word ++ 0 :: rest) before.length = word := by
  have hplain : ∀ c ∈ word, decide (c ≠ 0) = true :=
    fun c hc => decide_eq_true (ne_of_mem_of_not_mem hc hword)
  rw [string, append_assoc, List.drop_left, List.takeWhile_append_of_pos hplain,
    takeWhile_cons_of_neg (by decide), append_nil]

theorem skipWhite_append (before : Octets) {blanks : Octets} {c : UInt8} (rest : Octets)
    (hblanks : ∀ c ∈ blanks, ISWHITE c = true) (hc : ISWHITE c = false) :
    skipWhite (before ++ blanks ++ c :: rest) before.length = (before ++ blanks).length := by
  rw [skipWhite, append_assoc, List.drop_left, List.takeWhile_append_of_pos hblanks,
    takeWhile_cons_of_neg (by rw [hc]; decide), append_nil, length_append]

theorem wordEnd_append (before : Octets) {word : Octets} {c : UInt8} (rest : Octets)
    (hword : ∀ c ∈ word, ISWHITE c = false) (hnul : 0 ∉ word) (hc : ISWHITE c = true ∨ c = 0) :
    wordEnd (before ++ word ++ c :: rest) before.length = (before ++ word).length := by
  have hplain : ∀ c ∈ word, (decide (c ≠ 0) && !ISWHITE c) = true := by
    intro c hc
    rw [hword c hc, decide_eq_true (ne_of_mem_of_not_mem hc hnul)]
    rfl
  have hends : (decide (c ≠ 0) && !ISWHITE c) = false := by
    rcases hc with hc | rfl
    · rw [hc, Bool.not_true, Bool.and_false]
    · decide
  rw [wordEnd, append_assoc, List.drop_left, List.takeWhile_append_of_pos hplain,
    List.takeWhile_cons, hends,
    if_neg Bool.false_ne_true, append_nil, length_append]

theorem Divided.cons {w : Octets} {n : Nat} {args : List Octets} {before rest : Octets} {c : UInt8}
    (hbefore : ∀ c ∈ before, ISWHITE c = true) (hnonempty : w ≠ [])
    (hplain : ∀ c ∈ w, ISWHITE c = false) (hc : ISWHITE c = true) (h : Divided ws n rest args) :
    Divided (w :: ws) (n + 1) (before ++ (w ++ c :: rest)) (w :: args) := by
  rw [Divided] at h ⊢
  simp only [length_cons, Nat.add_le_add_iff_right, List.take_succ_cons, List.drop_succ_cons]
  split at h
  next hle => rw [if_pos hle, h]
  next hle =>
    obtain ⟨front, tail, rfl, hfront, htail, hhead, rfl⟩ := h
    rw [if_neg hle]
    refine ⟨before ++ (w ++ c :: front), tail, ?_, ?_, htail, hhead, rfl⟩
    · simp only [append_assoc, cons_append]
    · refine .word hbefore hnonempty hplain (fun d hd => ?_) ((listed_cons hc).mpr hfront)
      obtain rfl : c = d := Option.some.inj hd
      exact hc

theorem pointers_listed (hlisted : Listed ISWHITE ws text) (hnul : 0 ∉ text)
    (done : Octets) (n : Nat) :
    ∃ mem qs, pointers (done ++ text ++ [0]) (skipWhite (done ++ text ++ [0]) done.length) n =
      (done ++ mem, qs) ∧
      Divided ws n text (qs.map (string (done ++ mem))) := by
  induction ws generalizing text done n with
  | nil =>
    cases hlisted with
    | none hblanks =>
      rw [skipWhite_append done [] hblanks (by decide), pointers_end (deref_append _ 0 [])]
      exact ⟨text ++ [0], [], by rw [append_assoc], (if_pos (Nat.zero_le n)).mpr rfl⟩
  | cons w more ih =>
    cases hlisted with
    | @word before _ rest _ hbefore hnonempty hplain hends hmore =>
      obtain ⟨d, letters, hw⟩ := List.exists_cons_of_ne_nil hnonempty
      have hd : ISWHITE d = false := hplain d (hw ▸ List.mem_cons_self)
      have hwnul : 0 ∉ w := fun h => hnul (List.mem_append_right _ (List.mem_append_left _ h))
      have hd0 : d ≠ 0 := fun h => hwnul (hw ▸ h ▸ List.mem_cons_self)
      have hskip : skipWhite (done ++ (before ++ (w ++ rest)) ++ [0]) done.length =
          (done ++ before).length := by
        have := skipWhite_append done (letters ++ rest ++ [0]) hbefore hd
        rw [← this, hw]
        simp only [append_assoc, cons_append]
      have hderef : deref (done ++ (before ++ (w ++ rest)) ++ [0]) (done ++ before).length = d := by
        have := deref_append (done ++ before) d (letters ++ rest ++ [0])
        rw [← this, hw]
        simp only [append_assoc, cons_append]
      have hne : ¬deref (done ++ (before ++ (w ++ rest)) ++ [0]) (done ++ before).length = 0 :=
        hderef ▸ hd0
      rw [hskip]
      cases n with
      | zero =>
        refine ⟨before ++ (w ++ rest) ++ [0], [(done ++ before).length], ?_, ?_⟩
        · rw [Nat.cast_zero, pointers_limit hne]
          simp only [append_assoc]
        · have hstring : string (done ++ (before ++ (w ++ rest) ++ [0])) (done ++ before).length =
              w ++ rest := by
            have := string_append (done ++ before) (w ++ rest) [] fun h =>
              hnul (List.mem_append_right _ h)
            simpa only [append_assoc] using this
          refine (if_neg (Nat.not_succ_le_zero _)).mpr ⟨before, w ++ rest, rfl,
            .none hbefore, ?_, ?_, ?_⟩
          · have hfirst :=
              Listed.word (show ∀ c ∈ [], ISWHITE c = true from nofun) hnonempty hplain hends hmore
            exact hfirst
          · intro c hc
            rw [hw] at hc
            obtain rfl : d = c := Option.some.inj hc
            exact hd
          · rw [map_cons, List.map_nil, hstring]
            rfl
      | succ n =>
        cases rest with
        | nil =>
          have hmore' : more = [] := by
            have := hmore.length_le
            exact List.eq_nil_of_length_eq_zero (Nat.le_zero.mp this)
          have htext : done ++ (before ++ (w ++ [])) ++ [0] = done ++ before ++ w ++ [0] := by
            simp only [append_assoc, append_nil]
          have hend := wordEnd_append (done ++ before) [] hplain hwnul (.inr rfl)
          rw [htext] at hne ⊢
          rw [pointers_last hne (by rw [hend]; exact deref_append _ 0 [])]
          refine ⟨before ++ w ++ [0], [(done ++ before).length], by simp only [append_assoc], ?_⟩
          have hstring : string (done ++ (before ++ w ++ [0])) (done ++ before).length = w := by
            have := string_append (done ++ before) w [] hwnul
            simpa only [append_assoc] using this
          rw [hmore', Divided, if_pos (show [w].length ≤ n + 1 from Nat.le_add_left 1 n), map_cons,
            List.map_nil, hstring]
        | cons c rest =>
          have hc : ISWHITE c = true := hends c rfl
          have hc0 : c ≠ 0 := fun h => by rw [h] at hc; exact absurd hc (by decide)
          have htext : done ++ (before ++ (w ++ c :: rest)) ++ [0] =
              done ++ before ++ w ++ c :: (rest ++ [0]) := by
            simp only [append_assoc, cons_append]
          have hend := wordEnd_append (done ++ before) (rest ++ [0]) hplain hwnul (.inl hc)
          have hstop :
              ¬deref (done ++ before ++ w ++ c :: (rest ++ [0])) (done ++ before ++ w).length =
              0 := by
            rw [deref_append]
            exact hc0
          have hset :
              (done ++ before ++ w ++ c :: (rest ++ [0])).set (done ++ before ++ w).length 0 =
              done ++ before ++ w ++ [0] ++ rest ++ [0] := by
            rw [List.set_append_right _ _ (Nat.le_refl _), Nat.sub_self]
            simp only [List.set_cons_zero, append_assoc, cons_append, nil_append]
          have hrest : 0 ∉ rest := fun h =>
            hnul (List.mem_append_right _ (List.mem_append_right _ (List.mem_cons_of_mem c h)))
          obtain ⟨mem, qs, hqs, hdivided⟩ :=
            ih ((listed_cons hc).mp hmore) hrest (done ++ before ++ w ++ [0]) n
          rw [htext] at hne ⊢
          have hnext : (done ++ before ++ w).length + 1 = (done ++ before ++ w ++ [0]).length := by
            simp only [length_append, length_singleton]
          rw [← hend] at hset hstop
          rw [pointers_word hne (by omega) hstop hset, hend, Nat.cast_succ,
            add_sub_cancel_right, hnext, hqs]
          refine ⟨before ++ w ++ [0] ++ mem, (done ++ before).length :: qs, ?_, ?_⟩
          · simp only [append_assoc]
          · have hsame :
                done ++ (before ++ w ++ [0] ++ mem) = done ++ before ++ w ++ [0] ++ mem := by
              simp only [append_assoc]
            have hstring :
                string (done ++ before ++ w ++ [0] ++ mem) (done ++ before).length = w := by
              have := string_append (done ++ before) w mem hwnul
              simpa only [append_assoc, cons_append, nil_append] using this
            rw [hsame, map_cons, hstring]
            exact hdivided.cons hbefore hnonempty hplain hc

theorem Divided.blank {n : Nat} {args : List Octets} {c : UInt8} (hc : ISWHITE c = true)
    (h : Divided ws n text args) :
    Divided ws n (c :: text) args := by
  rw [Divided] at h ⊢
  split at h
  next hle => rwa [if_pos hle]
  next hle =>
    obtain ⟨before, rest, rfl, hbefore, hrest, hhead, rfl⟩ := h
    exact (if_neg hle).mpr ⟨c :: before, rest, rfl, (listed_cons hc).mpr hbefore, hrest, hhead, rfl⟩

theorem divided_dropWhile {n : Nat} {args : List Octets}
    (h : Divided ws n (text.dropWhile ISWHITE) args) :
    Divided ws n text args := by
  induction text with
  | nil => exact h
  | cons c text ih =>
    cases hc : ISWHITE c with
    | false => rwa [List.dropWhile_cons_of_neg (by simp [hc])] at h
    | true => exact (ih (by rwa [List.dropWhile_cons_of_pos hc] at h)).blank hc

theorem listed_dropWhile (h : Listed ISWHITE ws text) :
    Listed ISWHITE ws (text.dropWhile ISWHITE) := by
  induction text with
  | nil => exact h
  | cons c text ih =>
    cases hc : ISWHITE c with
    | false => rwa [List.dropWhile_cons_of_neg (by simp [hc])]
    | true =>
      rw [List.dropWhile_cons_of_pos hc]
      exact ih ((listed_cons hc).mp h)

end Divided

def Args.words (args : Args) : List Octets :=
  (args.argv.takeWhile fun slot => slot ≠ .null).map fun
    | .at p => string args.mem p
    | _ => []

section Vector

variable {line : Octets} {n : Int}

def ended (argv : List Slot) (i : Nat) (ps : List Nat) : List Slot :=
    (fill argv i ps).set (i + ps.length) .null

theorem reArgify_eq (mem : Octets) (p : Nat) (argv : List Slot) (i : Nat) (n : Int)
    (hroom : i + (pointers mem (skipWhite mem p) n).2.length < argv.length) :
    reArgify mem p argv i n true = .ok ⟨(pointers mem (skipWhite mem p) n).1,
      ended argv i (pointers mem (skipWhite mem p) n).2,
        (pointers mem (skipWhite mem p) n).2.length⟩ := by
  have hnull : store (fill argv i (pointers mem (skipWhite mem p) n).2) _ .null = .ok _ :=
    store_eq .null (by rwa [fill_length])
  rw [reArgify]
  simp only [if_true, splitFrom_eq argv i hroom.le, bind, Except.bind, hnull, pure,
    Except.pure, ended,
    Nat.add_sub_cancel_left]

def copied (line : Octets) (n : Int) : Octets × List Nat :=
  pointers (line.dropWhile ISWHITE ++ [0]) (skipWhite (line.dropWhile ISWHITE ++ [0]) 0) n

def fresh (line : Octets) : List Slot := List.replicate ((line.dropWhile ISWHITE).length + 2) .unset

theorem copied_length (line : Octets) (n : Int) :
    (copied line n).2.length < (fresh line).length := by
  have hlength :=
    pointers_length (line.dropWhile ISWHITE ++ [0]) (skipWhite (line.dropWhile ISWHITE ++ [0]) 0) n
  rw [length_append, length_singleton] at hlength
  rw [copied, fresh, List.length_replicate]
  omega

theorem nArgify_eq (line : Octets) (n : Int) :
    nArgify line n = .ok ⟨(copied line n).1, ended (fresh line) 0 (copied line n).2,
      (copied line n).2.length⟩ :=
  reArgify_eq _ 0 _ 0 n (by rw [Nat.zero_add]; exact copied_length line n)

theorem fill_replicate (m : Nat) (before : List Slot) (ps : List Nat) (hps : ps.length ≤ m) :
    fill (before ++ List.replicate m .unset) before.length ps =
      before ++ ps.map .at ++ List.replicate (m - ps.length) .unset := by
  induction ps generalizing before m with
  | nil => rw [fill, List.map_nil, append_nil, List.length_nil, Nat.sub_zero]
  | cons p ps ih =>
    obtain ⟨m, rfl⟩ : ∃ k, m = k + 1 :=
      Nat.exists_eq_add_one.mpr (Nat.lt_of_lt_of_le (Nat.succ_pos _) hps)
    have := ih m (before ++ [.at p]) (Nat.le_of_succ_le_succ hps)
    rw [length_append, length_singleton] at this
    rw [fill, List.replicate_succ, List.set_append_right _ _ (Nat.le_refl _), Nat.sub_self,
      List.set_cons_zero,
      length_cons, Nat.succ_sub_succ, map_cons]
    simpa only [append_assoc, cons_append, nil_append] using this

theorem words_ended {m : Nat} {ps : List Nat} (hps : ps.length < m) (mem : Octets) (ac : Nat) :
    Args.words ⟨mem, ended (List.replicate m .unset) 0 ps, ac⟩ = ps.map (string mem) := by
  have hfill := fill_replicate m [] ps hps.le
  rw [nil_append, nil_append, List.length_nil] at hfill
  obtain ⟨k, hk⟩ : ∃ k, m - ps.length = k + 1 := Nat.exists_eq_add_one.mpr (Nat.sub_pos_of_lt hps)
  have hset :
      ended (List.replicate m .unset) 0 ps = ps.map .at ++ .null :: List.replicate k .unset := by
    rw [ended, hfill, hk, List.replicate_succ, Nat.zero_add,
      List.set_append_right _ _ (by rw [List.length_map]),
      List.length_map, Nat.sub_self, List.set_cons_zero]
  have hplain : ∀ slot ∈ ps.map Slot.at, decide (slot ≠ .null) = true := by
    intro slot hslot
    obtain ⟨p, _, rfl⟩ := List.mem_map.mp hslot
    rfl
  rw [Args.words, hset, List.takeWhile_append_of_pos hplain,
    takeWhile_cons_of_neg (by decide), append_nil,
    List.map_map]
  rfl

theorem copied_ne_nil (hword : ∃ c ∈ line, ISWHITE c = false) (hnul : 0 ∉ line) :
    (copied line n).2 ≠ [] := by
  obtain ⟨c, hc, hword⟩ := hword
  cases htext : line.dropWhile ISWHITE with
  | nil =>
    have := List.dropWhile_eq_nil_iff.mp htext c hc
    rw [hword] at this
    exact absurd this (by decide)
  | cons d text =>
    have hhead := List.head?_dropWhile_not ISWHITE line
    rw [htext] at hhead
    have hd : ISWHITE d = false := hhead
    have hmem : d ∈ line := (List.dropWhile_sublist ISWHITE).subset (htext ▸ List.mem_cons_self)
    have hderef : deref (d :: text ++ [0]) 0 = d := rfl
    rw [copied, htext, skipWhite_of_word (by rw [hderef]; exact hd)]
    exact pointers_ne_nil (by rw [hderef]; exact ne_of_mem_of_not_mem hmem hnul)

theorem copied_divided {ws : List Octets} (hlisted : Listed ISWHITE ws line) (hnul : 0 ∉ line)
    (n : Nat) (ac : Nat) :
    Divided ws n line (Args.words ⟨(copied line n).1,
      ended (fresh line) 0 (copied line n).2, ac⟩) := by
  have hnul' : 0 ∉ line.dropWhile ISWHITE :=
    fun h => hnul ((List.dropWhile_sublist ISWHITE).subset h)
  obtain ⟨mem, qs, hqs, hdivided⟩ := pointers_listed (listed_dropWhile hlisted) hnul' [] n
  rw [nil_append, nil_append, List.length_nil, ← copied] at hqs
  have hlength := copied_length line n
  rw [fresh, List.length_replicate] at hlength
  rw [fresh, words_ended hlength, hqs]
  exact divided_dropWhile hdivided

theorem copied_resume {qs : List Nat} {q n₁ n₂ : Nat} (hqs : (copied line n₁).2 = qs ++ [q]) :
    (ISWHITE (deref (copied line n₁).1 q) = false ∧ ¬deref (copied line n₁).1 q = 0) ∧
      ∃ rs, pointers (copied line n₁).1 q n₂ = ((copied line (n₁ + n₂)).1, rs) ∧
        (copied line (n₁ + n₂)).2 = qs ++ rs :=
  pointers_resume (deref_skipWhite _ 0) n₁ n₂ hqs

theorem ended_resume (argv : List Slot) (qs : List Nat) (q : Nat) {rs : List Nat} (hrs : rs ≠ []) :
    ended (ended argv 0 (qs ++ [q])) qs.length rs = ended argv 0 (qs ++ rs) := by
  obtain ⟨r, rs, rfl⟩ := List.exists_cons_of_ne_nil hrs
  have hnull := fill_set (((fill argv 0 qs).set qs.length (.at r))) (qs.length + 1) rs .null
  have hsame :
      (((fill argv 0 qs).set qs.length (.at q)).set (qs.length + 1) .null).set qs.length (.at r) =
      ((fill argv 0 qs).set qs.length (.at r)).set (qs.length + 1) .null := by
    rw [List.set_comm _ _ (Nat.succ_ne_self _), List.set_set]
  rw [ended, ended, ended, fill_append, fill_append, Nat.zero_add, fill, fill, fill, fill,
    length_append,
    length_append, length_singleton, length_cons, Nat.zero_add, Nat.zero_add, hsame,
    show qs.length + (rs.length + 1) = qs.length + 1 + rs.length by omega]
  exact hnull

end Vector

/-- A line that is split up to a limit can be split further where it was left,
and is the same then as with both limits together. -/
theorem nArgify_resplit (line : Octets) (hnul : 0 ∉ line) (hword : ∃ c ∈ line, ISWHITE c = false)
    (n₁ n₂ : Nat) :
    ∃ args more, nArgify line n₁ = .ok args ∧ resplit args n₂ = .ok more ∧
      nArgify line (n₁ + n₂) = .ok more ∧
      ∃ ws, Listed ISWHITE ws line ∧ Divided ws n₁ line args.words ∧
        Divided ws (n₁ + n₂) line more.words := by
  obtain ⟨ws, hws⟩ := exists_listed ISWHITE line
  obtain ⟨qs, q, hqs⟩ :=
    List.eq_nil_or_concat (copied line n₁).2 |>.resolve_left (copied_ne_nil hword hnul)
  rw [List.concat_eq_append] at hqs
  obtain ⟨⟨hq, hq0⟩, rs, hrs, happend⟩ := copied_resume hqs
  have hrs0 : rs ≠ [] := by
    have := pointers_ne_nil (n := n₂) hq0
    rwa [hrs] at this
  have hlength := copied_length line n₁
  rw [hqs, length_append, length_singleton] at hlength
  have hlast : (ended (fresh line) 0 (qs ++ [q]))[qs.length]? = some (.at q) := by
    rw [ended, fill_append, Nat.zero_add, length_append, length_singleton, Nat.zero_add,
      List.getElem?_set_ne (Nat.succ_ne_self _), fill, fill]
    exact List.getElem?_set_self (by rw [fill_length]; omega)
  have hlength' := copied_length line (n₁ + n₂)
  rw [happend, length_append] at hlength'
  have hmore := reArgify_eq (copied line n₁).1 q (ended (fresh line) 0 (qs ++ [q])) qs.length n₂
  rw [skipWhite_of_word hq, hrs, ended_resume (fresh line) qs q hrs0, ← happend] at hmore
  refine ⟨_, _, nArgify_eq line n₁, ?_, nArgify_eq line (n₁ + n₂), ws, hws,
    copied_divided hws hnul n₁ _, ?_⟩
  · rw [hqs, length_append, length_singleton, resplit]
    simp only [Nat.add_sub_cancel, hlast]
    rw [hmore (by rw [ended, length_set, fill_length]; exact hlength'), happend, length_append]
    rfl
  · have := copied_divided hws hnul (n₁ + n₂) (copied line (n₁ + n₂)).2.length
    rwa [Nat.cast_add] at this

/-- One word, and then one more of the rest. -/
theorem nArgify_resplit_two :
    ∃ args more, nArgify (octets " a  bc d ") 1 = .ok args ∧ resplit args 1 = .ok more ∧
    nArgify (octets " a  bc d ") 2 = .ok more := by
  obtain ⟨args, more, hargs, hmore, hboth, _⟩ :=
    nArgify_resplit (octets " a  bc d ") (by decide) (by decide) 1 1
  exact ⟨args, more, hargs, hmore, hboth⟩

end Inn.Lib.Argify
