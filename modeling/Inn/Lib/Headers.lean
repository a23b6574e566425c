import Inn.Wildmat.Utf8
import Inn.Octets

/-!
# Bodies of header fields

`IsValidHeaderBody` goes through a string once, after `is_valid_utf8` has. A pointer into the string
is what can be read from it on, together with the octet before it, if that can be read.
-/

namespace Inn.Lib.Headers

open Wildmat (leadingOnes isContinuation ValidUtf8 WellFormed forall_octet leadingOnes_of_ascii)
open List (mem_cons_of_mem mem_cons_self forall_mem_cons forall_mem_nil cons_append not_mem_nil)

def isprint (c : UInt8) : Bool := 32 ≤ c && c ≤ 126

def isValidUtf8 : Nat → Octets → Except Unit Bool
  | _, [] => .error ()
  | 0, c :: p =>
    if c = 0 then .ok true
    else if leadingOnes c = 0 then
      if isprint c ∨ c = CR ∨ c = LF ∨ c = 9 then isValidUtf8 0 p else .ok false
    else if leadingOnes c < 2 ∨ leadingOnes c > 6 then .ok false
    else isValidUtf8 (leadingOnes c - 1) p
  | left + 1, c :: p => if isContinuation c then isValidUtf8 left p else .ok false

def foldsTo (emptycontentline : Bool) : Octets → Except Unit Bool
  | [] => .error ()
  | c :: _ => .ok (!emptycontentline && ISWHITE c)

def bodyFrom : Option UInt8 → Octets → Bool → Except Unit Bool
  | _, [], _ => .error ()
  | before, c :: p, emptycontentline =>
    if c = 0 then .ok (!emptycontentline)
    else if ISWHITE c then bodyFrom (some c) p emptycontentline
    else if c = LF then do
      if ← foldsTo emptycontentline p then bodyFrom (some c) p true else .ok false
    else if c = CR then
      match p with
      | [] => .error ()
      | d :: p =>
        if d = LF then do
          if ← foldsTo emptycontentline p then bodyFrom (some d) p true else .ok false
        -- The octet before this one is the CR.
        else .ok false
    else
      match before with
      | none => .error ()
      | some b => if b = CR then .ok false else bodyFrom (some c) p false

def IsValidHeaderBody (before : Option UInt8) (p : Octets) : Except Unit Bool := do
  match p with
  | [] => .error ()
  | c :: _ =>
    if c = 0 then .ok false
    else if ← isValidUtf8 0 p then bodyFrom before p true
    else .ok false

def Printable (s : Octets) : Prop := ∀ c ∈ s, c < 0x80 → isprint c ∨ c = CR ∨ c = LF ∨ c = 9

theorem leadingOnes_eq_zero_iff (c : UInt8) : leadingOnes c = 0 ↔ c < 0x80 := by
  refine ⟨?_, leadingOnes_of_ascii⟩
  rw [← not_imp_not]
  intro hc
  revert hc
  exact @forall_octet (fun c => ¬c < 0x80 → ¬leadingOnes c = 0) _ (by decide +kernel) c

theorem not_ascii_of_isContinuation {c : UInt8} (hc : isContinuation c) : ¬c < 0x80 := by
  rw [← leadingOnes_eq_zero_iff, Wildmat.leadingOnes_of_isContinuation hc]
  exact Nat.one_ne_zero

theorem validUtf8_cons (c : UInt8) (s : Octets) : ValidUtf8 (c :: s) ↔
    (c < 0x80 ∧ ValidUtf8 s) ∨ ∃ conts rest, s = conts ++ rest ∧ conts ≠ [] ∧ conts.length ≤ 5 ∧
      leadingOnes c = conts.length + 1 ∧ (∀ o ∈ conts, isContinuation o) ∧ ValidUtf8 rest := by
  constructor
  · rintro ⟨cs, hcs, hs⟩
    obtain _ | ⟨first, cs⟩ := cs
    · cases hs
    · have hrest : ValidUtf8 cs.flatten := ⟨cs, fun d hd => hcs d (mem_cons_of_mem _ hd), rfl⟩
      rw [List.flatten_cons] at hs
      cases hcs first mem_cons_self with
      | ascii d hd =>
        cases hs
        exact .inl ⟨hd, hrest⟩
      | multi d conts hne hle hones hall =>
        cases hs
        exact .inr ⟨conts, cs.flatten, rfl, hne, hle, hones, hall, hrest⟩
  · rintro (⟨hc, cs, hcs, rfl⟩ | ⟨conts, rest, rfl, hne, hle, hones, hall, cs, hcs, rfl⟩)
    · exact ⟨[c] :: cs, forall_mem_cons.mpr ⟨.ascii c hc, hcs⟩, rfl⟩
    · exact ⟨(c :: conts) :: cs, forall_mem_cons.mpr ⟨.multi c conts hne hle hones hall, hcs⟩, rfl⟩

def ValidFrom (left : Nat) (s : Octets) : Prop :=
  ∃ conts rest, s = conts ++ rest ∧ conts.length = left ∧ (∀ o ∈ conts, isContinuation o) ∧
    ValidUtf8 rest ∧ Printable rest

theorem validFrom_zero (s : Octets) : ValidFrom 0 s ↔ ValidUtf8 s ∧ Printable s := by
  constructor
  · rintro ⟨conts, rest, rfl, hlength, -, hvalid, hprint⟩
    rw [List.eq_nil_of_length_eq_zero hlength]
    exact ⟨hvalid, hprint⟩
  · rintro ⟨hvalid, hprint⟩
    exact ⟨[], s, rfl, rfl, forall_mem_nil _, hvalid, hprint⟩

theorem validFrom_succ (left : Nat) (c : UInt8) (s : Octets) :
    ValidFrom (left + 1) (c :: s) ↔ isContinuation c ∧ ValidFrom left s := by
  constructor
  · rintro ⟨_ | ⟨d, conts⟩, rest, hs, hlength, hall, hvalid, hprint⟩
    · cases hlength
    · cases hs
      exact ⟨hall c mem_cons_self, conts, rest, rfl, Nat.succ.inj hlength,
        fun o ho => hall o (mem_cons_of_mem _ ho), hvalid, hprint⟩
  · rintro ⟨hc, conts, rest, rfl, rfl, hall, hvalid, hprint⟩
    exact ⟨c :: conts, rest, rfl, rfl, forall_mem_cons.mpr ⟨hc, hall⟩, hvalid, hprint⟩

theorem validFrom_ascii {c : UInt8} (hc : c < 0x80) (s : Octets) :
    ValidFrom 0 (c :: s) ↔ (isprint c ∨ c = CR ∨ c = LF ∨ c = 9) ∧ ValidFrom 0 s := by
  have hones := leadingOnes_of_ascii hc
  rw [validFrom_zero, validFrom_zero, validUtf8_cons, Printable, forall_mem_cons]
  constructor
  · rintro ⟨⟨-, hvalid⟩ | ⟨conts, _, _, _, _, hlead, _⟩, hprint, hrest⟩
    · exact ⟨hprint hc, hvalid, hrest⟩
    · omega
  · rintro ⟨hprint, hvalid, hrest⟩
    exact ⟨.inl ⟨hc, hvalid⟩, fun _ => hprint, hrest⟩

theorem validFrom_multi {c : UInt8} (hc : ¬c < 0x80) (s : Octets) :
    ValidFrom 0 (c :: s) ↔ (2 ≤ leadingOnes c ∧ leadingOnes c ≤ 6) ∧
      ValidFrom (leadingOnes c - 1) s := by
  rw [validFrom_zero, validUtf8_cons, Printable, forall_mem_cons]
  constructor
  · rintro ⟨⟨h, -⟩ | ⟨conts, rest, rfl, hne, hle, hlead, hall, hvalid⟩, -, hprint⟩
    · exact absurd h hc
    · have hpos := List.length_pos_of_ne_nil hne
      refine ⟨by omega, conts, rest, rfl, by omega, hall, hvalid, fun o ho => hprint o ?_⟩
      exact List.mem_append_right _ ho
  · rintro ⟨⟨hlow, hhigh⟩, conts, rest, rfl, hlength, hall, hvalid, hprint⟩
    have hne : conts ≠ [] := by
      rintro rfl
      rw [List.length_nil] at hlength
      omega
    refine ⟨.inr ⟨conts, rest, rfl, hne, by omega, by omega, hall, hvalid⟩, fun h => absurd h hc,
      fun o ho => ?_⟩
    obtain ho | ho := List.mem_append.mp ho
    · exact fun h => absurd h (not_ascii_of_isContinuation (hall o ho))
    · exact hprint o ho

theorem isValidUtf8_spec (left : Nat) {s : Octets} (hs : 0 ∉ s) :
    ∃ valid, isValidUtf8 left (s ++ [0]) = .ok valid ∧ (valid ↔ ValidFrom left s) := by
  induction s generalizing left with
  | nil =>
    cases left with
    | zero =>
      have hnil : ValidFrom 0 [] :=
        (validFrom_zero []).mpr ⟨⟨[], forall_mem_nil _, rfl⟩, forall_mem_nil _⟩
      exact ⟨true, rfl, iff_of_true rfl hnil⟩
    | succ left =>
      refine ⟨false, rfl, ?_⟩
      simp only [Bool.false_eq_true, false_iff]
      rintro ⟨conts, rest, hnil, hlength, -⟩
      rw [(List.append_eq_nil_iff.mp hnil.symm).1] at hlength
      cases hlength
  | cons c s ih =>
    have hc := List.ne_of_not_mem_cons hs
    have hs := List.not_mem_of_not_mem_cons hs
    cases left with
    | zero =>
      rw [cons_append, isValidUtf8, if_neg (Ne.symm hc)]
      by_cases hascii : c < 0x80
      · rw [if_pos (leadingOnes_of_ascii hascii)]
        simp only [validFrom_ascii hascii]
        split
        next hprint =>
          obtain ⟨valid, hvalid, hiff⟩ := ih 0 hs
          exact ⟨valid, hvalid, by rw [hiff]; exact (and_iff_right hprint).symm⟩
        next hprint => exact ⟨false, rfl, by simp [hprint]⟩
      · rw [if_neg (mt (leadingOnes_eq_zero_iff c).mp hascii)]
        simp only [validFrom_multi hascii]
        split
        next hlength => exact ⟨false, rfl, iff_of_false Bool.false_ne_true fun h => by omega⟩
        next hlength =>
          obtain ⟨valid, hvalid, hiff⟩ := ih (leadingOnes c - 1) hs
          exact ⟨valid, hvalid, by rw [hiff]; exact (and_iff_right (by omega)).symm⟩
    | succ left =>
      rw [cons_append, isValidUtf8]
      simp only [validFrom_succ]
      split
      next hcont =>
        obtain ⟨valid, hvalid, hiff⟩ := ih left hs
        exact ⟨valid, hvalid, by rw [hiff]; exact (and_iff_right hcont).symm⟩
      next hcont => exact ⟨false, rfl, by simp [hcont]⟩

def lineEnd (crlf : Bool) : Octets := if crlf then [CR, LF] else [LF]

/-- A line that is not just blanks. -/
structure ContentLine (line : Octets) : Prop where
  no_cr : CR ∉ line
  no_lf : LF ∉ line
  content : ∃ c ∈ line, ISWHITE c = false

structure ContinuationLine (line : Octets) : Prop extends ContentLine line where
  white : ∃ c ∈ line.head?, ISWHITE c

def folds (more : List (Bool × Octets)) : Octets :=
    more.flatMap fun entry => lineEnd entry.1 ++ entry.2

/-- A line with continuation lines. -/
def Folded (s : Octets) : Prop :=
  ∃ line more, s = line ++ folds more ∧ ContentLine line ∧ ∀ entry ∈ more, ContinuationLine entry.2

def FoldedFrom (emptycontentline : Bool) (s : Octets) : Prop :=
  ∃ line more, s = line ++ folds more ∧ CR ∉ line ∧ LF ∉ line ∧
    (emptycontentline → ∃ c ∈ line, ISWHITE c = false) ∧ ∀ entry ∈ more, ContinuationLine entry.2

theorem foldedFrom_true (s : Octets) : FoldedFrom true s ↔ Folded s := by
  constructor
  · rintro ⟨line, more, hs, hcr, hlf, hcontent, hmore⟩
    exact ⟨line, more, hs, ⟨hcr, hlf, hcontent rfl⟩, hmore⟩
  · rintro ⟨line, more, hs, ⟨hcr, hlf, hcontent⟩, hmore⟩
    exact ⟨line, more, hs, hcr, hlf, fun _ => hcontent, hmore⟩

theorem folds_cons (crlf : Bool) (line : Octets) (more : List (Bool × Octets)) :
    folds ((crlf, line) :: more) = lineEnd crlf ++ (line ++ folds more) := by
  rw [folds, List.flatMap_cons, ← folds, List.append_assoc]

theorem foldedFrom_nil (emptycontentline : Bool) : FoldedFrom emptycontentline [] ↔
    emptycontentline = false := by
  constructor
  · rintro ⟨line, more, hs, -, -, hcontent, -⟩
    rw [(List.append_eq_nil_iff.mp hs.symm).1] at hcontent
    cases emptycontentline with
    | false => rfl
    | true =>
      obtain ⟨c, hc, -⟩ := hcontent rfl
      cases hc
  · rintro rfl
    exact ⟨[], [], rfl, not_mem_nil, not_mem_nil, nofun, forall_mem_nil _⟩

theorem foldedFrom_cons {c : UInt8} (hcr : c ≠ CR) (hlf : c ≠ LF) (emptycontentline : Bool)
    (s : Octets) :
    FoldedFrom emptycontentline (c :: s) ↔ FoldedFrom (emptycontentline && ISWHITE c) s := by
  constructor
  · rintro ⟨_ | ⟨d, line⟩, more, hs, hcr', hlf', hcontent, hmore⟩
    · -- The octet is not the start of a line end.
      obtain _ | ⟨⟨crlf, line⟩, more⟩ := more
      · cases hs
      · rw [List.nil_append, folds_cons] at hs
        cases crlf with
        | true => exact absurd (List.cons.inj hs).1 hcr
        | false => exact absurd (List.cons.inj hs).1 hlf
    · cases hs
      refine ⟨line, more, rfl, List.not_mem_of_not_mem_cons hcr', List.not_mem_of_not_mem_cons hlf',
        fun hempty => ?_, hmore⟩
      obtain ⟨hempty, hwhite⟩ := Bool.and_eq_true_iff.mp hempty
      obtain ⟨d, hd, hnot⟩ := hcontent hempty
      obtain rfl | hd := List.mem_cons.mp hd
      · exact absurd hwhite (Bool.not_eq_true _ ▸ hnot)
      · exact ⟨d, hd, hnot⟩
  · rintro ⟨line, more, rfl, hcr', hlf', hcontent, hmore⟩
    refine ⟨c :: line, more, rfl, ?_, ?_, fun hempty => ?_, hmore⟩
    · exact List.not_mem_cons_of_ne_of_not_mem (Ne.symm hcr) hcr'
    · exact List.not_mem_cons_of_ne_of_not_mem (Ne.symm hlf) hlf'
    · cases hwhite : ISWHITE c with
      | false => exact ⟨c, mem_cons_self, hwhite⟩
      | true =>
        obtain ⟨d, hd, hnot⟩ := hcontent (by rw [hempty, hwhite]; rfl)
        exact ⟨d, mem_cons_of_mem _ hd, hnot⟩

theorem foldedFrom_lineEnd (crlf emptycontentline : Bool) (s : Octets) :
    FoldedFrom emptycontentline (lineEnd crlf ++ s) ↔
      emptycontentline = false ∧ (∃ c ∈ s.head?, ISWHITE c) ∧ FoldedFrom true s := by
  constructor
  · rintro ⟨line, more, hs, hcr, hlf, hcontent, hmore⟩
    have hline : line = [] := by
      obtain _ | ⟨d, line⟩ := line
      · rfl
      · cases crlf with
        | true => exact absurd ((List.cons.inj hs).1 ▸ mem_cons_self) hcr
        | false => exact absurd ((List.cons.inj hs).1 ▸ mem_cons_self) hlf
    subst hline
    obtain _ | ⟨⟨crlf', line⟩, more⟩ := more
    · cases crlf <;> cases hs
    · rw [List.nil_append, folds_cons] at hs
      obtain ⟨hmore', hrest⟩ := forall_mem_cons.mp hmore
      have hs' : s = line ++ folds more := by
        cases crlf <;> cases crlf' <;> simp_all [lineEnd, CR, LF]
      refine ⟨?_, ?_, line, more, hs', hmore'.no_cr, hmore'.no_lf, fun _ => hmore'.content, hrest⟩
      · cases emptycontentline with
        | false => rfl
        | true =>
          obtain ⟨c, hc, -⟩ := hcontent rfl
          cases hc
      · obtain ⟨c, hc, hwhite⟩ := hmore'.white
        exact ⟨c, by rw [hs', List.head?_append, Option.mem_def.mp hc]; rfl, hwhite⟩
  · rintro ⟨rfl, ⟨c, hc, hwhite⟩, line, more, rfl, hcr, hlf, hcontent, hmore⟩
    have hcontent := hcontent rfl
    refine ⟨[], (crlf, line) :: more,
      by rw [List.nil_append, folds_cons], not_mem_nil, not_mem_nil, nofun,
      forall_mem_cons.mpr ⟨⟨⟨hcr, hlf, hcontent⟩, c, ?_, hwhite⟩, hmore⟩⟩
    obtain _ | ⟨d, line⟩ := line
    · obtain ⟨d, hd, -⟩ := hcontent
      cases hd
    · exact hc

theorem not_foldedFrom_cr {s : Octets} (hs : s.head? ≠ some LF) (emptycontentline : Bool) :
    ¬FoldedFrom emptycontentline (CR :: s) := by
  rintro ⟨_ | ⟨d, line⟩, more, heq, hcr, -⟩
  · obtain _ | ⟨⟨crlf, line⟩, more⟩ := more
    · cases heq
    · rw [List.nil_append, folds_cons] at heq
      cases crlf with
      | true => exact hs (by rw [(List.cons.inj heq).2]; rfl)
      | false => exact absurd (List.cons.inj heq).1 (by decide)
  · exact absurd ((List.cons.inj heq).1 ▸ mem_cons_self) hcr

theorem foldsTo_spec (emptycontentline : Bool) (s : Octets) :
    ∃ goes, foldsTo emptycontentline (s ++ [0]) = .ok goes ∧
      (goes ↔ emptycontentline = false ∧ ∃ c ∈ s.head?, ISWHITE c) := by
  cases s with
  | nil => exact ⟨_, rfl, by cases emptycontentline <;> simp [show ISWHITE 0 = false from rfl]⟩
  | cons c s => exact ⟨_, rfl, by cases emptycontentline <;> simp⟩

theorem foldsTo_bind {emptycontentline : Bool} {s : Octets} {next : Except Unit Bool}
    {valid : Bool} (crlf : Bool) (hnext : next = .ok valid) (hvalid : valid ↔ FoldedFrom true s) :
    ∃ found, (foldsTo emptycontentline (s ++ [0]) >>= fun goes =>
      if goes then next else .ok false) = .ok found ∧
      (found ↔ FoldedFrom emptycontentline (lineEnd crlf ++ s)) := by
  obtain ⟨goes, hgoes, hiff⟩ := foldsTo_spec emptycontentline s
  simp only [hgoes, foldedFrom_lineEnd, bind, Except.bind, hnext]
  cases goes with
  | true =>
    obtain ⟨hempty, hwhite⟩ := hiff.mp rfl
    exact ⟨valid, rfl, hvalid.trans ⟨fun h => ⟨hempty, hwhite, h⟩, fun h => h.2.2⟩⟩
  | false => exact ⟨false, rfl, iff_of_false Bool.false_ne_true fun h =>
      Bool.false_ne_true (hiff.mpr ⟨h.1, h.2.1⟩)⟩

theorem bodyFrom_spec {before : UInt8} (hbefore : before ≠ CR) (emptycontentline : Bool)
    {s : Octets} (hs : 0 ∉ s) :
    ∃ valid, bodyFrom (some before) (s ++ [0]) emptycontentline = .ok valid ∧
      (valid ↔ FoldedFrom emptycontentline s) := by
  induction hlength :
    s.length using Nat.strong_induction_on generalizing before emptycontentline s with
  | _ n ih =>
    subst hlength
    obtain _ | ⟨c, s⟩ := s
    · exact ⟨!emptycontentline, rfl, by rw [foldedFrom_nil, Bool.not_eq_true']⟩
    have hc := List.ne_of_not_mem_cons hs
    have hrest := List.not_mem_of_not_mem_cons hs
    rw [cons_append, bodyFrom.eq_def]
    dsimp only
    rw [if_neg (Ne.symm hc)]
    split
    next hwhite =>
      have hne : c ≠ CR ∧ c ≠ LF := by
        refine ⟨?_, ?_⟩ <;> rintro rfl <;> exact absurd hwhite (by decide)
      obtain ⟨valid, hvalid, hiff⟩ := ih _ (Nat.lt_succ_self _) hne.1 emptycontentline hrest rfl
      exact ⟨valid, hvalid, by rw [hiff, foldedFrom_cons hne.1 hne.2, hwhite, Bool.and_true]⟩
    next hwhite =>
      split
      next hlf =>
        subst hlf
        obtain ⟨valid, hvalid, hiff⟩ :=
          ih _ (Nat.lt_succ_self _) (show LF ≠ CR by decide) true hrest rfl
        exact foldsTo_bind false hvalid hiff
      next hlf =>
        split
        next hcr =>
          subst hcr
          obtain _ | ⟨d, s⟩ := s
          · exact ⟨false, rfl, iff_of_false Bool.false_ne_true (not_foldedFrom_cr (by simp) _)⟩
          rw [cons_append]
          dsimp only
          split
          next hlf =>
            subst hlf
            obtain ⟨valid, hvalid, hiff⟩ :=
              ih _ (Nat.lt_succ_of_lt (Nat.lt_succ_self _)) (show LF ≠ CR by decide) true
              (List.not_mem_of_not_mem_cons hrest) rfl
            exact foldsTo_bind true hvalid hiff
          next hlf =>
            refine ⟨false, rfl, iff_of_false Bool.false_ne_true (not_foldedFrom_cr ?_ _)⟩
            exact fun h => hlf (Option.some.inj h)
        next hcr =>
          obtain ⟨valid, hvalid, hiff⟩ := ih _ (Nat.lt_succ_self _) hcr false hrest rfl
          have hfalse : ISWHITE c = false := Bool.eq_false_iff.mpr hwhite
          exact ⟨valid, hvalid, by rw [hiff, foldedFrom_cons hcr hlf, hfalse, Bool.and_false]⟩

/-- A folded body of UTF-8, with something visible in each line. -/
structure ValidBody (s : Octets) : Prop where
  nonempty : s ≠ []
  utf8 : ValidUtf8 s
  printable : Printable s
  folded : Folded s

theorem IsValidHeaderBody_ok {before : UInt8} (hbefore : before ≠ CR) {s : Octets} (hs : 0 ∉ s) :
    ∃ valid, IsValidHeaderBody (some before) (s ++ [0]) = .ok valid ∧ (valid ↔ ValidBody s) := by
  obtain ⟨valid, hvalid, hutf8⟩ := isValidUtf8_spec 0 hs
  obtain ⟨found, hfound, hfolded⟩ := bodyFrom_spec hbefore true hs
  rw [validFrom_zero] at hutf8
  rw [foldedFrom_true] at hfolded
  cases hcons : s with
  | nil => exact ⟨false, rfl, iff_of_false Bool.false_ne_true fun h => h.nonempty rfl⟩
  | cons c s' =>
    have hc : ¬c = 0 := fun h => hs (by rw [hcons, h]; exact mem_cons_self)
    rw [← hcons]
    have hrun : IsValidHeaderBody (some before) (s ++ [0]) = .ok (valid && found) := by
      rw [hcons, cons_append] at hvalid hfound ⊢
      rw [IsValidHeaderBody, if_neg hc, hvalid]
      cases valid with
      | true => exact hfound
      | false => rfl
    refine ⟨valid && found, hrun, ?_⟩
    rw [Bool.and_eq_true, hutf8, hfolded]
    exact ⟨fun h => ⟨by rw [hcons]; exact List.cons_ne_nil _ _, h.1.1, h.1.2, h.2⟩,
      fun h => ⟨⟨h.utf8, h.printable⟩, h.folded⟩⟩

/-- The body of a header field, behind an octet that can be read and is no CR, is valid when it is
non-empty, is made of printable characters, and folds into lines with content. -/
theorem IsValidHeaderBody_iff {before : UInt8} (hbefore : before ≠ CR) {s : Octets} (hs : 0 ∉ s) :
    ∃ valid, IsValidHeaderBody (some before) (s ++ [0]) = .ok valid ∧
      (valid ↔ s ≠ [] ∧ (ValidUtf8 s ∧ Printable s) ∧ Folded s) := by
  obtain ⟨valid, hvalid, hiff⟩ := IsValidHeaderBody_ok hbefore hs
  exact ⟨valid, hvalid, hiff.trans ⟨fun h => ⟨h.nonempty, ⟨h.utf8, h.printable⟩, h.folded⟩,
    fun h => ⟨h.1, h.2.1.1, h.2.1.2, h.2.2⟩⟩⟩

/-- Lines that end with CR LF and with LF, and a CR inside of a line. -/
theorem IsValidHeaderBody_folded :
    (IsValidHeaderBody (some 32) [97, 13, 10, 32, 98, 10, 9, 99, 0] = .ok true ∧
        Folded [97, 13, 10, 32, 98, 10, 9, 99]) ∧
      IsValidHeaderBody (some 32) [97, 13, 98, 0] = .ok false ∧ ¬Folded [97, 13, 98] := by
  obtain ⟨valid, hvalid, hiff⟩ :=
    @IsValidHeaderBody_iff 32 (by decide) [97, 13, 10, 32, 98, 10, 9, 99] (by decide)
  obtain ⟨valid', hvalid', hiff'⟩ := @IsValidHeaderBody_iff 32 (by decide) [97, 13, 98] (by decide)
  have hfolded : IsValidHeaderBody (some 32) [97, 13, 10, 32, 98, 10, 9, 99, 0] = .ok true := rfl
  have hinside : IsValidHeaderBody (some 32) [97, 13, 98, 0] = .ok false := rfl
  obtain rfl := Except.ok.inj (hfolded.symm.trans hvalid)
  obtain rfl := Except.ok.inj (hinside.symm.trans hvalid')
  refine ⟨⟨hfolded, (hiff.mp rfl).2.2⟩, hinside,
    fun h => Bool.false_ne_true (hiff'.mpr ⟨by decide, ⟨?_, ?_⟩, h⟩)⟩
  · refine ⟨[[97], [13], [98]], ?_, rfl⟩
    simp only [forall_mem_cons, not_mem_nil, false_implies, implies_true, and_true]
    exact ⟨.ascii 97 (by decide), .ascii 13 (by decide), .ascii 98 (by decide)⟩
  · intro c hc _
    simp only [List.mem_cons, not_mem_nil, or_false] at hc
    rcases hc with rfl | rfl | rfl <;> decide

/-- A control character is valid UTF-8, and is not accepted. -/
theorem not_IsValidHeaderBody_iff : ¬∀ (before : UInt8) (s : Octets), 0 ∉ s →
    (IsValidHeaderBody (some before) (s ++ [0]) = .ok true ↔ s ≠ [] ∧ ValidUtf8 s ∧ Folded s) := by
  intro hall
  have hutf8 : ValidUtf8 [97, 3, 98] := by
    refine ⟨[[97], [3], [98]], ?_, rfl⟩
    simp only [forall_mem_cons, not_mem_nil, false_implies, implies_true, and_true]
    exact ⟨.ascii 97 (by decide), .ascii 3 (by decide), .ascii 98 (by decide)⟩
  have hfolded : Folded [97, 3, 98] :=
    ⟨[97, 3, 98], [], rfl, ⟨by decide, by decide, 97, by decide, by decide⟩, forall_mem_nil _⟩
  exact absurd ((hall 32 [97, 3, 98] (by decide)).mpr ⟨by decide, hutf8, hfolded⟩) (by decide)

end Inn.Lib.Headers
