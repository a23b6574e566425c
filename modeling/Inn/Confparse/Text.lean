import Inn.Confparse.Reader

/-!
# The tokens of a text

The same tokens, of a text that is all there. A NUL in it is an error.
-/

namespace Inn.Confparse

/-- The reader of the specification: what is left of the file. -/
structure Text where
  text : Octets
  started : Bool
  deriving DecidableEq, Repr

namespace Text

inductive Blank
  | white | comment | cr
  deriving DecidableEq

def blanks : Blank → Octets → Nat → Except TokenType (Octets × Nat)
  | _, [], _ => .error .EOF
  | blank, c :: text, line =>
    if blank = .comment then
      if inLine c then blanks .comment text line
      else if c = 0 then .error .ERROR
      else blanks (if c = LF then .white else .cr) text (line + 1)
    else if blank = .cr ∧ c = LF then blanks .white text line
    else if ISWHITE c then blanks .white text line
    else if c = 35 then blanks .comment text line
    else if c = 0 then .error .ERROR
    else .ok (c :: text, line)

def stringEnd : Bool → Octets → Nat → Option (Nat × Bool)
  | colon, [], n => some (n, colon)
  | colon, c :: text, n =>
    if endsString c then some (n, colon)
    else if badString c then none
    else if c = 58 then if colon then none else stringEnd true text (n + 1)
    else if c = 0 then none
    else if colon then none
    else stringEnd false text (n + 1)

inductive Quoted
  | plain | escaped | cr
  deriving DecidableEq

def quotedEnd : Quoted → Octets → Nat → Nat → Except Fault (Option (Nat × Nat))
  | quoted, [], _, _ => if quoted = .escaped then .error .slip else .ok none
  | quoted, c :: text, n, line =>
    if c = 0 then .ok none
    else if quoted = .escaped then
      if c = LF then quotedEnd .plain text (n + 1) (line + 1)
      else if c = CR then quotedEnd .cr text (n + 1) (line + 1)
      else quotedEnd .plain text (n + 1) line
    else if quoted = .cr ∧ c = LF then quotedEnd .plain text (n + 1) line
    else if c = 34 then .ok (some (n + 1, line))
    else if c = CR ∨ c = LF then .ok none
    else quotedEnd (if c = 92 then .escaped else .plain) text (n + 1) line

end Text

def ConfigFile.found (f : ConfigFile Text) (type : TokenType) (string text : Octets) :
    ConfigFile Text :=
  { f with reader := ⟨text, true⟩, type := type, string := string }

def ConfigFile.ended {ρ : Type} (f : ConfigFile ρ) (type : TokenType) : ConfigFile ρ :=
    { f with type }

def Text.newlines (f : ConfigFile Text) (blank : Text.Blank) (text : Octets) (line : Nat) :
    ConfigFile Text :=
  match Text.blanks blank text line with
  | .error type => f.ended type
  | .ok (text, line) => { f with line }.found .CRLF [] text

def Text.stringToken (f : ConfigFile Text) (text : Octets) (colon : Bool) (i : Nat) :
    ConfigFile Text :=
  match Text.stringEnd colon (text.drop i) i with
  | none => f.ended .ERROR
  | some (n, colon) => f.found (if colon then .PARAM else .STRING)
      (text.take (n - if colon then 1 else 0)) (text.drop n)

def Text.quotedToken (f : ConfigFile Text) (text : Octets) (quoted : Quoted) (i line : Nat) :
    Except Fault (ConfigFile Text) := do
  match ← Text.quotedEnd quoted (text.drop i) i line with
  | none => .ok (f.ended .ERROR)
  | some (n, line) => .ok ({ f with line }.found .QSTRING (text.take n) (text.drop n))

def Text.tokenHere (f : ConfigFile Text) (c : UInt8) (text : Octets) :
    Except Fault (ConfigFile Text) :=
  match simpleType c with
  | some type => .ok (f.found type [] text)
  | none =>
    if c = CR ∨ c = LF then .ok (newlines f (if c = LF then .white else .cr) text (f.line + 1))
    else if c = 34 then quotedToken f (c :: text) .plain 1 f.line
    else .ok (stringToken f (c :: text) false 0)

def Text.tokenNext (f : ConfigFile Text) : Except Fault (ConfigFile Text) :=
  match f.reader.text.dropWhile ISWHITE with
  | [] => .ok (f.ended .EOF)
  | c :: text =>
    if c = 0 then .ok (f.ended .ERROR)
    else if f.reader.started = false ∧ c = 35 then .ok (newlines f .comment text f.line)
    else tokenHere f c text

section Progress

variable {g g' : ConfigFile Text} {text : Octets}

def Remains (text rest : Octets) : Prop := ∃ front, text = front ++ rest ∧ 0 ∉ front

theorem Remains.refl (text : Octets) : Remains text text := ⟨[], rfl, List.not_mem_nil⟩

theorem Remains.cons {rest : Octets} (h : Remains text rest) {c : UInt8} (hc : c ≠ 0) :
    Remains (c :: text) rest := by
  obtain ⟨front, rfl, hplain⟩ := h
  refine ⟨c :: front, rfl, fun hmem => ?_⟩
  obtain rfl | hmem := List.mem_cons.mp hmem
  · exact hc rfl
  · exact hplain hmem

theorem Remains.length_le {rest : Octets} (h : Remains text rest) : rest.length ≤ text.length := by
  obtain ⟨front, rfl, -⟩ := h
  rw [List.length_append]
  exact Nat.le_add_left _ _

theorem Remains.mem {rest : Octets} (h : Remains text rest) : 0 ∈ text ↔ 0 ∈ rest := by
  obtain ⟨front, rfl, hplain⟩ := h
  rw [List.mem_append, or_iff_right hplain]

theorem remains_dropWhile {p : UInt8 → Bool} (hpass : p 0 = false) (text : Octets) :
    Remains text (text.dropWhile p) := by
  refine ⟨text.takeWhile p, (List.takeWhile_append_dropWhile).symm, fun hmem => ?_⟩
  have h := List.mem_takeWhile_imp hmem
  rw [hpass] at h
  cases h

theorem blanks_remains (blank : Text.Blank) (text : Octets) (line : Nat) :
    match Text.blanks blank text line with
    | .error type => type = .ERROR ∨ type = .EOF ∧ Remains text []
    | .ok (rest, _) => Remains text rest := by
  induction text generalizing blank line with
  | nil => exact .inr ⟨rfl, .refl []⟩
  | cons c text ih =>
    have hnext (blank : Text.Blank) (line : Nat) (hc : c ≠ 0) :
        match Text.blanks blank text line with
        | .error type => type = .ERROR ∨ type = .EOF ∧ Remains (c :: text) []
        | .ok (rest, _) => Remains (c :: text) rest := by
      have hrest := ih blank line
      split at hrest
      · exact hrest.imp_right fun h => ⟨h.1, h.2.cons hc⟩
      · exact hrest.cons hc
    rw [Text.blanks]
    by_cases hcomment : blank = .comment
    · rw [if_pos hcomment]
      by_cases hline : inLine c = true
      · rw [if_pos hline]
        exact hnext _ _ (by rintro rfl; exact absurd hline (by decide))
      rw [if_neg hline]
      by_cases hc : c = 0
      · rw [if_pos hc]
        exact .inl rfl
      · rw [if_neg hc]
        exact hnext _ _ hc
    rw [if_neg hcomment]
    by_cases hlf : blank = .cr ∧ c = LF
    · rw [if_pos hlf]
      exact hnext _ _ (by rw [hlf.2]; decide)
    rw [if_neg hlf]
    by_cases hwhite : ISWHITE c = true
    · rw [if_pos hwhite]
      exact hnext _ _ (by rintro rfl; exact absurd hwhite (by decide))
    rw [if_neg hwhite]
    by_cases hsharp : c = 35
    · rw [if_pos hsharp]
      exact hnext _ _ (by rw [hsharp]; decide)
    rw [if_neg hsharp]
    by_cases hc : c = 0
    · rw [if_pos hc]
      exact .inl rfl
    · rw [if_neg hc]
      exact .refl _

theorem stringEnd_remains {colon colon' : Bool} {n m : Nat}
    (hend : Text.stringEnd colon text n = some (m, colon')) :
    n ≤ m ∧ Remains text (text.drop (m - n)) := by
  induction text generalizing colon n with
  | nil =>
    obtain ⟨rfl, -⟩ := Prod.mk.inj (Option.some.inj hend)
    rw [Nat.sub_self]
    exact ⟨Nat.le_refl _, .refl []⟩
  | cons c text ih =>
    have hnext (colon : Bool) (hend : Text.stringEnd colon text (n + 1) = some (m, colon'))
        (hc : c ≠ 0) :
        n ≤ m ∧ Remains (c :: text) ((c :: text).drop (m - n)) := by
      obtain ⟨hle, hremains⟩ := ih hend
      refine ⟨by omega, ?_⟩
      rw [show m - n = m - (n + 1) + 1 by omega, List.drop_succ_cons]
      exact hremains.cons hc
    rw [Text.stringEnd] at hend
    split at hend
    · obtain ⟨rfl, -⟩ := Prod.mk.inj (Option.some.inj hend)
      rw [Nat.sub_self]
      exact ⟨Nat.le_refl _, .refl _⟩
    split at hend
    · cases hend
    split at hend
    next hcolon =>
      split at hend
      · cases hend
      · exact hnext _ hend (by rw [hcolon]; decide)
    split at hend
    · cases hend
    next hc =>
      split at hend
      · cases hend
      · exact hnext _ hend hc

theorem stringEnd_pos {colon : Bool} {c : UInt8} {m : Nat} (hgoes : endsString c = false)
    (hend : Text.stringEnd false (c :: text) 0 = some (m, colon)) : 0 < m := by
  rw [Text.stringEnd, if_neg (by rw [hgoes]; exact Bool.false_ne_true)] at hend
  split at hend
  · cases hend
  split at hend
  · rw [if_neg Bool.false_ne_true] at hend
    exact (stringEnd_remains hend).1
  split at hend
  · cases hend
  · rw [if_neg Bool.false_ne_true] at hend
    exact (stringEnd_remains hend).1

theorem quotedEnd_remains {quoted : Text.Quoted} {n m line line' : Nat}
    (hend : Text.quotedEnd quoted text n line = .ok (some (m, line'))) :
    n ≤ m ∧ Remains text (text.drop (m - n)) := by
  induction text generalizing quoted n line with
  | nil =>
    rw [Text.quotedEnd] at hend
    split at hend <;> cases hend
  | cons c text ih =>
    rw [Text.quotedEnd] at hend
    by_cases hc : c = 0
    · rw [if_pos hc] at hend
      cases hend
    rw [if_neg hc] at hend
    have hnext (quoted : Text.Quoted) (line : Nat) (hend : Text.quotedEnd quoted text (n + 1) line =
        .ok (some (m, line'))) :
        n ≤ m ∧ Remains (c :: text) ((c :: text).drop (m - n)) := by
      obtain ⟨hle, hremains⟩ := ih hend
      refine ⟨by omega, ?_⟩
      rw [show m - n = m - (n + 1) + 1 by omega, List.drop_succ_cons]
      exact hremains.cons hc
    repeat' split at hend
    all_goals first
      | exact hnext _ _ hend
      | cases hend
        rw [Nat.add_sub_cancel_left]
        exact ⟨Nat.le_succ n, (Remains.refl text).cons hc⟩
      | cases hend

def Progress (text : Octets) (g : ConfigFile Text) : Prop :=
  g.type = .ERROR ∨ (g.type = .EOF ∧ 0 ∉ text) ∨
    g.type ≠ .EOF ∧ g.reader.text.length < text.length ∧ (0 ∈ text ↔ 0 ∈ g.reader.text)

theorem Remains.progress {rest : Octets} (h : Remains text rest)
    (hlength : rest.length < text.length) {type : TokenType}
    (htype : type ≠ .EOF) (string : Octets) : Progress text (g.found type string rest) :=
  .inr (.inr ⟨htype, hlength, h.mem⟩)

theorem simpleType_ne {c : UInt8} {type : TokenType} (hsimple : simpleType c = some type) :
    type ≠ .EOF := by
  rintro rfl
  rw [simpleType] at hsimple
  repeat' split at hsimple
  all_goals cases hsimple

theorem newlines_progress {rest : Octets} (hrest : Remains text rest)
    (hlength : rest.length < text.length) (blank : Text.Blank)
    (line : Nat) : Progress text (Text.newlines g blank rest line) := by
  have hblanks := blanks_remains blank rest line
  rw [Text.newlines]
  split
  next heq =>
    rw [heq] at hblanks
    obtain herror | ⟨hend, hremains⟩ := hblanks
    · exact .inl herror
    · exact .inr (.inl ⟨hend,
        fun hnul => absurd (hremains.mem.mp (hrest.mem.mp hnul)) List.not_mem_nil⟩)
  next heq =>
    rw [heq] at hblanks
    exact .inr (.inr ⟨nofun, Nat.lt_of_le_of_lt hblanks.length_le hlength,
      hrest.mem.trans hblanks.mem⟩)

theorem Progress.of_remains {rest : Octets} (h : Progress rest g) (hrest : Remains text rest) :
    Progress text g := by
  obtain herror | ⟨hend, hnul⟩ | ⟨hstarted, hlength, hmem⟩ := h
  · exact .inl herror
  · exact .inr (.inl ⟨hend, fun h => hnul (hrest.mem.mp h)⟩)
  · exact .inr (.inr ⟨hstarted, Nat.lt_of_lt_of_le hlength hrest.length_le, hrest.mem.trans hmem⟩)

theorem tokenHere_progress {c : UInt8} {rest : Octets} (hc : c ≠ 0) (hwhite : ISWHITE c = false)
    (hnext : Text.tokenHere g c rest = .ok g') : Progress (c :: rest) g' := by
  have hrest : Remains (c :: rest) rest := (Remains.refl rest).cons hc
  have hlength : rest.length < (c :: rest).length := Nat.lt_succ_self _
  rw [Text.tokenHere] at hnext
  split at hnext
  · cases hnext
    exact hrest.progress hlength (simpleType_ne ‹_›) _
  next hsimple =>
    split at hnext
    · cases hnext
      exact newlines_progress hrest hlength _ _
    next hnewline =>
      split at hnext
      · rw [Text.quotedToken] at hnext
        cases hend : Text.quotedEnd .plain ((c :: rest).drop 1) 1 g.line with
        | error fault =>
          rw [hend] at hnext
          cases hnext
        | ok found =>
          rw [hend] at hnext
          cases found with
          | none =>
            cases hnext
            exact .inl rfl
          | some found =>
            obtain ⟨m, line⟩ := found
            cases hnext
            obtain ⟨hle, hremains⟩ := quotedEnd_remains hend
            rw [List.drop_drop, show 1 + (m - 1) =
              m by omega, List.drop_one, List.tail_cons] at hremains
            exact (hremains.cons hc).progress (Nat.lt_succ_of_le hremains.length_le)
              (show TokenType.QSTRING ≠ .EOF by decide) _
      · cases hnext
        rw [Text.stringToken, List.drop_zero]
        cases hend : Text.stringEnd false (c :: rest) 0 with
        | none => exact .inl rfl
        | some found =>
          obtain ⟨m, colon⟩ := found
          have hgoes : endsString c = false := by
            by_contra hends
            rw [Bool.not_eq_false] at hends
            simp only [endsString, Bool.or_eq_true, decide_eq_true_eq] at hends
            simp only [ISWHITE, Bool.or_eq_false_iff, decide_eq_false_iff_not] at hwhite
            rw [not_or] at hnewline
            obtain (((((h | h) | h) | h) | h) | h) | h := hends
            · exact hwhite.2 h
            · exact hnewline.1 h
            · exact hnewline.2 h
            · exact hwhite.1 h
            all_goals
              subst h
              exact absurd hsimple (by decide)
          obtain ⟨-, hremains⟩ := stringEnd_remains hend
          have hpos := stringEnd_pos hgoes hend
          rw [Nat.sub_zero] at hremains
          refine hremains.progress ?_ (by split <;> nofun) _
          rw [List.length_drop, List.length_cons]
          omega

theorem tokenNext_progress (hnext : Text.tokenNext g = .ok g') : Progress g.reader.text g' := by
  have hremains := remains_dropWhile (p := ISWHITE) (by decide) g.reader.text
  rw [Text.tokenNext] at hnext
  cases hrest : g.reader.text.dropWhile ISWHITE with
  | nil =>
    rw [hrest] at hnext hremains
    cases hnext
    exact .inr (.inl ⟨rfl, fun hnul => absurd (hremains.mem.mp hnul) List.not_mem_nil⟩)
  | cons c rest =>
    rw [hrest] at hnext hremains
    refine Progress.of_remains ?_ hremains
    dsimp only at hnext
    split at hnext
    · cases hnext
      exact .inl rfl
    next hc =>
      split at hnext
      · cases hnext
        exact newlines_progress ((Remains.refl rest).cons hc) (Nat.lt_succ_self _) _ _
      · refine tokenHere_progress hc ?_ hnext
        have hhead := List.head?_dropWhile_not ISWHITE g.reader.text
        rw [hrest] at hhead
        simpa using hhead

end Progress

end Inn.Confparse
