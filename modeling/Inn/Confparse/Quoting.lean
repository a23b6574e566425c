import Inn.Confparse.Parser
import Inn.Confparse.Tokens

/-!
# Quoted strings

The lexer looks for the end of a quoted string, and `token_unquote_string` takes what is between the
quotes apart once more. Both see the same octets, escapes and escaped ends of lines in it, but the
second knows of one kind of line end only.
-/

namespace Inn.Confparse

open Foundation.Careful
open List (forall_mem_cons length_append cons_append)

inductive Piece
  | octet (c : UInt8)
  | escape (c : UInt8)
  | escapedLF
  | escapedCR
  | escapedCRLF
  deriving DecidableEq

namespace Piece

def text : Piece → Octets
  | octet c => [c]
  | escape c => [92, c]
  | escapedLF => [92, LF]
  | escapedCR => [92, CR]
  | escapedCRLF => [92, CR, LF]

def Proper : Piece → Prop
  | octet c => c ≠ 0 ∧ c ≠ 34 ∧ c ≠ 92 ∧ c ≠ CR ∧ c ≠ LF
  | escape c => c ≠ 0 ∧ c ≠ CR ∧ c ≠ LF
  | _ => True

end Piece

def cEscapes : List (UInt8 × UInt8) :=
  [(97, 7), (98, 8), (102, 12), (110, 10), (114, 13), (116, 9), (118, 11), (92, 92), (39, 39),
    (34, 34), (63, 63)]

namespace Piece

/-- The pieces that `token_unquote_string` has a case for. -/
def Known : Piece → Prop
  | escape c => (cEscapes.lookup c).isSome
  | escapedCR => False
  | escapedCRLF => False
  | _ => True

instance : DecidablePred Known
  | octet _ => inferInstanceAs (Decidable True)
  | escape c => inferInstanceAs (Decidable ((cEscapes.lookup c).isSome = true))
  | escapedLF => inferInstanceAs (Decidable True)
  | escapedCR => inferInstanceAs (Decidable False)
  | escapedCRLF => inferInstanceAs (Decidable False)

def value : Piece → Octets
  | octet c => [c]
  | escape c => (cEscapes.lookup c).toList
  | _ => []

def HasCR (piece : Piece) : Prop := piece = escapedCR ∨ piece = escapedCRLF

end Piece

/-- The escapes that give the number of a character. -/
inductive Numeral
  | octal
  | x
  | u
  | U
  deriving DecidableEq

namespace Numeral

def letter : Numeral → Octets
  | octal => []
  | x => [120]
  | u => [117]
  | U => [85]

def isOctalDigit (c : UInt8) : Bool := 48 ≤ c && c ≤ 55

def isHexDigit (c : UInt8) : Bool := (48 ≤ c && c ≤ 57) || (65 ≤ c && c ≤ 70) || (97 ≤ c && c ≤ 102)

def Digits (digits : Octets) : Numeral → Prop
  | octal => (1 ≤ digits.length ∧ digits.length ≤ 3) ∧ ∀ c ∈ digits, isOctalDigit c
  | x => digits ≠ [] ∧ ∀ c ∈ digits, isHexDigit c
  | u => digits.length = 4 ∧ ∀ c ∈ digits, isHexDigit c
  | U => digits.length = 8 ∧ ∀ c ∈ digits, isHexDigit c

def digit (c : UInt8) : Nat :=
    if c ≤ 57 then c.toNat - 48 else if c ≤ 70 then c.toNat - 55 else c.toNat - 87

def number (base : Nat) (digits : Octets) : Nat := digits.foldl (fun n c => n * base + digit c) 0

def utf8 (n : Nat) : Octets :=
  if n < 0x80 then [.ofNat n]
  else if n < 0x800 then [.ofNat (0xC0 + n / 0x40), .ofNat (0x80 + n % 0x40)]
  else if n < 0x10000 then
    [.ofNat (0xE0 + n / 0x1000), .ofNat (0x80 + n / 0x40 % 0x40), .ofNat (0x80 + n % 0x40)]
  else
    [.ofNat (0xF0 + n / 0x40000), .ofNat (0x80 + n / 0x1000 % 0x40),
      .ofNat (0x80 + n / 0x40 % 0x40),
      .ofNat (0x80 + n % 0x40)]

def value (digits : Octets) : Numeral → Octets
  | octal => [.ofNat (number 8 digits)]
  | x => [.ofNat (number 16 digits)]
  | u | U => utf8 (number 16 digits)

end Numeral

/-- What a quoted string is made of according to the documentation of the syntax: an octal and a
hexadecimal escape stand for an octet, one with `u` or `U` for a character in UTF-8. -/
inductive Item
  | piece (p : Piece)
  | numeral (kind : Numeral) (digits : Octets)
  deriving DecidableEq

namespace Item

def pieces : Item → List Piece
  | piece p => [p]
  | numeral kind digits =>
    match kind.letter ++ digits with
    | [] => []
    | c :: rest => .escape c :: rest.map .octet

def Documented : Item → Prop
  | piece (.escape c) => (cEscapes.lookup c).isSome
  | piece _ => True
  | numeral kind digits => kind.Digits digits

def value : Item → Octets
  | piece p => p.value
  | numeral kind digits => kind.value digits

/-- Neither a line end with a CR that is escaped nor the number of a character. -/
def Simple : Item → Prop
  | piece p => ¬p.HasCR
  | numeral _ _ => False

end Item

def textOf (pieces : List Piece) : Octets := pieces.flatMap Piece.text

def valueOf (pieces : List Piece) : Octets := pieces.flatMap Piece.value

def quoted (pieces : List Piece) : Octets := 34 :: (textOf pieces ++ [34])

def allocated (raw : Octets) : Nat := raw.length - 2 + 1

def Unquotes (raw value : Octets) : Prop :=
    tokenUnquoteString raw = some value ∧ value.length + 1 ≤ allocated raw

section Lexing

variable {text : Octets} {n m line line' : Nat}

theorem textOf_cons (piece : Piece) (pieces : List Piece) :
    textOf (piece :: pieces) = piece.text ++ textOf pieces :=
  List.flatMap_cons ..

/-- The end of a quoted string is the first unescaped quote. -/
def Scanned (text : Octets) (n m : Nat) : Prop :=
  ∃ pieces rest, text = textOf pieces ++ 34 :: rest ∧ (∀ piece ∈ pieces, piece.Proper) ∧
    m = n + (textOf pieces).length + 1

theorem Scanned.cons {rest : Octets} (piece : Piece) (hproper : piece.Proper)
    (h : Scanned rest (n + piece.text.length) m) :
    Scanned (piece.text ++ rest) n m := by
  obtain ⟨pieces, rest, rfl, hpieces, rfl⟩ := h
  refine ⟨piece :: pieces, rest, ?_, forall_mem_cons.mpr ⟨hproper, hpieces⟩, ?_⟩
  · rw [textOf_cons, List.append_assoc]
  · rw [textOf_cons, length_append]
    omega

theorem quotedEnd_scanned {size : Nat} (hsize : text.length ≤ size)
    (hend : Text.quotedEnd .plain text n line = .ok (some (m, line'))) : Scanned text n m := by
  induction size generalizing text n line with
  | zero =>
    rw [List.eq_nil_of_length_eq_zero (Nat.le_zero.mp hsize)] at hend
    cases hend
  | succ size ih =>
    obtain _ | ⟨c, text⟩ := text
    · cases hend
    replace hsize : text.length ≤ size := Nat.le_of_succ_le_succ hsize
    by_cases hc : c = 0
    · rw [Text.quotedEnd, if_pos hc] at hend
      cases hend
    rw [quotedEnd_cons hc (.inl rfl)] at hend
    split at hend
    next hquote =>
      subst hquote
      cases hend
      exact ⟨[], text, rfl, List.forall_mem_nil _, rfl⟩
    next hquote =>
      split at hend
      · cases hend
      next hbroken =>
        rw [not_or] at hbroken
        split at hend
        next hescape =>
          subst hescape
          obtain _ | ⟨d, text⟩ := text
          · cases hend
          replace hsize : text.length + 1 ≤ size := hsize
          by_cases hd : d = 0
          · rw [Text.quotedEnd, if_pos hd] at hend
            cases hend
          rw [quotedEnd_escaped hd] at hend
          split at hend
          next hlf =>
            subst hlf
            exact Scanned.cons .escapedLF trivial (ih (Nat.le_of_succ_le hsize) hend)
          next hlf =>
            split at hend
            next hcr =>
              subst hcr
              obtain _ | ⟨e, text⟩ := text
              · cases hend
              replace hsize : text.length + 1 + 1 ≤ size := hsize
              by_cases hlf' : e = LF
              · subst hlf'
                rw [quotedEnd_lf] at hend
                exact Scanned.cons .escapedCRLF trivial (ih (by omega) hend)
              · have hsame : Text.quotedEnd .cr (e :: text) (n + 1 + 1) (line + 1) =
                    Text.quotedEnd .plain (e :: text) (n + 1 + 1) (line + 1) := by
                  by_cases he : e = 0
                  · rw [Text.quotedEnd, Text.quotedEnd, if_pos he, if_pos he]
                  · rw [quotedEnd_cons he (.inr ⟨rfl, hlf'⟩), quotedEnd_cons he (.inl rfl)]
                rw [hsame] at hend
                exact Scanned.cons .escapedCR trivial (ih (by rw [List.length_cons]; omega) hend)
            next hcr =>
              exact Scanned.cons (.escape d) ⟨hd, hcr, hlf⟩ (ih (Nat.le_of_succ_le hsize) hend)
        next hescape =>
          exact Scanned.cons (.octet c) ⟨hc, hquote, hescape, hbroken⟩ (ih hsize hend)

theorem newlines_type (g : ConfigFile Text) (blank : Text.Blank) (text : Octets) (line : Nat) :
    (Text.newlines g blank text line).type ≠ .QSTRING := by
  have hblanks := blanks_remains blank text line
  rw [Text.newlines]
  split
  next heq =>
    rw [heq] at hblanks
    obtain rfl | ⟨rfl, -⟩ := hblanks <;> rintro ⟨⟩
  · rintro ⟨⟩

theorem simpleType_ne_quoted {c : UInt8} {type : TokenType} (hsimple : simpleType c = some type) :
    type ≠ .QSTRING := by
  rintro rfl
  rw [simpleType] at hsimple
  repeat' split at hsimple
  all_goals cases hsimple

theorem tokenHere_quoted {g g' : ConfigFile Text} {c : UInt8}
    (hnext : Text.tokenHere g c text = .ok g') (htype : g'.type = .QSTRING) :
    ∃ pieces, g'.string = quoted pieces ∧ ∀ piece ∈ pieces, piece.Proper := by
  rw [Text.tokenHere] at hnext
  split at hnext
  next hsimple =>
    cases hnext
    exact absurd htype (simpleType_ne_quoted hsimple)
  · split at hnext
    · cases hnext
      exact absurd htype (newlines_type _ _ _ _)
    split at hnext
    next hquote =>
      subst hquote
      rw [Text.quotedToken, List.drop_one, List.tail_cons] at hnext
      cases hend : Text.quotedEnd .plain text 1 g.line with
      | error fault =>
        rw [hend] at hnext
        cases hnext
      | ok found =>
        rw [hend] at hnext
        cases found with
        | none =>
          cases hnext
          cases htype
        | some found =>
          obtain ⟨m, line⟩ := found
          cases hnext
          obtain ⟨pieces, rest, rfl, hproper, rfl⟩ := quotedEnd_scanned (Nat.le_refl _) hend
          refine ⟨pieces, ?_, hproper⟩
          have hsplit : 34 :: (textOf pieces ++ 34 :: rest) = quoted pieces ++ rest := by
            rw [quoted, cons_append, List.append_assoc]
            rfl
          have hlength : (quoted pieces).length = 1 + (textOf pieces).length + 1 := by
            rw [quoted, List.length_cons, length_append, List.length_singleton]
            omega
          dsimp only [ConfigFile.found]
          rw [hsplit, List.take_left' hlength]
    · cases hnext
      rw [Text.stringToken] at htype
      split at htype
      · cases htype
      · dsimp only [ConfigFile.found] at htype
        split at htype <;> cases htype

theorem tokenNext_quoted {g g' : ConfigFile Text} (hnext : Text.tokenNext g = .ok g')
    (htype : g'.type = .QSTRING) :
    ∃ pieces, g'.string = quoted pieces ∧ ∀ piece ∈ pieces, piece.Proper := by
  rw [Text.tokenNext] at hnext
  split at hnext
  · cases hnext
    cases htype
  · split at hnext
    · cases hnext
      cases htype
    split at hnext
    · cases hnext
      exact absurd htype (newlines_type _ _ _ _)
    · exact tokenHere_quoted hnext htype

end Lexing

section Unquoting

variable {pieces : List Piece}

theorem escaped_eq {c : UInt8} (hlf : c ≠ LF) :
    escaped c = (cEscapes.lookup c).map fun d => [d] := by
  by_cases hmem : c ∈ cEscapes.map Prod.fst
  · simp only [cEscapes, List.map_cons, List.map_nil, List.mem_cons, List.not_mem_nil,
      or_false] at hmem
    rcases hmem with rfl | rfl | rfl | rfl | rfl | rfl | rfl | rfl | rfl | rfl | rfl <;> rfl
  · simp only [cEscapes, List.map_cons, List.map_nil, List.mem_cons, List.not_mem_nil, or_false,
      not_or] at hmem
    obtain ⟨ha, hb, hf, hn, hr, ht, hv, hbackslash, hquote, hquotes, hquestion⟩ := hmem
    have hlf' : ¬c = 10 := hlf
    simp [escaped, cEscapes, List.lookup, ha, hb, hf, hn, hr, ht, hv, hbackslash, hquote, hquotes,
      hquestion, hlf',
      beq_false_of_ne]

theorem unquote_octet {c : UInt8} (hquote : c ≠ 34) (hescape : c ≠ 92) {rest : Octets}
    (hrest : rest ≠ []) :
    unquote (c :: rest) = (unquote rest).map (c :: ·) := by
  obtain ⟨d, rest, rfl⟩ := List.exists_cons_of_ne_nil hrest
  rw [unquote, if_neg hquote, if_neg hescape]

theorem unquote_escape (c : UInt8) (rest : Octets) :
    unquote (92 :: c :: rest) = (escaped c).bind fun octets =>
      (unquote rest).map (octets ++ ·) := by
  rw [unquote, if_neg (by decide), if_pos rfl]

theorem known_escape (c : UInt8) : (Piece.escape c).Known ↔ (cEscapes.lookup c).isSome = true :=
    Iff.rfl

theorem unquote_textOf (hproper : ∀ piece ∈ pieces, piece.Proper) :
    unquote (textOf pieces ++ [34]) = if ∀ piece ∈ pieces, piece.Known then some (valueOf pieces)
      else none := by
  induction pieces with
  | nil => rfl
  | cons piece pieces ih =>
    obtain ⟨hpiece, hproper'⟩ := forall_mem_cons.mp hproper
    have ih := ih hproper'
    have hrest : textOf pieces ++ [34] ≠ [] :=
      List.append_ne_nil_of_right_ne_nil _ (List.cons_ne_nil _ _)
    have hvalue : valueOf (piece :: pieces) = piece.value ++ valueOf pieces := List.flatMap_cons ..
    rw [textOf_cons, List.append_assoc, hvalue]
    simp only [forall_mem_cons]
    have hhead (hpiece : piece.Known) :
        (if piece.Known ∧ ∀ piece ∈ pieces, piece.Known then some
          (piece.value ++ valueOf pieces) else none) =
          (if ∀ piece ∈ pieces, piece.Known then some (valueOf pieces) else none).map
            (piece.value ++ ·) := by
      by_cases hall : ∀ piece ∈ pieces, piece.Known
      · rw [if_pos ⟨hpiece, hall⟩, if_pos hall]
        rfl
      · rw [if_neg fun h => hall h.2, if_neg hall]
        rfl
    cases piece with
    | octet c =>
      obtain ⟨-, hquote, hbackslash, -⟩ := hpiece
      rw [hhead trivial, Piece.text, List.singleton_append,
        unquote_octet hquote hbackslash hrest, ih]
      rfl
    | escape c =>
      obtain ⟨-, -, hlf⟩ := hpiece
      rw [Piece.text, cons_append, List.singleton_append, unquote_escape, escaped_eq hlf]
      have hknown := known_escape c
      cases hd : cEscapes.lookup c with
      | none =>
        rw [hd] at hknown
        rw [if_neg fun h => Bool.false_ne_true (hknown.mp h.1)]
        rfl
      | some d =>
        rw [hd] at hknown
        rw [hhead (hknown.mpr rfl), ih, Piece.value, hd]
        rfl
    | escapedLF =>
      rw [hhead trivial, Piece.text, cons_append, List.singleton_append, unquote_escape, ih]
      rfl
    | escapedCR =>
      rw [Piece.text, cons_append, List.singleton_append, unquote_escape, if_neg fun h => h.1]
      rfl
    | escapedCRLF =>
      rw [Piece.text, cons_append, cons_append, unquote_escape, if_neg fun h => h.1]
      rfl

theorem valueOf_length_le (pieces : List Piece) :
    (valueOf pieces).length ≤ (textOf pieces).length := by
  induction pieces with
  | nil => exact Nat.le_refl _
  | cons piece pieces ih =>
    rw [valueOf, textOf, List.flatMap_cons, List.flatMap_cons, length_append, length_append]
    refine Nat.add_le_add ?_ ih
    cases piece with
    | escape c =>
      rw [Piece.value, Piece.text]
      cases cEscapes.lookup c <;> simp
    | octet c => exact Nat.le_refl _
    | escapedLF => exact Nat.zero_le _
    | escapedCR => exact Nat.zero_le _
    | escapedCRLF => exact Nat.zero_le _

theorem unquotes_iff (hproper : ∀ piece ∈ pieces, piece.Proper) (value : Octets) :
    Unquotes (quoted pieces) value ↔ (∀ piece ∈ pieces, piece.Known) ∧ valueOf pieces = value := by
  have hroom : (valueOf pieces).length + 1 ≤ allocated (quoted pieces) := by
    have hle := valueOf_length_le pieces
    rw [allocated, quoted, List.length_cons, length_append, List.length_singleton]
    omega
  rw [Unquotes, tokenUnquoteString, quoted, List.tail_cons, unquote_textOf hproper, ← quoted]
  constructor
  · rintro ⟨hsome, -⟩
    exact Option.ite_none_right_eq_some.mp hsome |>.imp_right Option.some.inj
  · rintro ⟨hknown, rfl⟩
    exact ⟨if_pos hknown, hroom⟩

theorem lookup_of_isOctalDigit {c : UInt8} (hdigit : Numeral.isOctalDigit c) :
    cEscapes.lookup c = none := by
  have hne {d : UInt8} (hd : Numeral.isOctalDigit d = false) : (c == d) = false :=
    beq_false_of_ne fun h => Bool.false_ne_true (hd.symm.trans (h ▸ hdigit))
  simp only [cEscapes, List.lookup]
  rw [hne (by decide), hne (by decide), hne (by decide), hne (by decide), hne (by decide),
    hne (by decide),
    hne (by decide), hne (by decide), hne (by decide), hne (by decide), hne (by decide)]

theorem Item.known_iff {item : Item} (hdocumented : item.Documented) :
    (∀ piece ∈ item.pieces, piece.Known) ↔ item.Simple := by
  cases item with
  | piece p =>
    rw [Item.pieces, List.forall_mem_singleton, Item.Simple, Piece.HasCR]
    cases p with
    | octet c => exact iff_of_true trivial (by simp)
    | escape c => exact iff_of_true hdocumented (by simp)
    | escapedLF => exact iff_of_true trivial (by simp)
    | escapedCR => exact iff_of_false id (by simp)
    | escapedCRLF => exact iff_of_false id (by simp)
  | numeral kind digits =>
    refine iff_of_false (fun hknown => ?_) fun hsimple => hsimple
    have hfirst (c : UInt8) (rest : Octets) (htext : kind.letter ++ digits = c :: rest)
        (hlookup : cEscapes.lookup c = none) : False := by
      have hpiece := hknown (.escape c) (by rw [Item.pieces, htext]; exact List.mem_cons_self)
      rw [known_escape, hlookup] at hpiece
      exact Bool.false_ne_true hpiece
    cases kind with
    | octal =>
      obtain ⟨⟨hsome, -⟩, hdigits⟩ := hdocumented
      obtain ⟨c, rest, rfl⟩ := List.exists_cons_of_length_pos hsome
      exact hfirst c rest rfl (lookup_of_isOctalDigit (hdigits c List.mem_cons_self))
    | x => exact hfirst 120 digits rfl rfl
    | u => exact hfirst 117 digits rfl rfl
    | U => exact hfirst 85 digits rfl rfl

variable {items : List Item}

theorem known_items_iff (hdocumented : ∀ item ∈ items, item.Documented) :
    (∀ piece ∈ items.flatMap Item.pieces, piece.Known) ↔ ∀ item ∈ items, item.Simple := by
  simp only [List.mem_flatMap, forall_exists_index, and_imp]
  constructor
  · intro hknown item hitem
    exact (Item.known_iff (hdocumented item hitem)).mp fun piece hpiece =>
      hknown piece item hitem hpiece
  · intro hsimple piece item hitem hpiece
    exact (Item.known_iff (hdocumented item hitem)).mpr (hsimple item hitem) piece hpiece

theorem valueOf_items (hsimple : ∀ item ∈ items, item.Simple) :
    valueOf (items.flatMap Item.pieces) = items.flatMap Item.value := by
  induction items with
  | nil => rfl
  | cons item items ih =>
    obtain ⟨hitem, hitems⟩ := forall_mem_cons.mp hsimple
    have ih := ih hitems
    rw [valueOf] at ih ⊢
    rw [List.flatMap_cons, List.flatMap_cons, List.flatMap_append, ih]
    cases item with
    | piece p => rw [Item.pieces, List.flatMap_singleton, Item.value]
    | numeral kind digits => exact hitem.elim

/-- A quoted string that the lexer accepts, where its careful run does not stop, is made of pieces
between quotes. If it is made of octets, line ends and escapes that are documented, it is unquoted
to what they stand for just when no CR is escaped and no escape gives the number of a character. -/
theorem token_unquote_string_iff {f f' : ConfigFile Reader} {g : ConfigFile Text}
    (hbefore : Before False f g)
    (hnext : tokenNext true f = .ok f') (htype : f'.type = .QSTRING) : tokenNext false f = .ok f' ∧
      (∃ pieces, f'.string = quoted pieces ∧ ∀ piece ∈ pieces, piece.Proper) ∧
        ∀ items : List Item, f'.string = quoted (items.flatMap Item.pieces) →
          (∀ piece ∈ items.flatMap Item.pieces, piece.Proper) → (∀ item ∈ items, item.Documented) →
            (Unquotes f'.string (items.flatMap Item.value) ↔ ∀ item ∈ items, item.Simple) := by
  obtain ⟨hslip, -⟩ | ⟨f'', g', hrun, hspec, hrelated⟩ := tokenNext_agrees hbefore
  · cases hnext.symm.trans hslip
  obtain rfl := Except.ok.inj ((hrun true).symm.trans hnext)
  obtain ⟨herror, -⟩ | ⟨hend, -⟩ | ⟨text, rfl, -⟩ := hrelated
  · cases htype.symm.trans herror
  · cases htype.symm.trans hend
  refine ⟨hrun false, tokenNext_quoted hspec htype, fun items hstring hproper hdocumented => ?_⟩
  rw [hstring, unquotes_iff hproper, known_items_iff hdocumented]
  exact and_iff_left_of_imp valueOf_items

theorem fileOpen_before (content : Octets) (hcontent : 0 ∉ content.take 8191) :
    Before False (fileOpen ⟨content, [], 8192⟩ (octets "f")) ⟨⟨content, false⟩, octets "f", 1,
      false, .ERROR, []⟩ :=
  .inr ⟨rfl, rfl, show 2 ≤ 8192 by decide, show 0 < 8192 by decide, hcontent, False.elim⟩

def firstQuoted (content : Octets) : Option Octets :=
  (tokenNext true (fileOpen ⟨content, [], 8192⟩ (octets "f"))).toOption.bind fun f =>
    if f.type = .QSTRING then some f.string else none

theorem of_firstQuoted {content raw : Octets} (h : firstQuoted content = some raw) : ∃ f',
    tokenNext true (fileOpen ⟨content, [], 8192⟩ (octets "f")) = .ok f' ∧ f'.type = .QSTRING ∧
      f'.string = raw := by
  rw [firstQuoted, Option.bind_eq_some_iff] at h
  obtain ⟨f', hf', h⟩ := h
  rw [Option.ite_none_right_eq_some] at h
  refine ⟨f', ?_, h.1, Option.some.inj h.2⟩
  cases hrun : tokenNext true (fileOpen ⟨content, [], 8192⟩ (octets "f")) with
  | error fault =>
    rw [hrun] at hf'
    cases hf'
  | ok f'' =>
    rw [hrun] at hf'
    rw [Option.some.inj hf']

/-- The string `a\nb`. -/
theorem token_unquote_string_newline : ∃ f',
    tokenNext false (fileOpen ⟨[34, 97, 92, 110, 98, 34], [], 8192⟩ (octets "f")) = .ok f' ∧
      Unquotes f'.string [97, 10, 98] := by
  obtain ⟨f', hnext, htype, hstring⟩ :=
    @of_firstQuoted [34, 97, 92, 110, 98, 34] [34, 97, 92, 110, 98, 34] (by decide)
  obtain ⟨hrun, -, hunquotes⟩ :=
    token_unquote_string_iff (fileOpen_before _ (by decide)) hnext htype
  refine ⟨f', hrun, (hunquotes [.piece (.octet 97), .piece (.escape 110),
    .piece (.octet 98)] hstring ?_ ?_).mpr ?_⟩
  · simp only [List.flatMap_cons, List.flatMap_nil, Item.pieces, List.singleton_append,
      forall_mem_cons,
      List.not_mem_nil, false_implies, implies_true, and_true, Piece.Proper]
    decide
  · simp only [forall_mem_cons, List.not_mem_nil, false_implies, implies_true, and_true,
      Item.Documented]
    decide
  · simp [Item.Simple, Piece.HasCR]

/-- A string with a CRLF behind a backslash. -/
theorem not_token_unquote_string : ¬∀ (f f' : ConfigFile Reader) (g : ConfigFile Text)
    (items : List Item),
    Before False f g → tokenNext true f = .ok f' → f'.type = .QSTRING →
      f'.string = quoted (items.flatMap Item.pieces) →
        (∀ piece ∈ items.flatMap Item.pieces, piece.Proper) →
        (∀ item ∈ items, item.Documented) → Unquotes f'.string (items.flatMap Item.value) := by
  intro hall
  obtain ⟨f', hnext, htype, hstring⟩ :=
    @of_firstQuoted [34, 97, 92, CR, LF, 98, 34, LF] [34, 97, 92, CR, LF, 98, 34] (by decide)
  have hproper : ∀ piece ∈ [Piece.octet 97, .escapedCRLF, .octet 98], piece.Proper := by
    simp only [forall_mem_cons, List.not_mem_nil, false_implies, implies_true,
      and_true, Piece.Proper]
    decide
  have hdocumented : ∀ item ∈ [Item.piece (.octet 97), .piece .escapedCRLF, .piece (.octet 98)],
      item.Documented := by
    simp only [forall_mem_cons, List.not_mem_nil, false_implies, implies_true, and_true,
      Item.Documented]
  have hvalue := (hall _ f' _ [.piece (.octet 97), .piece .escapedCRLF, .piece (.octet 98)]
    (fileOpen_before _ (by decide)) hnext htype hstring hproper hdocumented).1
  rw [hstring] at hvalue
  revert hvalue
  decide

end Unquoting

end Inn.Confparse
