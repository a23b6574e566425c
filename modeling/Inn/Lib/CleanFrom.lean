import Inn.Foundation.Stretches
import Inn.Innd.Channel

/-!
# Cleaning a From line

The value of a From line is unfolded, comments and quotes are taken out of it, and what is in angle
brackets is all that is left if there are any. White space is dropped at the end.
-/

namespace Inn.Lib.CleanFrom

open Foundation.Lines Foundation.Stretches

def concatenate (prev : Option UInt8) (out : Octets) : Octets → Octets × Bool
  | [] => (out, false)
  | [c] => if c = 10 then (out, true) else (out ++ [c], false)
  | c :: d :: rest =>
    if c = 10 then
      if ISWHITE d then
        if prev = some 13 then concatenate (some d) out.dropLast rest
        else concatenate (some c) out (d :: rest)
      else (out, true)
    else concatenate (some c) (out ++ [c]) (d :: rest)

def unfolded (frombuf : Octets) : Octets :=
  let (out, ended) := concatenate none [] frombuf
  if out = [] ∧ ended = false then frombuf.getLast?.toList ++ frombuf.tail else out

def bracketed (s : Octets) : Option Octets := do
  let (_, behind) ← cutLast 60 s
  let (inside, _) ← cutLast 62 (60 :: behind)
  return inside.tail

def dropWhites (s : Octets) : Octets :=
  let kept := s.filter (!ISWHITE ·)
  if kept = [] then s else kept

def HeaderCleanFrom (frombuf : Octets) : Octets :=
  if frombuf = [] then []
  else
    let s := takeOut 34 34 (takeOut 40 41 (unfolded frombuf))
    match bracketed s with
    | some address => address
    | none => dropWhites s

inductive Fold
  | none
  | LF
  | CRLF
  deriving DecidableEq

structure Piece where
  octet : UInt8
  fold : Fold
  white : fold ≠ .none → ISWHITE octet

def Piece.raw (p : Piece) : Octets :=
  match p.fold with
  | .none => [p.octet]
  | .LF => [10, p.octet]
  | .CRLF => [13, 10, p.octet]

def mark (c : UInt8) : Piece := ⟨c, .none, nofun⟩

def text (pieces : List Piece) : Octets := pieces.map (·.octet)

def raw (pieces : List Piece) : Octets := pieces.flatMap Piece.raw

def joined (pieces : List Piece) : Octets := text (pieces.filter (·.fold ≠ .CRLF))

def Textual (pieces : List Piece) : Prop := ∀ c ∈ text pieces, c ≠ 0 ∧ c ≠ 10 ∧ c ≠ 13

instance (pieces : List Piece) : Decidable (Textual pieces) :=
  inferInstanceAs (Decidable (∀ c ∈ text pieces, c ≠ 0 ∧ c ≠ 10 ∧ c ≠ 13))

inductive Quoting : Octets → Prop
  | nil : Quoting []
  | plain {c : UInt8} {rest : Octets} : c ∉ [34, 40, 41, 60, 62] → Quoting rest →
      Quoting (c :: rest)
  | quoted {inside rest : Octets} :
      34 ∉ inside → Quoting rest → Quoting (34 :: (inside ++ 34 :: rest))

inductive Balanced : Octets → Prop
  | nil : Balanced []
  | plain {c : UInt8} {rest : Octets} : c ∉ [34, 40, 41] → Balanced rest → Balanced (c :: rest)
  | quoted {inside rest : Octets} :
      34 ∉ inside → Balanced rest → Balanced (34 :: (inside ++ 34 :: rest))
  | comment {inside rest : Octets} :
      Balanced inside → Balanced rest → Balanced (40 :: (inside ++ 41 :: rest))

structure Address where
  pieces : List Piece
  textual : Textual pieces
  quoting : Quoting (text pieces)
  visible : ∃ c ∈ text pieces, ISWHITE c = false

structure Stuff where
  pieces : List Piece
  textual : Textual pieces
  balanced : Balanced (text pieces)

inductive Form
  | address (a : Address)
  | comment (a : Address) (stuff : Stuff)
  | name (stuff : Stuff) (a : Address)

namespace Form

def pieces : Form → List Piece
  | .address a => a.pieces
  | .comment a stuff => a.pieces ++ mark 40 :: (stuff.pieces ++ [mark 41])
  | .name stuff a => stuff.pieces ++ mark 60 :: (a.pieces ++ [mark 62])

def addr : Form → Address
  | .address a | .comment a _ | .name _ a => a

end Form

def Address.clean (a : Address) : Octets := (text a.pieces).filter (!ISWHITE ·)

/-- Nothing but the address is left. -/
def Form.Cleaned (form : Form) : Prop := HeaderCleanFrom (raw form.pieces) = form.addr.clean

def Stuff.left (stuff : Stuff) : Octets :=
  (outside 40 41 false (40 :: (joined stuff.pieces ++ [41]))).filter (· ≠ 34)

def Encloses (s inside : Octets) : Prop :=
  ∃ before behind, s = before ++ 60 :: (inside ++ 62 :: behind) ∧
    60 ∉ inside ++ 62 :: behind ∧ 62 ∉ behind

def Form.Condition (form : Form) : Prop :=
  34 ∉ text form.addr.pieces ∧
    match form with
    | .address _ => True
    | .comment a stuff => (∀ c ∈ stuff.left, ISWHITE c) ∨ Encloses stuff.left a.clean
    | .name _ a => ∀ p ∈ a.pieces, ISWHITE p.octet → p.fold = .CRLF

section Unfolding

variable {prev : Option UInt8} {out rest : Octets} {c d : UInt8}

theorem concatenate_octet (hc : c ≠ 10) (prev : Option UInt8) (out rest : Octets) :
    concatenate prev out (c :: rest) = concatenate (some c) (out ++ [c]) rest := by
  cases rest with
  | nil => exact if_neg hc
  | cons d rest => rw [concatenate, if_neg hc]

theorem concatenate_LF (hd : ISWHITE d) (hprev : prev ≠ some 13) (out rest : Octets) :
    concatenate prev out (10 :: d :: rest) = concatenate (some d) (out ++ [d]) rest := by
  have hne : d ≠ 10 := by
    rintro rfl
    exact absurd hd (by decide)
  rw [concatenate, if_pos rfl, if_pos hd, if_neg hprev, concatenate_octet hne]

theorem concatenate_CRLF (hd : ISWHITE d) (prev : Option UInt8) (out rest : Octets) :
    concatenate prev out (13 :: 10 :: d :: rest) = concatenate (some d) out rest := by
  rw [concatenate_octet (by decide), concatenate, if_pos rfl, if_pos hd, if_pos rfl,
    List.dropLast_concat]

theorem joined_cons {p : Piece} (hfold : p.fold ≠ .CRLF) (pieces : List Piece) :
    joined (p :: pieces) = p.octet :: joined pieces := by
  rw [joined, List.filter_cons_of_pos (by simp [hfold])]
  rfl

theorem joined_cons_CRLF {p : Piece} (hfold : p.fold = .CRLF) (pieces : List Piece) :
    joined (p :: pieces) = joined pieces := by
  rw [joined, List.filter_cons_of_neg (by simp [hfold])]
  rfl

theorem concatenate_raw {pieces : List Piece} (htextual : Textual pieces) (hprev : prev ≠ some 13) :
    concatenate prev out (raw pieces) = (out ++ joined pieces, false) := by
  induction pieces generalizing prev out with
  | nil => rw [raw, List.flatMap_nil, concatenate, joined, List.filter_nil, text, List.map_nil,
      List.append_nil]
  | cons p pieces ih =>
    have htextual' : Textual pieces := fun c hc => htextual c (List.mem_cons_of_mem _ hc)
    obtain ⟨-, hLF, hCR⟩ := htextual p.octet List.mem_cons_self
    have hnext : some p.octet ≠ some 13 := fun heq => hCR (Option.some.inj heq)
    rw [raw, List.flatMap_cons, ← raw, Piece.raw]
    cases hfold : p.fold with
    | none =>
      rw [List.singleton_append, concatenate_octet hLF, ih htextual' hnext,
        joined_cons (by rw [hfold]; nofun), List.append_assoc, List.singleton_append]
    | LF =>
      have hwhite := p.white (by rw [hfold]; nofun)
      rw [List.cons_append, List.singleton_append, concatenate_LF hwhite hprev, ih htextual' hnext,
        joined_cons (by rw [hfold]; nofun), List.append_assoc, List.singleton_append]
    | CRLF =>
      have hwhite := p.white (by rw [hfold]; nofun)
      rw [List.cons_append, List.cons_append, List.singleton_append, concatenate_CRLF hwhite,
        ih htextual' hnext, joined_cons_CRLF hfold]

theorem unfolded_raw {pieces : List Piece} (htextual : Textual pieces) (hne : joined pieces ≠ []) :
    unfolded (raw pieces) = joined pieces := by
  have hraw : concatenate none [] (raw pieces) = ([] ++ joined pieces, false) :=
    concatenate_raw htextual nofun
  rw [unfolded, hraw, List.nil_append]
  exact if_neg fun h => hne h.1

end Unfolding

section Passes

variable {s : Octets}

theorem bracketed_eq_some_iff {inside : Octets} :
    bracketed s = some inside ↔ Encloses s inside := by
  constructor
  · intro h
    obtain ⟨⟨before, behind⟩, hopen, hrest⟩ := Option.bind_eq_some_iff.mp h
    obtain ⟨⟨front, back⟩, hclose, htail⟩ := Option.bind_eq_some_iff.mp hrest
    obtain ⟨rfl, hnot⟩ := of_cutLast hopen
    obtain ⟨hsplit, hback⟩ := of_cutLast hclose
    cases htail
    cases front with
    | nil => cases hsplit
    | cons c front =>
      obtain ⟨-, rfl⟩ := List.cons.inj hsplit
      exact ⟨before, back, rfl, hnot, hback⟩
  · rintro ⟨before, behind, rfl, hlast, hbehind⟩
    rw [bracketed, cutLast_last before hlast]
    dsimp only [bind, Option.bind]
    rw [← List.cons_append, cutLast_last _ hbehind]
    rfl

theorem bracketed_append {front : Octets} (hfront : 60 ∉ front) (s : Octets) :
    bracketed (front ++ s) = bracketed s := by
  cases hcut : cutLast 60 s with
  | none =>
    have hnot : 60 ∉ front ++ s := by
      rw [List.mem_append, not_or]
      exact ⟨hfront, of_cutLast_none hcut⟩
    rw [bracketed, bracketed, hcut, cutLast_of_notMem hnot]
  | some halves =>
    obtain ⟨rfl, hbehind⟩ := of_cutLast hcut
    rw [bracketed, bracketed, hcut, ← List.append_assoc, cutLast_last _ hbehind]
    rfl

theorem mem_of_bracketed {inside : Octets} (hinside : bracketed s = some inside) : inside ⊆ s := by
  obtain ⟨before, behind, rfl, -⟩ := bracketed_eq_some_iff.mp hinside
  intro c hc
  simp [hc]

theorem dropWhites_subset (s : Octets) : dropWhites s ⊆ s := by
  rw [dropWhites]
  split
  · exact List.Subset.refl s
  · exact List.filter_subset_self s

theorem quote_notMem (frombuf : Octets) : 34 ∉ HeaderCleanFrom frombuf := by
  have hquotes : 34 ∉ takeOut 34 34 (takeOut 40 41 (unfolded frombuf)) := by
    rw [takeOut_self]
    exact fun hmem => absurd rfl (of_decide_eq_true (List.mem_filter.mp hmem).2)
  rw [HeaderCleanFrom]
  split
  · exact List.not_mem_nil
  dsimp only
  split
  next hinside => exact fun hmem => hquotes (mem_of_bracketed hinside hmem)
  next => exact fun hmem => hquotes (dropWhites_subset _ hmem)

theorem dropWhites_eq {front : Octets} (hvisible : front.filter (!ISWHITE ·) ≠ []) (s : Octets) :
    dropWhites (front ++ s) = front.filter (!ISWHITE ·) ++ s.filter (!ISWHITE ·) := by
  rw [dropWhites, List.filter_append]
  exact if_neg fun h => hvisible (List.append_eq_nil_iff.mp h).1

end Passes

section Forms

variable {pieces : List Piece}

theorem joined_append (front back : List Piece) :
    joined (front ++ back) = joined front ++ joined back := by
  rw [joined, List.filter_append, text, List.map_append]
  rfl

theorem joined_subset (pieces : List Piece) : joined pieces ⊆ text pieces :=
  List.map_subset _ (List.filter_subset_self pieces)

theorem mem_joined {c : UInt8} :
    c ∈ joined pieces ↔ ∃ p ∈ pieces, p.fold ≠ .CRLF ∧ p.octet = c := by
  simp [joined, text, and_assoc]

theorem filter_joined (pieces : List Piece) :
    (joined pieces).filter (!ISWHITE ·) = (text pieces).filter (!ISWHITE ·) := by
  induction pieces with
  | nil => rfl
  | cons p pieces ih =>
    rw [show text (p :: pieces) = p.octet :: text pieces from rfl]
    by_cases hfold : p.fold = .CRLF
    · have hwhite := p.white (by rw [hfold]; nofun)
      rw [joined_cons_CRLF hfold, List.filter_cons_of_neg (by simp [hwhite]), ih]
    · rw [joined_cons hfold, List.filter_cons, List.filter_cons, ih]

theorem plain_of_quoting {s : Octets} (hquoting : Quoting s) (hquote : 34 ∉ s) :
    ∀ c ∈ s, c ∉ [34, 40, 41, 60, 62] := by
  induction hquoting with
  | nil => nofun
  | plain hc hrest ih =>
    rw [List.mem_cons, not_or] at hquote
    exact List.forall_mem_cons.mpr ⟨hc, ih hquote.2⟩
  | quoted => exact absurd List.mem_cons_self hquote

namespace Address

variable (a : Address)

theorem filter_joined_ne_nil : (joined a.pieces).filter (!ISWHITE ·) ≠ [] := by
  obtain ⟨c, hc, hvisible⟩ := a.visible
  rw [filter_joined]
  exact List.ne_nil_of_mem (List.mem_filter.mpr ⟨hc, by rw [hvisible]; rfl⟩)

variable {a}

theorem mark_notMem (hquote : 34 ∉ text a.pieces) {c : UInt8} (hc : c ∈ [34, 40, 41, 60, 62]) :
    c ∉ joined a.pieces :=
  fun hmem => plain_of_quoting a.quoting hquote c (joined_subset a.pieces hmem) hc

theorem quote_mem_clean (hquote : 34 ∈ text a.pieces) : 34 ∈ a.clean :=
  List.mem_filter.mpr ⟨hquote, rfl⟩

end Address

theorem not_cleaned_of_quote {form : Form} (hquote : 34 ∈ text form.addr.pieces) :
    ¬form.Cleaned := by
  intro hcleaned
  rw [Form.Cleaned] at hcleaned
  exact quote_notMem _ (hcleaned ▸ Address.quote_mem_clean hquote)

theorem HeaderCleanFrom_raw (htextual : Textual pieces) (hne : joined pieces ≠ []) :
    HeaderCleanFrom (raw pieces) =
      match bracketed ((takeOut 40 41 (joined pieces)).filter (· ≠ 34)) with
      | some address => address
      | none => dropWhites ((takeOut 40 41 (joined pieces)).filter (· ≠ 34)) := by
  have hraw : raw pieces ≠ [] := by
    intro hnil
    have hunfolded := unfolded_raw htextual hne
    rw [hnil] at hunfolded
    exact hne hunfolded.symm
  rw [HeaderCleanFrom, if_neg hraw, unfolded_raw htextual hne, takeOut_self]

theorem filter_quotes {s : Octets} (hquote : 34 ∉ s) : s.filter (· ≠ 34) = s :=
  List.filter_eq_self.mpr fun _ hc => decide_eq_true (ne_of_mem_of_not_mem hc hquote)

variable {a : Address} {stuff : Stuff}

theorem joined_mark (c : UInt8) (pieces : List Piece) :
    joined (mark c :: pieces) = c :: joined pieces :=
  joined_cons (fun h => by cases h) pieces

theorem textual_append {front back : List Piece} (hfront : Textual front) (hback : Textual back) :
    Textual (front ++ back) := by
  intro c hc
  rw [text, List.map_append] at hc
  rcases List.mem_append.mp hc with hc | hc
  · exact hfront c hc
  · exact hback c hc

theorem textual_mark {c : UInt8} (hc : c ≠ 0 ∧ c ≠ 10 ∧ c ≠ 13) (hpieces : Textual pieces) :
    Textual (mark c :: pieces) := by
  intro d hd
  rcases List.mem_cons.mp hd with rfl | hd
  · exact hc
  · exact hpieces d hd

theorem cleaned_address (hquote : 34 ∉ text a.pieces) : (Form.address a).Cleaned := by
  have hnot {c : UInt8} (hc : c ∈ [34, 40, 41, 60, 62]) := Address.mark_notMem hquote hc
  have hvisible := a.filter_joined_ne_nil
  have hne : joined a.pieces ≠ [] := fun h => hvisible (by rw [h]; rfl)
  have hnone : bracketed (joined a.pieces) = none := by
    rw [bracketed, cutLast_of_notMem (hnot (by decide))]
    rfl
  rw [Form.Cleaned, Form.pieces, HeaderCleanFrom_raw a.textual hne,
    takeOut_of_notMem (hnot (by decide)),
    filter_quotes (hnot (by decide)), hnone]
  rw [← List.append_nil (joined a.pieces), dropWhites_eq hvisible, List.filter_nil, List.append_nil,
    filter_joined]
  rfl

theorem cleaned_name_iff (hquote : 34 ∉ text a.pieces) :
    (Form.name stuff a).Cleaned ↔ ∀ p ∈ a.pieces, ISWHITE p.octet → p.fold = .CRLF := by
  have hnot {c : UInt8} (hc : c ∈ [34, 40, 41, 60, 62]) := Address.mark_notMem hquote hc
  have htail {c : UInt8} (hc : c ∈ [34, 40, 41]) : c ∉ 60 :: (joined a.pieces ++ [62]) := by
    have hmark := hnot (List.mem_append_left [60, 62] hc)
    have hne : c ≠ 60 ∧ c ≠ 62 :=
      ⟨ne_of_mem_of_not_mem hc (by decide), ne_of_mem_of_not_mem hc (by decide)⟩
    simp [hmark, hne]
  have hopen : 40 ∉ 60 :: (joined a.pieces ++ [62]) := htail (by decide)
  have hclose : 41 ∉ 60 :: (joined a.pieces ++ [62]) := htail (by decide)
  have hjoined : joined (Form.name stuff a).pieces =
      joined stuff.pieces ++ 60 :: (joined a.pieces ++ [62]) := by
    rw [Form.pieces, joined_append, joined_mark, joined_append, joined_mark]
    rfl
  have htextual : Textual (Form.name stuff a).pieces :=
    textual_append stuff.textual
      (textual_mark (by decide) (textual_append a.textual (textual_mark (by decide) nofun)))
  obtain ⟨kept, hkept⟩ := takeOut_append (by decide) (joined stuff.pieces) hopen hclose
  have hinside : bracketed ((takeOut 40 41 (joined (Form.name stuff a).pieces)).filter (· ≠ 34)) =
      some (joined a.pieces) := by
    rw [hjoined, hkept, List.filter_append, filter_quotes (htail (by decide))]
    refine bracketed_eq_some_iff.mpr ⟨_, [], rfl, ?_, List.not_mem_nil⟩
    simp [hnot]
  rw [Form.Cleaned, HeaderCleanFrom_raw htextual (by rw [hjoined]; simp), hinside]
  dsimp only [Form.addr]
  rw [Address.clean, ← filter_joined, eq_comm, List.filter_eq_self]
  constructor
  · intro hvisible p hp hwhite
    by_contra hfold
    have hnone := hvisible p.octet (mem_joined.mpr ⟨p, hp, hfold, rfl⟩)
    rw [hwhite] at hnone
    cases hnone
  · intro hfolds c hc
    obtain ⟨p, hp, hfold, rfl⟩ := mem_joined.mp hc
    rw [Bool.not_eq_true', Bool.eq_false_iff]
    exact fun hwhite => hfold (hfolds p hp hwhite)

theorem cleaned_comment_iff (hquote : 34 ∉ text a.pieces) :
    (Form.comment a stuff).Cleaned ↔ (∀ c ∈ stuff.left, ISWHITE c) ∨
      Encloses stuff.left a.clean := by
  have hnot {c : UInt8} (hc : c ∈ [34, 40, 41, 60, 62]) := Address.mark_notMem hquote hc
  have hvisible := a.filter_joined_ne_nil
  have hjoined : joined (Form.comment a stuff).pieces =
      joined a.pieces ++ 40 :: (joined stuff.pieces ++ [41]) := by
    rw [Form.pieces, joined_append, joined_mark, joined_append, joined_mark]
    rfl
  have htextual : Textual (Form.comment a stuff).pieces :=
    textual_append a.textual
      (textual_mark (by decide) (textual_append stuff.textual (textual_mark (by decide) nofun)))
  have hleft : (takeOut 40 41 (joined (Form.comment a stuff).pieces)).filter (· ≠ 34) =
      joined a.pieces ++ stuff.left := by
    rw [hjoined, takeOut_closed (by decide) (by rw [List.getLast?_append_cons, ← List.cons_append,
      List.getLast?_concat]),
      outside_plain (hnot (by decide)), List.filter_append, filter_quotes (hnot (by decide))]
    rfl
  rw [Form.Cleaned, HeaderCleanFrom_raw htextual (by rw [hjoined]; simp), hleft,
    bracketed_append (hnot (by decide))]
  dsimp only [Form.addr]
  cases hbracketed : bracketed stuff.left with
  | some inside =>
    have hencloses := bracketed_eq_some_iff.mp hbracketed
    have hopen : 60 ∈ stuff.left := by
      obtain ⟨before, behind, heq, -⟩ := hencloses
      rw [heq]
      simp
    rw [or_iff_right fun hwhite => absurd (hwhite 60 hopen) (by decide),
      ← bracketed_eq_some_iff, hbracketed,
      Option.some_inj]
  | none =>
    rw [← bracketed_eq_some_iff, hbracketed, or_iff_left nofun]
    rw [dropWhites_eq hvisible, Address.clean, ← filter_joined, List.append_right_eq_self,
      List.filter_eq_nil_iff]
    simp

/-- A From line is cleaned if and only if the address has no quoted string and: `(stuff)` leaves
white space only behind the address, or the address itself in angle brackets; and an address in
angle brackets has no white space but such as goes with a fold. -/
theorem cleaned_iff (form : Form) : form.Cleaned ↔ form.Condition := by
  by_cases hquote : 34 ∈ text form.addr.pieces
  · exact iff_of_false (not_cleaned_of_quote hquote) fun h => h.1 hquote
  refine Iff.trans ?_ (and_iff_right hquote).symm
  cases form with
  | address a => exact iff_of_true (cleaned_address hquote) trivial
  | comment a stuff => exact cleaned_comment_iff hquote
  | name stuff a => exact cleaned_name_iff hquote

end Forms

def address : Address where
  pieces := [mark 99, mark 64, mark 100, mark 32]
  textual := by decide +kernel
  quoting := .plain (by decide) (.plain (by decide) (.plain (by decide) (.plain (by decide) .nil)))
  visible := ⟨99, by decide, by decide⟩

def nested : Stuff where
  pieces := [mark 97, mark 40, mark 98, mark 41]
  textual := by decide +kernel
  balanced := .plain (by decide) (.comment (.plain (by decide) .nil) .nil)

/-- The last parenthesis stays. -/
theorem not_cleaned : ¬∀ form : Form, form.Cleaned := by
  intro hall
  have hend : HeaderCleanFrom (octets "c@d (a(b))") = octets "c@d)" := by decide +kernel
  have hclean : HeaderCleanFrom (octets "c@d (a(b))") = octets "c@d" :=
    hall (.comment address nested)
  exact absurd (hend.symm.trans hclean) (by decide)

end Inn.Lib.CleanFrom
