import Inn.Innd.Channel
import Inn.Wildmat.Model

/-!
# Message identifiers

A message identifier is scanned by hand. The grammar it is checked against is the one of a news
article: an identifier has a local part and a domain, with an at sign between them. In the lax
syntax the local part may have two dots in a row, and one at sign of its own.
-/

namespace Inn.Lib.MessageId

open Wildmat (CString deref forall_octet)
open List (append_assoc cons_append)

def CC_MSGID_ATOM : UInt8 := 1

def CC_MSGID_NORM : UInt8 := 2

def setClass (p : Octets) (flags : UInt8) (midcclass : UInt8 → UInt8) (i : UInt8) : UInt8 :=
  if p.contains i then flags else midcclass i

def alphanumerics : Octets :=
    octets "abcdefghijklmnopqrstuvwxyzABCDEFGHIJKLMNOPQRSTUVWXYZ0123456789"

def specials : Octets := octets "!#$%&'*+-/=?^_`\x7b|\x7d~"

def others : Octets := octets "\"(),.:;<@"

def midcclass : UInt8 → UInt8 :=
  setClass others CC_MSGID_NORM
    (setClass specials (CC_MSGID_ATOM ||| CC_MSGID_NORM)
      (setClass alphanumerics (CC_MSGID_ATOM ||| CC_MSGID_NORM) fun _ => 0))

def midatomchar (c : UInt8) : Bool := midcclass c &&& CC_MSGID_ATOM != 0

def midnormchar (c : UInt8) : Bool := midcclass c &&& CC_MSGID_NORM != 0

def NNTP_MAXLEN_MSGID : Nat := 250

def scanLocal (lax : Bool) : Nat → Bool → Octets → Option Octets
  | 0, _, _ => none
  | bound + 1, atfound, p =>
    if midatomchar (deref p) then
      let p := p.dropWhile midatomchar
      if deref p ≠ 46 then
        if lax ∧ deref p = 64 then
          -- the domain part begins at the second at sign, if it exists
          if atfound ∨ deref p.tail = 91 ∨ 64 ∉ p.tail then some p
          else scanLocal lax bound true p.tail
        else some p
      else if lax ∧ deref p.tail = 46 then scanLocal lax bound atfound p.tail.tail
      else scanLocal lax bound atfound p.tail
    else none

def scanLiteral : Octets → Option Octets
  | [] => none
  | c :: p => if c = 93 then some p else if midnormchar c then scanLiteral p else none

def scanDomain : Nat → UInt8 → Octets → Option Octets
  | 0, _, _ => none
  | bound + 1, before, p =>
    if midatomchar (deref p) then
      let p := p.dropWhile midatomchar
      if deref p ≠ 46 then some p else scanDomain bound 46 p.tail
    else if before ≠ 64 ∨ deref p ≠ 91 then none
    else scanLiteral p.tail

def skipBlanks (stripspaces : Bool) (p : Octets) : Octets :=
    if stripspaces then p.dropWhile ISWHITE else p

def scanMessageID (stripspaces laxsyntax : Bool) (p : Octets) : Bool :=
  if deref p ≠ 60 then false
  else
    match scanLocal laxsyntax p.tail.length false p.tail with
    | none => false
    | some p =>
      if deref p ≠ 64 then false
      else
        match scanDomain p.tail.length 64 p.tail with
        | none => false
        | some p =>
          if deref p ≠ 62 then false
          else skipBlanks stripspaces p.tail = []

def IsValidMessageID (MessageID : CString) (stripspaces laxsyntax : Bool) : Bool :=
  if NNTP_MAXLEN_MSGID < MessageID.octets.length then false
  else scanMessageID stripspaces laxsyntax (skipBlanks stripspaces MessageID.octets)

def atext (c : UInt8) : Prop :=
  (97 ≤ c ∧ c ≤ 122) ∨ (65 ≤ c ∧ c ≤ 90) ∨ (48 ≤ c ∧ c ≤ 57) ∨
    c ∈ [33, 35, 36, 37, 38, 39, 42, 43, 45, 47, 61, 63, 94, 95, 96, 123, 124, 125, 126]

def mdtext (c : UInt8) : Prop := (33 ≤ c ∧ c ≤ 61) ∨ (63 ≤ c ∧ c ≤ 90) ∨ (94 ≤ c ∧ c ≤ 126)

instance : DecidablePred atext := fun _ => inferInstanceAs (Decidable (_ ∨ _))

instance : DecidablePred mdtext := fun _ => inferInstanceAs (Decidable (_ ∨ _))

def IsAtom (text : Octets) : Prop := text ≠ [] ∧ ∀ c ∈ text, atext c

inductive Atoms (lax : Bool) : Bool → Octets → Prop
  | atom {mayAt : Bool} {a : Octets} (ha : IsAtom a) : Atoms lax mayAt a
  | dot {mayAt : Bool} {a rest : Octets} (ha : IsAtom a) (hrest : Atoms lax mayAt rest) :
      Atoms lax mayAt (a ++ 46 :: rest)
  | dots {mayAt : Bool} {a rest : Octets} (hlax : lax = true) (ha : IsAtom a)
    (hrest : Atoms lax mayAt rest) :
      Atoms lax mayAt (a ++ 46 :: 46 :: rest)
  | atSign {a rest : Octets} (ha : IsAtom a) (hrest : Atoms lax false rest) :
    Atoms lax true (a ++ 64 :: rest)

def DotAtomText : Octets → Prop := Atoms false false

inductive Domain : Octets → Prop
  | dotAtom {text : Octets} (htext : DotAtomText text) : Domain text
  | literal {text : Octets} (htext : ∀ c ∈ text, mdtext c) : Domain (91 :: (text ++ [93]))

inductive Identifier (lax : Bool) : Octets → Prop
  | intro {localPart domain : Octets} (hlocal : Atoms lax lax localPart) (hdomain : Domain domain) :
      Identifier lax (60 :: (localPart ++ 64 :: (domain ++ [62])))

inductive Surrounded (lax : Bool) : Octets → Prop
  | intro {before text after : Octets} (hbefore : ∀ c ∈ before, ISWHITE c = true)
    (htext : Identifier lax text)
      (hafter : ∀ c ∈ after, ISWHITE c = true) : Surrounded lax (before ++ (text ++ after))

section Tables

theorem mem_map_toUInt8 {c : UInt8} {ns : List Nat} (hns : ∀ n ∈ ns, n < 256) :
    c ∈ ns.map Nat.toUInt8 ↔ c.toNat ∈ ns := by
  rw [List.mem_map]
  constructor
  · rintro ⟨n, hn, rfl⟩
    rwa [UInt8.toNat_ofNat_of_lt' (hns n hn)]
  · exact fun hc => ⟨c.toNat, hc, UInt8.ofNat_toNat⟩

def specialNumbers : List Nat :=
    [33, 35, 36, 37, 38, 39, 42, 43, 45, 47, 61, 63, 94, 95, 96, 123, 124, 125, 126]

theorem classes_eq :
    alphanumerics = (List.range' 97 26 ++ List.range' 65 26 ++ List.range' 48 10).map Nat.toUInt8 ∧
      specials = specialNumbers.map Nat.toUInt8 ∧
      others = [34, 40, 41, 44, 46, 58, 59, 60, 64].map Nat.toUInt8 := ⟨rfl, rfl, rfl⟩

theorem atext_iff (c : UInt8) :
    atext c ↔ (97 ≤ c.toNat ∧ c.toNat ≤ 122) ∨ (65 ≤ c.toNat ∧ c.toNat ≤ 90) ∨
    (48 ≤ c.toNat ∧ c.toNat ≤ 57) ∨ c.toNat ∈ specialNumbers := by
  rw [← mem_map_toUInt8 (by decide)]
  simp only [atext, UInt8.le_iff_toNat_le]
  rfl

theorem mdtext_iff (c : UInt8) :
    mdtext c ↔ (33 ≤ c.toNat ∧ c.toNat ≤ 61) ∨ (63 ≤ c.toNat ∧ c.toNat ≤ 90) ∨
    (94 ≤ c.toNat ∧ c.toNat ≤ 126) := by
  simp only [mdtext, UInt8.le_iff_toNat_le]
  rfl

theorem midcclass_eq (c : UInt8) :
    midcclass c = if atext c then 3 else if mdtext c then 2 else 0 := by
  obtain ⟨halphanumerics, hspecials, hothers⟩ := classes_eq
  have hmem : ∀ {p : Octets} {ns : List Nat}, p = ns.map Nat.toUInt8 → (∀ n ∈ ns, n < 256) →
    (c ∈ p ↔ c.toNat ∈ ns) := by
    rintro p ns rfl hns
    exact mem_map_toUInt8 hns
  simp only [midcclass, setClass, List.contains_iff_mem, hmem hothers (by decide),
    hmem hspecials (by decide),
    hmem halphanumerics (by decide), atext_iff, mdtext_iff]
  -- the rest is a table of numbers, looked at one by one
  have hany : ∀ {ns : List Nat} {n : Nat}, n ∈ ns ↔ ns.any (Nat.beq n) := by
    simp
  simp only [List.mem_append, List.mem_range'_1]
  simp only [hany]
  have hc := c.toNat_lt
  generalize c.toNat = n at hc ⊢
  revert n
  decide +kernel

theorem mdtext_of_atext {c : UInt8} (hatext : atext c) : mdtext c := by
  rw [mdtext_iff]
  rw [atext_iff] at hatext
  simp only [specialNumbers, List.mem_cons, List.not_mem_nil, or_false] at hatext
  omega

theorem midatomchar_iff (c : UInt8) : midatomchar c = true ↔ atext c := by
  rw [midatomchar, midcclass_eq]
  split_ifs with hatext hmdtext
  · exact iff_of_true (by decide) hatext
  · exact iff_of_false (by decide) hatext
  · exact iff_of_false (by decide) hatext

theorem midnormchar_iff (c : UInt8) : midnormchar c = true ↔ mdtext c := by
  rw [midnormchar, midcclass_eq]
  split_ifs with hatext hmdtext
  · exact iff_of_true (by decide) (mdtext_of_atext hatext)
  · exact iff_of_true (by decide) hmdtext
  · exact iff_of_false (by decide) hmdtext

variable {a t p : Octets}

theorem IsAtom.head (ha : IsAtom a) (t : Octets) : midatomchar (deref (a ++ t)) = true := by
  obtain ⟨c, a, rfl⟩ := List.exists_cons_of_ne_nil ha.1
  exact (midatomchar_iff c).mpr (ha.2 c List.mem_cons_self)

theorem IsAtom.dropWhile (ha : IsAtom a) (hends : ¬atext (deref t)) :
    (a ++ t).dropWhile midatomchar = t := by
  rw [List.dropWhile_append_of_pos fun c hc => (midatomchar_iff c).mpr (ha.2 c hc)]
  cases t with
  | nil => rfl
  | cons c t => exact List.dropWhile_cons_of_neg fun hc => hends ((midatomchar_iff c).mp hc)

theorem exists_atom (hfirst : midatomchar (deref p) = true) :
    ∃ a, IsAtom a ∧ p = a ++ p.dropWhile midatomchar := by
  refine ⟨p.takeWhile midatomchar,
    ⟨?_, fun c hc => (midatomchar_iff c).mp (List.mem_takeWhile_imp hc)⟩,
    List.takeWhile_append_dropWhile.symm⟩
  cases p with
  | nil => exact absurd hfirst (by decide)
  | cons c p =>
    rw [List.takeWhile_cons_of_pos (show midatomchar c = true from hfirst)]
    nofun

theorem eq_cons_of_deref {c : UInt8} (hc : c ≠ 0) (h : deref p = c) : p = c :: p.tail := by
  cases p with
  | nil => exact absurd h.symm hc
  | cons d p => rw [← show d = c from h]; rfl

end Tables

section Local

variable {lax mayAt : Bool} {l p q r : Octets}

theorem Atoms.head (h : Atoms lax mayAt l) (t : Octets) : atext (deref (l ++ t)) := by
  rw [← midatomchar_iff]
  cases h with
  | atom ha => exact ha.head t
  | dot ha => rw [append_assoc]; exact ha.head _
  | dots _ ha => rw [append_assoc]; exact ha.head _
  | atSign ha => rw [append_assoc]; exact ha.head _

theorem of_scanLocal {bound : Nat} {atfound : Bool} (h : scanLocal lax bound atfound p = some q) :
    ∃ l, p = l ++ q ∧ Atoms lax (lax && !atfound) l := by
  induction bound generalizing atfound p with
  | zero => cases h
  | succ bound ih =>
    rw [scanLocal] at h
    dsimp only at h
    split_ifs at h with hfirst hdot hat hstop hdots
    all_goals obtain ⟨a, ha, hp⟩ := exists_atom hfirst
    · cases h
      exact ⟨a, hp, .atom ha⟩
    · obtain ⟨rest, hrest, hatoms⟩ := ih h
      obtain ⟨rfl, hat⟩ := hat
      rw [eq_cons_of_deref (by decide) hat, hrest] at hp
      rw [not_or] at hstop
      rw [Bool.eq_false_iff.mpr hstop.1]
      exact ⟨a ++ 64 :: rest, by rw [hp, append_assoc, cons_append], .atSign ha hatoms⟩
    · cases h
      exact ⟨a, hp, .atom ha⟩
    · obtain ⟨rest, hrest, hatoms⟩ := ih h
      rw [eq_cons_of_deref (by decide) (not_not.mp hdot),
        eq_cons_of_deref (by decide) hdots.2, hrest] at hp
      exact ⟨a ++ 46 :: 46 :: rest, by rw [hp, append_assoc, cons_append, cons_append],
        .dots hdots.1 ha hatoms⟩
    · obtain ⟨rest, hrest, hatoms⟩ := ih h
      rw [eq_cons_of_deref (by decide) (not_not.mp hdot), hrest] at hp
      exact ⟨a ++ 46 :: rest, by rw [hp, append_assoc, cons_append], .dot ha hatoms⟩

theorem scanLocal_atom {a : Octets} {c : UInt8} (ha : IsAtom a) (hends : ¬atext c)
    (t : Octets) (bound : Nat) (atfound : Bool) :
    scanLocal lax (bound + 1) atfound (a ++ c :: t) =
      if c ≠ 46 then
        if lax ∧ c = 64 then
          if atfound ∨ deref t = 91 ∨ 64 ∉ t then some (c :: t) else scanLocal lax bound true t
        else some (c :: t)
      else if lax ∧ deref t = 46 then scanLocal lax bound atfound t.tail
      else scanLocal lax bound atfound t := by
  rw [scanLocal, if_pos (ha.head _), ha.dropWhile (t := c :: t) hends]
  rfl

theorem scanLocal_eq (h : Atoms lax mayAt l) {atfound : Bool} (hmay : mayAt = (lax && !atfound))
    (hdomain : deref r = 91 ∨ 64 ∉ r) {bound : Nat} (hbound : l.length ≤ bound) :
    scanLocal lax bound atfound (l ++ 64 :: r) = some (64 :: r) := by
  induction h generalizing atfound bound with
  | @atom mayAt a ha =>
    have hlength := List.length_pos_of_ne_nil ha.1
    obtain ⟨bound, rfl⟩ : ∃ n, bound = n + 1 := Nat.exists_eq_add_one.mpr (by omega)
    rw [scanLocal_atom ha (by decide), if_pos (by decide)]
    split_ifs with hat hstop
    · rfl
    · exact absurd (.inr hdomain) hstop
    · rfl
  | @dot mayAt a rest ha hrest ih =>
    obtain ⟨bound, rfl⟩ : ∃ n, bound = n + 1 := Nat.exists_eq_add_one.mpr (by simp at hbound; omega)
    rw [append_assoc, cons_append, scanLocal_atom ha (by decide), if_neg (by decide)]
    have hnext : deref (rest ++ 64 :: r) ≠ 46 := by
      intro heq
      have hhead := hrest.head (64 :: r)
      rw [heq] at hhead
      exact absurd hhead (by decide)
    rw [if_neg fun h => hnext h.2]
    exact ih hmay (by simp at hbound; omega)
  | @dots mayAt a rest hlax ha hrest ih =>
    obtain ⟨bound, rfl⟩ : ∃ n, bound = n + 1 := Nat.exists_eq_add_one.mpr (by simp at hbound; omega)
    rw [append_assoc, cons_append, cons_append, scanLocal_atom ha (by decide),
      if_neg (by decide), if_pos ⟨hlax, rfl⟩]
    exact ih hmay (by simp at hbound; omega)
  | @atSign a rest ha hrest ih =>
    obtain ⟨bound, rfl⟩ : ∃ n, bound = n + 1 := Nat.exists_eq_add_one.mpr (by simp at hbound; omega)
    obtain ⟨hlax, hfound⟩ := Bool.and_eq_true_iff.mp hmay.symm
    have hnext : deref (rest ++ 64 :: r) ≠ 91 := by
      intro heq
      have hhead := hrest.head (64 :: r)
      rw [heq] at hhead
      exact absurd hhead (by decide)
    have hgo : ¬(atfound = true ∨ deref (rest ++ 64 :: r) = 91 ∨ 64 ∉ rest ++ 64 :: r) := by
      rintro (hfound' | hliteral | hlast)
      · rw [hfound'] at hfound
        exact absurd hfound (by decide)
      · exact hnext hliteral
      · exact hlast (by simp)
    rw [append_assoc, cons_append, scanLocal_atom ha (by decide), if_pos (by decide),
      if_pos ⟨hlax, rfl⟩,
      if_neg hgo]
    exact ih (by simp) (by simp at hbound; omega)

end Local

section Domain

variable {d p q r : Octets}

theorem of_scanLiteral (h : scanLiteral p = some q) :
    ∃ text, p = text ++ 93 :: q ∧ ∀ c ∈ text, mdtext c := by
  induction p with
  | nil => cases h
  | cons c p ih =>
    rw [scanLiteral] at h
    split_ifs at h with hclose hnorm
    · rw [hclose, Option.some.inj h]
      exact ⟨[], rfl, nofun⟩
    · obtain ⟨text, rfl, htext⟩ := ih h
      exact ⟨c :: text, rfl, List.forall_mem_cons.mpr ⟨(midnormchar_iff c).mp hnorm, htext⟩⟩

theorem scanLiteral_eq {text : Octets} (htext : ∀ c ∈ text, mdtext c) (q : Octets) :
    scanLiteral (text ++ 93 :: q) = some q := by
  induction text with
  | nil => rfl
  | cons c text ih =>
    obtain ⟨hc, hrest⟩ := List.forall_mem_cons.mp htext
    have hclose : c ≠ 93 := by
      rintro rfl
      exact absurd hc (by decide)
    rw [cons_append, scanLiteral, if_neg hclose, if_pos ((midnormchar_iff c).mpr hc), ih hrest]

theorem of_scanDomain {bound : Nat} {before : UInt8} (h : scanDomain bound before p = some q) :
    ∃ d, p = d ++ q ∧ (DotAtomText d ∨ before = 64 ∧ Domain d) := by
  induction bound generalizing before p with
  | zero => cases h
  | succ bound ih =>
    rw [scanDomain] at h
    dsimp only at h
    split_ifs at h with hfirst hdot hliteral
    · obtain ⟨a, ha, hp⟩ := exists_atom hfirst
      cases h
      exact ⟨a, hp, .inl (.atom ha)⟩
    · obtain ⟨a, ha, hp⟩ := exists_atom hfirst
      obtain ⟨rest, hrest, hdomain⟩ := ih h
      have hatoms := hdomain.resolve_right fun h => absurd h.1 (by decide)
      rw [eq_cons_of_deref (by decide) (not_not.mp hdot), hrest] at hp
      exact ⟨a ++ 46 :: rest, by rw [hp, append_assoc, cons_append], .inl (.dot ha hatoms)⟩
    · rw [not_or, not_not, not_not] at hliteral
      obtain ⟨text, hp, htext⟩ := of_scanLiteral h
      refine ⟨91 :: (text ++ [93]), ?_, .inr ⟨hliteral.1, .literal htext⟩⟩
      rw [eq_cons_of_deref (by decide) hliteral.2, hp, cons_append, append_assoc]
      rfl

theorem scanDomain_atom {a : Octets} {c : UInt8} (ha : IsAtom a) (hends : ¬atext c)
    (t : Octets) (bound : Nat) (before : UInt8) :
    scanDomain (bound + 1) before (a ++ c :: t) =
      if c ≠ 46 then some (c :: t) else scanDomain bound 46 t := by
  rw [scanDomain, if_pos (ha.head _), ha.dropWhile (t := c :: t) hends]
  rfl

theorem scanDomain_atoms {lax mayAt : Bool} (h : Atoms lax mayAt d) (hlax : lax = false)
    (hmay : mayAt = false) {bound : Nat} {before : UInt8} (hbound : d.length ≤ bound) :
      scanDomain bound before (d ++ 62 :: r) = some (62 :: r) := by
  induction h generalizing before bound with
  | @atom _ a ha =>
    have hlength := List.length_pos_of_ne_nil ha.1
    obtain ⟨bound, rfl⟩ : ∃ n, bound = n + 1 := Nat.exists_eq_add_one.mpr (by omega)
    rw [scanDomain_atom ha (by decide), if_pos (by decide)]
  | @dot _ a rest ha _ ih =>
    obtain ⟨bound, rfl⟩ : ∃ n, bound = n + 1 := Nat.exists_eq_add_one.mpr (by simp at hbound; omega)
    rw [append_assoc, cons_append, scanDomain_atom ha (by decide), if_neg (by decide)]
    exact ih hmay (by simp at hbound; omega)
  | dots htrue => exact absurd (htrue.symm.trans hlax) (by decide)
  | atSign => exact absurd hmay (by decide)

theorem scanDomain_eq (h : Domain d) {bound : Nat} (hbound : d.length ≤ bound) :
    scanDomain bound 64 (d ++ 62 :: r) = some (62 :: r) := by
  cases h with
  | dotAtom hd => exact scanDomain_atoms hd rfl rfl hbound
  | @literal text htext =>
    obtain ⟨bound, rfl⟩ : ∃ n, bound = n + 1 := Nat.exists_eq_add_one.mpr (by simp at hbound; omega)
    have hfirst : ¬midatomchar (deref (91 :: (text ++ 93 :: 62 :: r))) = true := by
      rw [show deref (91 :: (text ++ 93 :: 62 :: r)) = 91 from rfl, midatomchar_iff]
      decide
    rw [cons_append, append_assoc, List.singleton_append, scanDomain, if_neg hfirst,
      if_neg (by simp [deref])]
    exact scanLiteral_eq htext _

theorem IsAtom.atSign_notMem {a : Octets} (ha : IsAtom a) : 64 ∉ a :=
    fun h => absurd (ha.2 64 h) (by decide)

theorem Atoms.atSign_notMem {lax mayAt : Bool} (h : Atoms lax mayAt d)
    (hmay : mayAt = false) : 64 ∉ d := by
  induction h with
  | atom ha => exact ha.atSign_notMem
  | dot ha _ ih => simp [ha.atSign_notMem, ih hmay]
  | dots _ ha _ ih => simp [ha.atSign_notMem, ih hmay]
  | atSign => exact absurd hmay (by decide)

theorem Domain.ends (h : Domain d) (hr : 64 ∉ r) :
    deref (d ++ 62 :: r) = 91 ∨ 64 ∉ d ++ 62 :: r := by
  cases h with
  | dotAtom hd => exact .inr (by simp [hd.atSign_notMem rfl, hr])
  | literal => exact .inl rfl

end Domain

section Accepting

variable {stripspaces lax : Bool} {p : Octets}

theorem atSign_notMem_of_white (h : ∀ c ∈ p, ISWHITE c = true) : 64 ∉ p :=
    fun hmem => absurd (h 64 hmem) (by decide)

theorem skipBlanks_nil_iff : skipBlanks stripspaces p = [] ↔
    (∀ c ∈ p, ISWHITE c = true) ∧ (stripspaces = false → p = []) := by
  cases stripspaces with
  | false => exact ⟨fun h => ⟨by rw [show p = [] from h]; nofun, fun _ => h⟩, fun h => h.2 rfl⟩
  | true => exact ⟨fun h => ⟨List.dropWhile_eq_nil_iff.mp h, nofun⟩,
    fun h => List.dropWhile_eq_nil_iff.mpr h.1⟩

theorem scanMessageID_iff : scanMessageID stripspaces lax p = true ↔
    ∃ text after, p = text ++ after ∧ Identifier lax text ∧ (∀ c ∈ after, ISWHITE c = true) ∧
      (stripspaces = false → after = []) := by
  rw [scanMessageID]
  constructor
  · intro h
    split_ifs at h with hopen
    cases hlocal : scanLocal lax p.tail.length false p.tail with
    | none => rw [hlocal] at h; cases h
    | some p' =>
      rw [hlocal] at h
      dsimp only at h
      split_ifs at h with hat
      cases hdomain : scanDomain p'.tail.length 64 p'.tail with
      | none => rw [hdomain] at h; cases h
      | some p'' =>
        rw [hdomain] at h
        dsimp only at h
        split_ifs at h with hclose
        obtain ⟨l, hl, hatoms⟩ := of_scanLocal hlocal
        obtain ⟨d, hd, hdomain⟩ := of_scanDomain hdomain
        have hafter := skipBlanks_nil_iff.mp (of_decide_eq_true h)
        have hp := eq_cons_of_deref (by decide) (not_not.mp hopen)
        rw [hl, eq_cons_of_deref (by decide) (not_not.mp hat), hd,
          eq_cons_of_deref (by decide) (not_not.mp hclose)] at hp
        rw [Bool.not_false, Bool.and_true] at hatoms
        have hdom : Domain d := hdomain.elim .dotAtom And.right
        exact ⟨_, p''.tail, by rw [hp]; simp, .intro hatoms hdom, hafter⟩
  · rintro ⟨_, after, rfl, ⟨hatoms, hdomain⟩, hafter⟩
    rename_i l d
    have htext : 60 :: (l ++ 64 :: (d ++ [62])) ++ after =
      60 :: (l ++ 64 :: (d ++ 62 :: after)) := by simp
    have hlocal : scanLocal lax (l ++ 64 :: (d ++ 62 :: after)).length false
      (l ++ 64 :: (d ++ 62 :: after)) =
        some (64 :: (d ++ 62 :: after)) :=
      scanLocal_eq hatoms (by simp) (hdomain.ends (atSign_notMem_of_white hafter.1)) (by simp)
    have hscan : scanDomain (d ++ 62 :: after).length 64 (d ++ 62 :: after) = some (62 :: after) :=
      scanDomain_eq hdomain (by simp)
    rw [htext, if_neg (by simp [deref]), List.tail_cons, hlocal]
    dsimp only
    rw [if_neg (by simp [deref]), List.tail_cons, hscan]
    dsimp only
    rw [if_neg (by simp [deref]), List.tail_cons]
    exact decide_eq_true (skipBlanks_nil_iff.mpr hafter)

theorem Identifier.head {text : Octets} (h : Identifier lax text) : ∃ rest, text = 60 :: rest := by
  cases h
  exact ⟨_, rfl⟩

theorem surrounded_iff : Surrounded lax p ↔
    ∃ text after, p.dropWhile ISWHITE = text ++ after ∧ Identifier lax text ∧
      ∀ c ∈ after, ISWHITE c = true := by
  constructor
  · rintro ⟨hbefore, htext, hafter⟩
    refine ⟨_, _, ?_, htext, hafter⟩
    obtain ⟨rest, rfl⟩ := htext.head
    rw [List.dropWhile_append_of_pos hbefore]
    rfl
  · rintro ⟨text, after, hp, htext, hafter⟩
    rw [← List.takeWhile_append_dropWhile (p := ISWHITE) (l := p), hp]
    exact .intro (fun c hc => List.mem_takeWhile_imp hc) htext hafter

/-- The identifiers that are accepted, with the spaces and tabs around them when these are
skipped. -/
theorem IsValidMessageID_iff (MessageID : CString) (stripspaces lax : Bool) :
    IsValidMessageID MessageID stripspaces lax = true ↔
      MessageID.octets.length ≤ NNTP_MAXLEN_MSGID ∧
        if stripspaces then Surrounded lax MessageID.octets
          else Identifier lax MessageID.octets := by
  rw [IsValidMessageID]
  by_cases hlong : NNTP_MAXLEN_MSGID < MessageID.octets.length
  · rw [if_pos hlong]
    exact ⟨nofun, fun h => absurd hlong (Nat.not_lt.mpr h.1)⟩
  · rw [if_neg hlong, scanMessageID_iff, and_iff_right (Nat.not_lt.mp hlong)]
    cases stripspaces with
    | true =>
      rw [if_pos rfl, surrounded_iff]
      exact exists_congr fun text => exists_congr fun after => by simp [skipBlanks]
    | false =>
      rw [if_neg Bool.false_ne_true]
      constructor
      · rintro ⟨text, after, hp, htext, -, hafter⟩
        rw [hafter rfl, List.append_nil] at hp
        rwa [show MessageID.octets = text from hp]
      · intro htext
        exact ⟨_, [], (List.append_nil _).symm, htext, nofun, fun _ => rfl⟩

end Accepting

end Inn.Lib.MessageId
