import Inn.Foundation.Words
import Inn.Innd.Channel

/-!
# The Xref header field between a master and its slave

A master assigns an article its numbers and writes them into the Xref header
field, and a slave takes the numbers from there.

The names of newsgroups hold neither colons nor blanks, which `NGsplit` sees to,
nor does the name of the server hold blanks.
-/

namespace Inn.Innd.Numbering

open Foundation.Words

def isblank (c : UInt8) : Bool := c = 32 || c = 9 || c = CR || c = LF

abbrev Name := { name : Octets // ∀ c ∈ name, c ≠ 58 ∧ !isblank c }

abbrev Host := { host : Octets // host ≠ [] ∧ ∀ c ∈ host, !isblank c }

structure NEWSGROUP where
  Last : UInt64
  Filenum : UInt64
  Lastwidth : Nat
  /-- The digits of the high mark in the active file. -/
  LastString : Octets
  /-- Have we already put it here? -/
  PostCount : Nat
  deriving DecidableEq

abbrev Active := Name → Option NEWSGROUP

def formatDigits : Nat → Nat → Octets × Nat
  | 0, value => ([], value)
  | width + 1, value =>
    ((formatDigits width (value / 10)).1 ++ [(48 + value % 10).toUInt8],
      (formatDigits width (value / 10)).2)

def FormatLong (value : UInt64) (width : Nat) : Octets × Bool :=
  ((formatDigits width value.toNat).1, (formatDigits width value.toNat).2 = 0)

def atol (text : Octets) : Int :=
  match text.dropWhile isspace with
  | 45 :: rest => max (-2 ^ 63) (-(readDigits (rest.takeWhile isdigit) : Int))
  | 43 :: rest => min (2 ^ 63 - 1) (readDigits (rest.takeWhile isdigit) : Int)
  | rest => min (2 ^ 63 - 1) (readDigits (rest.takeWhile isdigit) : Int)

theorem atol_digits {digits rest : Octets} (hdigits : ∀ c ∈ digits, isdigit c) (hne : digits ≠ [])
    (hrest : ∀ c ∈ rest.head?, isdigit c = false) :
    atol (digits ++ rest) = min (2 ^ 63 - 1) (readDigits digits : Int) := by
  obtain ⟨c, text, hcons⟩ := List.exists_cons_of_ne_nil hne
  have hfirst : isdigit c := hdigits c (by rw [hcons]; exact List.mem_cons_self)
  rw [isdigit, Bool.and_eq_true, decide_eq_true_eq, decide_eq_true_eq] at hfirst
  have hspace : isspace c = false := by
    rw [isspace, Bool.or_eq_false_iff, decide_eq_false_iff_not, Bool.and_eq_false_iff,
      decide_eq_false_iff_not, decide_eq_false_iff_not]
    rw [UInt8.le_iff_toNat_le, UInt8.le_iff_toNat_le] at hfirst
    refine ⟨?_, Or.inr ?_⟩
    · rintro rfl
      exact absurd hfirst.1 (by decide)
    · rw [UInt8.le_iff_toNat_le]
      have h48 : (48 : UInt8).toNat = 48 := rfl
      have h13 : (13 : UInt8).toNat = 13 := rfl
      omega
  have hdrop : (digits ++ rest).dropWhile isspace = digits ++ rest := by
    rw [hcons, List.cons_append, List.dropWhile_cons_of_neg (by simp [hspace])]
  have htake : (digits ++ rest).takeWhile isdigit = digits := by
    rw [List.takeWhile_append_of_pos hdigits]
    cases rest with
    | nil => exact List.append_nil _
    | cons d rest =>
      have hd := hrest d rfl
      rw [List.takeWhile_cons_of_neg (by simp [hd]), List.append_nil]
  rw [atol, hdrop]
  split
  next rest' heq =>
    rw [hcons] at heq
    cases heq
    exact absurd hfirst.1 (by decide)
  next rest' heq =>
    rw [hcons] at heq
    cases heq
    exact absurd hfirst.1 (by decide)
  · rw [htake]

def articleNumber (value : Int) : UInt64 := UInt64.ofNat (value % 2 ^ 64).toNat

def MAXARTLINELENGTH : Nat := 1000

def ARTNUMPRINTSIZE : Nat := 10

structure Assigning where
  active : Active
  /-- The Xref so far, without its line end. -/
  Xref : Octets
  linelen : Nat
  /-- The groups that have been written to it, with the numbers. -/
  pairs : List (Name × UInt64)

def xrefEntry (name : Name) (number : UInt64) : Octets :=
    name.1 ++ octets ":" ++ decimal number.toNat

def separator (linelen : Nat) (name : Name) : Octets :=
  if linelen + 1 + name.1.length + 1 + ARTNUMPRINTSIZE + 2 > MAXARTLINELENGTH then octets "\r\n "
  else octets " "

def bump (ngp : NEWSGROUP) : NEWSGROUP :=
  { ngp with
    PostCount := ngp.PostCount + 1
    Last := ngp.Last + 1
    LastString := (FormatLong (ngp.Last + 1) ngp.Lastwidth).1 }

def assignNumber (st : Assigning) (name : Name) : Assigning :=
  match st.active name with
  | none => st
  | some ngp =>
    if ngp.PostCount > 0 then st
    else if (FormatLong (ngp.Last + 1) ngp.Lastwidth).2 = false then
      { st with active := Function.update st.active name (some (bump ngp)) }
    else
      let entry := separator st.linelen name ++ xrefEntry name (ngp.Last + 1)
      { active := Function.update st.active name (some { bump ngp with Filenum := ngp.Last + 1 })
        Xref := st.Xref ++ entry
        linelen :=
          if (separator st.linelen name).length = 1 then st.linelen +
            entry.length else entry.length - 2
        pairs := st.pairs ++ [(name, ngp.Last + 1)] }

def ARTassignnumbers (Path : Host) (active : Active) (GroupPointers : List Name) : Assigning :=
  let st :=
    GroupPointers.foldl assignNumber { active := active, Xref := Path.1, linelen := 0, pairs := [] }
  { st with Xref := st.Xref ++ [CR, LF] }

def clearPostCounts (active : Active) (GroupPointers : List Name) : Active := fun name =>
  if name ∈ GroupPointers then (active name).map fun ngp =>
    { ngp with PostCount := 0 } else active name

def master (Path : Host) (active : Active) (groups : List Name) : Assigning :=
  ARTassignnumbers Path (clearPostCounts active groups) groups

def NGfind (active : Active) (name : Octets) : Option (Name × NEWSGROUP) :=
  if hname : ∀ c ∈ name, c ≠ 58 ∧ !isblank c then (active ⟨name, hname⟩).map fun ngp =>
    (⟨name, hname⟩, ngp)
  else none

def assignEntry (st : Active × List (Name × UInt64)) (entry : Octets) :
    Active × List (Name × UInt64) :=
  if entry.all fun c => c ≠ 58 then st
  else
    match NGfind st.1 (entry.takeWhile fun c => c ≠ 58) with
    | none => st
    | some (name, ngp) =>
      let Filenum := articleNumber (atol ((entry.dropWhile fun c => c ≠ 58).drop 1))
      if ngp.Last < Filenum then
        let ngp :=
          { ngp with
            Filenum := Filenum, Last := Filenum,
            LastString := (FormatLong Filenum ngp.Lastwidth).1 }
        if (FormatLong Filenum ngp.Lastwidth).2 = false then
          (Function.update st.1 name (some ngp), st.2)
        else
          (Function.update st.1 name (some { ngp with PostCount := ngp.PostCount + 1 }),
            st.2 ++ [(name, Filenum)])
      else
        (Function.update st.1 name
          (some { ngp with Filenum := Filenum, PostCount := ngp.PostCount + 1 }),
          st.2 ++ [(name, Filenum)])

def ARTxrefslave (active : Active) (value : Octets) : Active × List (Name × UInt64) :=
  let p := (value.dropWhile fun c => !isblank c).dropWhile isblank
  (words isblank value.length p).foldl assignEntry (active, [])

def receivedXref (Xref : Octets) : Octets :=
  let header := octets "Xref: " ++ Xref
  slice header (headerValue true HDR_XREF 4 header).1 (headerValue true HDR_XREF 4 header).2

def slave (active : Active) (Xref : Octets) : Active × List (Name × UInt64) :=
  ARTxrefslave active (receivedXref Xref)

end Inn.Innd.Numbering
