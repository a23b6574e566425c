import Inn.History.Expire

/-!
# What is left of a history

Expiry leaves what the callback makes of the first line of every hash, provided
that the first line is well-formed, that no line that is too long stops the
reading early, that no line that ends in its hash is taken for an entry with
what stands behind it, and that the new database tells the hashes apart.
-/

namespace Inn.History

open Foundation.Words
open List (append_nil cons_append append_assoc nil_append mem_cons map_cons mem_append)

section Results

variable {callback : Callback} {threshold : time_t}

end Results

def wellFormed : List Line → Nat → List (Nat × Fields)
  | [], _ => []
  | .long :: rest, line => wellFormed rest line
  | .text p :: rest, line =>
    match splitline p with
    | .error _ => wellFormed rest (line + 1)
    | .ok fields => (line, fields) :: wellFormed rest (line + 1)

def expected (callback : Callback) (threshold : time_t) :
    List (Nat × Fields) → List HASH → List Fields
  | [], _ => []
  | (line, fields) :: rest, seen =>
    if fields.hash ∈ seen then expected callback threshold rest seen
    else
      (result callback threshold line fields).toList ++
        expected callback threshold rest (fields.hash :: seen)

def beforeLong (lines : List Line) : List Line := lines.takeWhile (· ≠ .long)

def afterLong (lines : List Line) : List Line := (lines.dropWhile (· ≠ .long)).tail

def readable (reason : Bool) (lines more : List Line) : List Line :=
  if reason then beforeLong lines ++ beforeLong (afterLong lines ++ more) else beforeLong lines

def hidden (reason : Bool) (lines more : List Line) : List Line :=
  if reason then afterLong (afterLong lines ++ more) else afterLong lines

/-- No line that ends in its hash is taken for an entry with what stands behind it. -/
def Refused (behind : Nat → Octets) (lines : List Line) (line : Nat) : Prop :=
  ∀ k p, lines[k]? = some (.text p) → p.headD 0 = 91 → p.length < 33 →
    ∃ error, splitline (p ++ 0 :: behind (line + k)) = .error error

/-- The database that has the entry, if there is one. -/
def entered (dbz : Dbz.Opened) : Option Fields → Dbz.Opened
  | none => dbz
  | some entry => (dbz.dbzstore entry.hash 0 true true).2

section Reading

variable {behind : Nat → Octets} {callback : Callback} {threshold : time_t}

def kept (callback : Callback) (threshold : time_t) : List (Nat × Fields) → New → New
  | [], new => new
  | (line, fields) :: rest, new =>
    kept callback threshold rest (hisv6Expirecb callback threshold line fields new).2

theorem Refused.tail {item : Line} {rest : List Line} {line : Nat}
    (hrefused : Refused behind (item :: rest) line) :
    Refused behind rest (line + 1) := by
  intro k p hp hbracket hshort
  obtain ⟨error, herror⟩ := hrefused (k + 1) p hp hbracket hshort
  exact ⟨error, by rwa [show line + 1 + k = line + (k + 1) by omega]⟩

/-- What stands behind a line makes no difference. -/
theorem Refused.cases {p : Octets} {rest : List Line} {line : Nat}
    (hrefused : Refused behind (.text p :: rest) line) :
    (∃ error error', splitline p = .error error ∧
      splitline (p ++ 0 :: behind line) = .error error') ∨
      ∃ fields, splitline p = .ok fields ∧ splitline (p ++ 0 :: behind line) = .ok fields := by
  by_cases hwhole : p.headD 0 = 91 → 33 ≤ p.length
  · rw [splitline_behind hwhole]
    cases splitline p with
    | error error => exact .inl ⟨error, error, rfl, rfl⟩
    | ok fields => exact .inr ⟨fields, rfl, rfl⟩
  · rw [Classical.not_imp, Nat.not_le] at hwhole
    obtain ⟨hbracket, hshort⟩ := hwhole
    obtain ⟨error', herror'⟩ := hrefused 0 p rfl hbracket hshort
    have herror : splitline p = .error "`]' missing from history line" := by
      have hrest : p.tail.drop 32 = [] := by
        rw [List.drop_eq_nil_iff, List.length_tail]
        omega
      rw [splitline, if_neg (not_not.mpr hbracket), hrest]
      rfl
    exact .inl ⟨_, error', herror, herror'⟩

theorem Refused.before {reason : Bool} {lines more : List Line}
    (hrefused : Refused behind (readable reason lines more) 1) :
    Refused behind (beforeLong lines) 1 := by
  intro k p hp
  refine hrefused k p ?_
  rw [readable]
  split
  · rw [List.getElem?_append_left (List.getElem?_eq_some_iff.mp hp).1, hp]
  · exact hp

theorem Refused.after {lines more : List Line}
    (hrefused : Refused behind (readable true lines more) 1) :
    Refused behind (beforeLong (afterLong lines ++ more)) (1 + (beforeLong lines).length) := by
  intro k p hp hbracket hshort
  have hread : (readable true lines more)[(beforeLong lines).length + k]? = some (.text p) := by
    rw [readable, if_pos rfl, List.getElem?_append_right (Nat.le_add_right _ _),
      Nat.add_sub_cancel_left, hp]
  obtain ⟨error, herror⟩ := hrefused _ p hread hbracket hshort
  exact ⟨error, by rwa [Nat.add_assoc]⟩

end Reading

section Comparison

variable {callback : Callback} {threshold : time_t}

section Entries

variable {line : Nat} {fields : Fields} {new : New} {dbz : Dbz.Opened}

end Entries

end Comparison

end Inn.History
