import Inn.Dbz.Finding
import Inn.History.RoundTrip

/-!
# Expiring the history

The history file is read line by line, and what the callback makes of a line is
written to a new one, unless its hash is in the new database already. Nothing
goes wrong while the files are read and written. The history is not open for
writing, and the new files take the place of the old ones. A line is split
together with what the buffer has behind it.
-/

namespace Inn.History

open Foundation.Words

inductive Line
  | long
  | text (p : Octets)
  deriving DecidableEq

def QIOread (size : Nat) : Octets → Octets → List Line
  | line, [] => if line.length ≥ size then [.long] else []
  | line, c :: rest =>
    if c = LF then (if line.length ≥ size then .long else .text line) :: QIOread size [] rest
    else QIOread size (line ++ [c]) rest

abbrev Callback := Nat → time_t → time_t → time_t → TOKEN → Bool × TOKEN

/-- The new history: its lines, and its database. -/
structure New where
  entries : List Fields
  dbz : Dbz.Opened

/-- The database is in core, and is not written through. -/
def New.created (conf : Dbz.Config) : New := ⟨[], Dbz.Opened.fresh conf ⟨false, .mem, .mem, true⟩⟩

def New.offset (new : New) : Nat := (new.entries.flatMap fun entry => lineText entry ++ [LF]).length

def remembered (threshold : time_t) (entry : Fields) : Option Fields :=
  if entry.posted ≥ threshold ∨ entry.posted ≤ 0 ∧ entry.arrived ≥ threshold then some
    entry else none

def result (callback : Callback) (threshold : time_t) (line : Nat) (fields : Fields) :
    Option Fields :=
  match fields.token with
  | none => remembered threshold fields
  | some token =>
    let (keep, token) := callback line fields.arrived fields.posted fields.expires token
    if keep then some { fields with token := some token }
    else remembered threshold { fields with token := none, expires := 0 }

def hisv6Writeline (new : New) (entry : Fields) : Bool × New :=
  match formatline entry with
  | none => (false, new)
  | some _ => (true, ⟨new.entries ++ [entry], (new.dbz.dbzstore entry.hash new.offset true true).2⟩)

def hisv6Expirecb (callback : Callback) (threshold : time_t) (line : Nat) (fields : Fields)
    (new : New) : Bool × New :=
  let seen := new.dbz.dbzexists fields.hash
  let new := { new with dbz := seen.2 }
  if seen.1 then (true, new)
  else
    match result callback threshold line fields with
    | none => (true, new)
    | some entry => hisv6Writeline new entry

inductive Stop
  | failed
  | null (r : Bool) (line : Nat) (new : New) (rest : List Line)

end Inn.History
