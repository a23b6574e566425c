import Inn.Dbz.Finding
import Inn.Foundation.Files
import Inn.Foundation.Runs
import Inn.History.RoundTrip

/-!
# Writing to the history

A handle that appends lines to the history file through a stream, and stores
their offsets in dbz. The stream holds back octets when the handle is in core.
Whatever is written may come to less than that, and what a stream cannot write
it loses. A write of dbz that fails changes nothing in its file.
-/

namespace Inn.History

open Foundation.Files

structure Hisv6 where
  dbzowner : Bool
  /-- `HIS_RDWR` -/
  rdwr : Bool
  /-- `HIS_INCORE` -/
  incore : Bool
  /-- The history file. -/
  disk : Octets
  /-- Where in the file `writefp` is going to write. -/
  position : Nat
  /-- What `writefp` has not written yet. -/
  pending : Octets
  offset : Nat
  synccount : Nat
  dirty : Nat
  dbz : Dbz.Opened

structure Outcome where
  /-- How much of the line `fwrite` takes. -/
  taken : Nat
  /-- Whether `fflush` works. -/
  flushes : Bool
  /-- How many octets of the stream are in the file thereafter, unless all are. -/
  reached : Nat
  /-- Whether `fseeko` works. -/
  rewinds : Bool
  /-- Whether `dbzstore` works for a hash that dbz does not have. -/
  stores : Bool
  /-- Whether it has written its index when it does not work. -/
  indexed : Bool
  /-- Whether `fflush` works when the history is synchronised. -/
  syncs : Bool
  /-- Whether `dbzsync` works. -/
  dbzsyncs : Bool
  deriving DecidableEq

namespace Hisv6

def reopen (incore : Bool) (synccount : Nat) (disk : Octets) (dbz : Dbz.Opened) : Hisv6 where
  dbzowner := true
  rdwr := true
  incore := incore
  disk := disk
  position := disk.length
  pending := []
  offset := disk.length
  synccount := synccount
  dirty := 0
  dbz := dbz

def put (h : Hisv6) (text : Octets) (n : Nat) : Hisv6 :=
  { h with
    disk := overwrite 0 h.disk h.position (text.take n)
    position := h.position + (text.take n).length
    pending := text.drop n }

def fflush (h : Hisv6) (works : Bool) (reached : Nat) : Bool × Hisv6 :=
  if h.pending = [] then (true, h)
  else if works then (true, h.put h.pending h.pending.length)
  else (false, { h.put h.pending reached with pending := [] })

def sync (h : Hisv6) (o : Outcome) : Bool × Hisv6 :=
  let (r, h) := h.fflush o.syncs o.reached
  if h.dirty ≠ 0 ∧ h.dbzowner then
    if o.dbzsyncs then (r, { h with dirty := 0 }) else (false, h)
  else (r, h)

def writedbz (h : Hisv6) (hash : HASH) (offset : Nat) (o : Outcome) : Bool × Hisv6 :=
  let result := h.dbz.dbzstore hash offset o.stores o.indexed
  let h := { h with dbz := result.2 }
  if result.1 = .error then (false, h)
  else if h.synccount = 0 then (true, h)
  else
    let h := { h with dirty := h.dirty + 1 }
    if h.dirty ≥ h.synccount then h.sync o else (true, h)

def rewind (h : Hisv6) (i : Nat) (o : Outcome) : Hisv6 :=
  if o.rewinds then { h with position := h.offset, pending := [] }
  else { h with offset := h.offset + i, pending := [] }

def writeline (h : Hisv6) (fields : Fields) (o : Outcome) : Bool × Hisv6 :=
  if !h.dbzowner then (false, h)
  else if !h.rdwr then (false, h)
  else
    match formatline fields with
    | none => (false, h)
    | some hisline =>
      let i := min o.taken hisline.length
      let text := h.pending ++ hisline.take i
      if i < hisline.length ∨ !h.incore ∧ !o.flushes then (false, (h.put text o.reached).rewind i o)
      else
        let (r, h') :=
          (h.put text (if h.incore then o.reached else text.length)).writedbz fields.hash h.offset o
        (r, { h' with offset := h'.offset + hisline.length })

/-- The octets that are read, with a nul in the place of the first line feed. -/
def terminated (buf : Octets) : Octets :=
    buf.takeWhile (· ≠ LF) ++ 0 :: (buf.dropWhile (· ≠ LF)).tail

/-- Returns the buffer, and the offset it has been read from. -/
def fetchline (h : Hisv6) (hash : HASH) (works : Bool) (reached : Nat) :
    Option (Octets × Nat) × Hisv6 :=
  if !h.dbzowner then (none, h)
  else
    let (r, h) := if h.rdwr && h.incore then h.fflush works reached else (true, h)
    if !r then (none, h)
    else
      let fetched := h.dbz.dbzfetch hash
      let h := { h with dbz := fetched.2 }
      match fetched.1 with
      | none => (none, h)
      | some offset =>
        -- there is nothing to read at a negative offset
        if offset < 0 then (none, h)
        else
          let buf := pread h.disk offset.toNat HISV6_MAXLINE
          if buf.length < HISV6_MINLINE then (none, h)
          else if LF ∈ buf.takeWhile (· ≠ 0) then (some (terminated buf, offset.toNat), h)
          else (none, h)

/-- If there is a token, there is the article. -/
def answer (buf : Octets) : Bool × Option Fields :=
  match splitline buf with
  | .error _ => (false, none)
  | .ok fields => (fields.token.isSome, some fields)

def lookup (h : Hisv6) (hash : HASH) (works : Bool) (reached : Nat) : Bool × Option Fields :=
  match (h.fetchline hash works reached).1 with
  | none => (false, none)
  | some (buf, _) => answer buf

def check (h : Hisv6) (hash : HASH) : Bool × Hisv6 :=
  if !h.dbzowner then (false, h)
  else ((h.dbz.dbzexists hash).1, { h with dbz := (h.dbz.dbzexists hash).2 })

def step (h : Hisv6) (entry : Fields × Outcome) : Except Empty Hisv6 :=
    .ok (h.writeline entry.1 entry.2).2

end Hisv6

end Inn.History
