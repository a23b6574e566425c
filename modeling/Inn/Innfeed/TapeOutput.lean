import Inn.Foundation.Runs
import Inn.Innfeed.TapeLines

/-!
# The size of a backlog file

`innfeed` appends a line to the output file of a peer for each article that it could
not send. A file that has reached the high limit is shrunk to the low one: what comes
behind the next line end is copied to a temporary file, which then takes the place of
the old one. A cut at the start of a line is taken for one inside of it, and this line
is lost as well. From the removal of the old file on, and when reading fails, there is
no way back.
-/

namespace Inn.Innfeed.TapeOutput

open Foundation.Runs (run Meets meets_congr)
open List (length_append length_drop append_assoc)

structure Stream where
  file : Octets
  position : Nat
  deriving DecidableEq

def Stream.append (fp : Stream) (text : Octets) : Stream :=
  ⟨fp.file ++ text, fp.file.length + text.length⟩

structure Block where
  /-- An error comes behind so many octets. -/
  fread : Option Nat
  fwrite : Bool

def Block.size (block : Block) : Nat := block.fread.elim BUFSIZ (min BUFSIZ)

structure Calls where
  mkstemp : Bool
  fdopen : Bool
  /-- To the place where the file is cut. -/
  fseeko : Bool
  /-- An error comes behind so many octets. -/
  fgetc : Option Nat
  blocks : Nat → Block
  /-- Back to the end of the old file. -/
  seekBack : Bool
  /-- The temporary file has no more than so many octets. -/
  fclose : Option Nat
  unlink : Bool
  rename : Bool
  freopen : Bool
  /-- To the end of the new file. -/
  seekEnd : Bool

inductive Outcome
  | returns (result : Bool) (fp : Stream)
  /-- `logAndExit`, with the file that there is. -/
  | exits (file : Option Octets)
  deriving DecidableEq

def copyTail (blocks : Nat → Block) : Nat → Octets → Except Nat Octets
  | 0, _ => .ok []
  | fuel + 1, rest =>
    let buffer := rest.take (blocks 0).size
    if buffer = [] then
      .ok []
    else if (blocks 0).fwrite = false then
      .error buffer.length
    else
      match copyTail (fun k => blocks (k + 1)) fuel (rest.drop (blocks 0).size) with
      | .error n => .error (buffer.length + n)
      | .ok copied => .ok (buffer ++ copied)

def Calls.readable (calls : Calls) (file : Octets) (place : Nat) : Octets :=
  calls.fgetc.elim file fun n => file.take (place + n)

def replaceFile (calls : Calls) (fp : Stream) (copied : Octets) : Outcome :=
  let copied := calls.fclose.elim copied copied.take
  if calls.unlink = false then
    .exits (some fp.file)
  else if calls.rename = false then
    .exits none
  else if calls.freopen = false then
    .exits (some copied)
  else
    .returns true ⟨copied, if calls.seekEnd then copied.length else 0⟩

def shrinkfile (calls : Calls) (fp : Stream) (size : Int) : Outcome :=
  let currlen := fp.position
  let back (place : Nat) : Stream := ⟨fp.file, if calls.seekBack then currlen else place⟩
  if currlen ≤ size then
    .returns true fp
  else if calls.mkstemp = false then
    .returns false fp
  else if calls.fdopen = false then
    .returns false fp
  else if calls.fseeko = false then
    .returns false fp
  else
    let place := (currlen - size).toNat
    -- Find the end of the next line in the shrinking file.
    match nextLF (calls.readable fp.file place) place with
    | none => .returns false (back (max place (calls.readable fp.file place).length))
    | some newline =>
      let tail := fp.file.drop (newline + 1)
      match copyTail calls.blocks tail.length tail with
      | .error n => .returns false (back (newline + 1 + n))
      | .ok copied => replaceFile calls fp copied

structure Article where
  fname : Octets
  msgid : Octets
  deriving DecidableEq

def Article.line (article : Article) : Octets := article.fname ++ [32] ++ article.msgid ++ [LF]

structure Tape where
  noBacklog : Bool
  outFp : Stream
  outputSize : Int
  lossage : Int
  outputLowLimit : Int
  outputHighLimit : Int
  deriving DecidableEq

def tapeTakeArticle (tape : Tape) (take : Article × Calls) : Except (Option Octets) Tape :=
  if tape.noBacklog then
    .ok tape
  else
    let outFp := tape.outFp.append take.1.line
    let outputSize := tape.outputSize + take.1.fname.length + take.1.msgid.length + 2
    if 0 < tape.outputHighLimit ∧ tape.outputHighLimit ≤ outputSize then
      match shrinkfile take.2 outFp tape.outputLowLimit with
      | .exits file => .error file
      | .returns _ outFp => .ok { tape with
          outFp := outFp, outputSize := outFp.position,
            lossage := tape.lossage + (outputSize - outFp.position) }
    else
      .ok { tape with outFp := outFp, outputSize := outputSize }

/-- The file has the last lines of what was written. -/
def LastLines (written file : Octets) : Prop :=
    ∃ place, LineStart written place ∧ file = written.drop place

def Whole (file : Octets) : Prop := file = [] ∨ file.getLast? = some LF

/-- As many of the last lines as fit into `size`. -/
def Shrunk (size : Int) (written file : Octets) : Prop :=
  ∃ place, LineStart written place ∧ file = written.drop place ∧ file.length ≤ size ∧
    ∀ earlier, LineStart written earlier → (written.drop earlier).length ≤ size → place ≤ earlier

def Sound (tape : Tape) : Prop :=
  tape.outFp.position = tape.outFp.file.length ∧ tape.outputSize = tape.outFp.file.length

theorem lineStart_le {written : Octets} {place : Nat} (hstart : LineStart written place) :
    place ≤ written.length := by
  rcases hstart with rfl | hLF
  · exact Nat.zero_le _
  · have hlt : place - 1 < written.length := (List.getElem?_eq_some_iff.mp hLF).1
    omega

theorem lineStart_append {written : Octets} {place : Nat} (hstart : LineStart written place)
    (line : Octets) :
    LineStart (written ++ line) place := by
  rcases hstart with rfl | hLF
  · exact .inl rfl
  · exact .inr (by rw [List.getElem?_append_left (List.getElem?_eq_some_iff.mp hLF).1, hLF])

theorem lineStart_drop {written : Octets} {first place : Nat} (hfirst : LineStart written first)
    (hplace : LineStart (written.drop first) place) : LineStart written (first + place) := by
  rcases hplace with rfl | hLF
  · exact hfirst
  · rw [List.getElem?_drop] at hLF
    rcases Nat.eq_zero_or_pos place with rfl | hpos
    · exact hfirst
    · exact .inr (by rw [Nat.add_sub_assoc hpos, hLF])

theorem LastLines.refl (written : Octets) : LastLines written written := ⟨0, .inl rfl, rfl⟩

theorem LastLines.trans {written file line file' : Octets} (hlast : LastLines written file)
    (hlast' : LastLines (file ++ line) file') : LastLines (written ++ line) file' := by
  obtain ⟨first, hfirst, rfl⟩ := hlast
  obtain ⟨place, hplace, rfl⟩ := hlast'
  have hdrop : written.drop first ++ line = (written ++ line).drop first :=
    (List.drop_append_of_le_length (lineStart_le hfirst)).symm
  rw [hdrop] at hplace ⊢
  exact ⟨first + place, lineStart_drop (lineStart_append hfirst line) hplace, List.drop_drop⟩

theorem LastLines.whole {written file : Octets} (hlast : LastLines written file)
    (hwhole : Whole written) : Whole file := by
  obtain ⟨place, -, rfl⟩ := hlast
  rcases hwhole with rfl | hLF
  · exact .inl List.drop_nil
  · by_cases hplace : place < written.length
    · exact .inr (by rw [List.getLast?_drop, if_neg (by omega), hLF])
    · exact .inl (List.drop_eq_nil_of_le (by omega))

theorem Shrunk.lastLines {size : Int} {written file : Octets} (hshrunk : Shrunk size written file) :
    LastLines written file := by
  obtain ⟨place, hstart, heq, -⟩ := hshrunk
  exact ⟨place, hstart, heq⟩

theorem line_length (article : Article) :
    article.line.length = article.fname.length + article.msgid.length + 2 := by
  rw [Article.line, length_append, length_append, length_append, List.length_singleton,
    List.length_singleton]
  omega

theorem shrunk_iff {written : Octets} {place newline : Nat} (hpos : 0 < place)
    (hplace : place ≤ written.length) (hnext : nextLF written place = some newline) :
    Shrunk (written.length - place : Nat) written (written.drop (newline + 1)) ↔
      written[place - 1]? ≠ some LF := by
  obtain ⟨hle, hLF, hfirst⟩ := nextLF_some hnext
  have hlt : newline < written.length := (List.getElem?_eq_some_iff.mp hLF).1
  constructor
  · rintro ⟨kept, hkept, heq, -, hmost⟩ hcut
    have hlengths := congrArg List.length heq
    rw [length_drop, length_drop] at hlengths
    have hfits : kept ≤ place := hmost place (.inr hcut) (by rw [length_drop])
    omega
  · intro hcut
    refine ⟨newline + 1, .inr hLF, rfl, by rw [length_drop]; omega, fun earlier hstart hfits => ?_⟩
    rw [length_drop] at hfits
    have hbound : place ≤ earlier := by have := lineStart_le hstart; omega
    have hend : written[earlier - 1]? = some LF := hstart.resolve_left (by omega)
    -- The line end in front of this place is not the one in front of the cut.
    have hne : earlier - 1 ≠ place - 1 := fun h => hcut (h ▸ hend)
    by_contra hlate
    exact hfirst (earlier - 1) (by omega) (by omega) hend

section Copying

def readBefore (blocks : Nat → Block) (k : Nat) : Nat :=
    ((List.range k).map fun j => (blocks j).size).sum

def blocksIn (n : Nat) : Nat := (n + BUFSIZ - 1) / BUFSIZ

structure WriteStops (blocks : Nat → Block) (tail : Octets) (k : Nat) : Prop where
  reads : ∀ j ≤ k, 0 < (blocks j).size
  writes : ∀ j < k, (blocks j).fwrite = true
  fails : (blocks k).fwrite = false
  within : readBefore blocks k < tail.length

variable {blocks : Nat → Block} {tail : Octets}

theorem readBefore_succ (blocks : Nat → Block) (k : Nat) :
    readBefore blocks (k + 1) = (blocks 0).size + readBefore (fun k => blocks (k + 1)) k := by
  rw [readBefore, List.range_succ_eq_map, List.map_cons, List.map_map, List.sum_cons]
  rfl

theorem writeStops_zero :
    WriteStops blocks tail 0 ↔ tail.take (blocks 0).size ≠ [] ∧ (blocks 0).fwrite = false := by
  rw [ne_eq, List.take_eq_nil_iff, not_or, ← List.length_eq_zero_iff]
  constructor
  · intro h
    exact ⟨⟨Nat.ne_of_gt (h.reads 0 (Nat.le_refl 0)), Nat.ne_of_gt h.within⟩, h.fails⟩
  · rintro ⟨⟨hsize, hlength⟩, hfails⟩
    refine ⟨fun j hj => ?_, nofun, hfails, Nat.pos_of_ne_zero hlength⟩
    rw [Nat.le_zero.mp hj]
    exact Nat.pos_of_ne_zero hsize

theorem writeStops_succ {k : Nat} :
    WriteStops blocks tail (k + 1) ↔
      tail.take (blocks 0).size ≠ [] ∧ (blocks 0).fwrite = true ∧
        WriteStops (fun k => blocks (k + 1)) (tail.drop (blocks 0).size) k := by
  rw [ne_eq, List.take_eq_nil_iff, not_or, ← List.length_eq_zero_iff]
  constructor
  · intro h
    have hwithin := h.within
    rw [readBefore_succ] at hwithin
    refine ⟨⟨Nat.ne_of_gt (h.reads 0 (Nat.zero_le _)), by omega⟩, h.writes 0 (Nat.succ_pos k), ?_⟩
    refine ⟨fun j hj => h.reads (j + 1) (by omega), fun j hj => h.writes (j + 1) (by omega), h.fails, ?_⟩
    rw [length_drop]
    omega
  · rintro ⟨⟨hsize, -⟩, hwrite, h⟩
    have hwithin := h.within
    rw [length_drop] at hwithin
    refine ⟨fun j hj => ?_, fun j hj => ?_, h.fails, by rw [readBefore_succ]; omega⟩
    · cases j with
      | zero => exact Nat.pos_of_ne_zero hsize
      | succ j => exact h.reads j (by omega)
    · cases j with
      | zero => exact hwrite
      | succ j => exact h.writes j (by omega)

theorem copyTail_error {fuel n : Nat} (hfuel : tail.length ≤ fuel) :
    copyTail blocks fuel tail = .error n ↔
      ∃ k, WriteStops blocks tail k ∧ n = min (readBefore blocks (k + 1)) tail.length := by
  induction fuel generalizing blocks tail n with
  | zero =>
    obtain rfl := List.length_eq_zero_iff.mp (Nat.le_zero.mp hfuel)
    exact iff_of_false nofun fun ⟨k, h, _⟩ => absurd h.within (Nat.not_lt_zero _)
  | succ fuel ih =>
    rw [copyTail]
    split
    next hbuffer =>
      refine iff_of_false nofun ?_
      rintro ⟨k, h, -⟩
      cases k with
      | zero => exact (writeStops_zero.mp h).1 hbuffer
      | succ k => exact (writeStops_succ.mp h).1 hbuffer
    next hbuffer =>
      split
      next hwrite =>
        have hfirst : n = min (readBefore blocks 1) tail.length ↔
            (tail.take (blocks 0).size).length = n := by
          rw [readBefore_succ, List.length_take, eq_comm]
          rfl
        constructor
        · intro heq
          exact ⟨0, writeStops_zero.mpr ⟨hbuffer, hwrite⟩, hfirst.mpr (Except.error.inj heq)⟩
        · rintro ⟨k, h, hn⟩
          cases k with
          | zero => exact congrArg Except.error (hfirst.mp hn)
          | succ k => exact absurd (writeStops_succ.mp h).2.1 (by rw [hwrite]; exact Bool.false_ne_true)
      next hwrite =>
        have hrest : (tail.drop (blocks 0).size).length ≤ fuel := by
          rw [List.take_eq_nil_iff, not_or] at hbuffer
          rw [length_drop]
          omega
        have hsplit : ∀ k, (tail.take (blocks 0).size).length +
            min (readBefore (fun k => blocks (k + 1)) (k + 1)) (tail.drop (blocks 0).size).length =
              min (readBefore blocks (k + 1 + 1)) tail.length := by
          intro k
          rw [readBefore_succ blocks, List.length_take, length_drop]
          omega
        constructor
        · intro heq
          split at heq
          next m hrec =>
            obtain ⟨k, h, rfl⟩ := (ih hrest).mp hrec
            refine ⟨k + 1, writeStops_succ.mpr ⟨hbuffer, Bool.of_not_eq_false hwrite, h⟩, ?_⟩
            rw [← hsplit, Except.error.inj heq]
          · cases heq
        · rintro ⟨k, h, rfl⟩
          cases k with
          | zero => exact absurd h.fails hwrite
          | succ k =>
            rw [(ih hrest).mpr ⟨k, (writeStops_succ.mp h).2.2, rfl⟩]
            exact congrArg Except.error (hsplit k)

theorem copyTail_isPrefix {fuel : Nat} {copied : Octets}
    (hcopy : copyTail blocks fuel tail = .ok copied) :
    copied <+: tail := by
  induction fuel generalizing blocks tail copied with
  | zero =>
    cases hcopy
    exact List.nil_prefix
  | succ fuel ih =>
    rw [copyTail] at hcopy
    split at hcopy
    · cases hcopy
      exact List.nil_prefix
    · split at hcopy
      · cases hcopy
      · split at hcopy
        · cases hcopy
        next rest hrec =>
          cases hcopy
          obtain ⟨more, hmore⟩ := ih hrec
          exact ⟨more, by rw [append_assoc, hmore, List.take_append_drop]⟩

theorem size_of_fread {block : Block} (hread : block.fread = none) : block.size = BUFSIZ := by
  rw [Block.size, hread]
  rfl

theorem copyTail_whole {fuel : Nat} (hfuel : tail.length ≤ fuel)
    (hreads : ∀ k ≤ blocksIn tail.length, (blocks k).fread = none)
    (hwrites : ∀ k < blocksIn tail.length, (blocks k).fwrite = true) :
    copyTail blocks fuel tail = .ok tail := by
  induction fuel generalizing blocks tail with
  | zero =>
    obtain rfl := List.length_eq_zero_iff.mp (Nat.le_zero.mp hfuel)
    rfl
  | succ fuel ih =>
    rw [copyTail, size_of_fread (hreads 0 (Nat.zero_le _))]
    rcases Nat.eq_zero_or_pos tail.length with hnil | hpos
    · obtain rfl := List.length_eq_zero_iff.mp hnil
      rfl
    · have hbuffer : tail.take BUFSIZ ≠ [] := by
        rw [ne_eq, List.take_eq_nil_iff, not_or]
        exact ⟨by decide, List.ne_nil_of_length_pos hpos⟩
      have hblocks : blocksIn tail.length = blocksIn (tail.drop BUFSIZ).length + 1 := by
        rw [length_drop, blocksIn, blocksIn]
        simp only [BUFSIZ]
        omega
      have hrest :
          copyTail (fun k => blocks (k + 1)) fuel (tail.drop BUFSIZ) = .ok (tail.drop BUFSIZ) := by
        refine ih ?_ (fun k hk => hreads (k + 1) (by omega)) (fun k hk =>
          hwrites (k + 1) (by omega))
        rw [length_drop]
        simp only [BUFSIZ]
        omega
      rw [if_neg hbuffer, hwrites 0 (by omega), if_neg Bool.false_ne_true.symm, hrest]
      exact congrArg Except.ok (List.take_append_drop _ _)

theorem WriteStops.lt {k : Nat} (h : WriteStops blocks tail k) : k < tail.length := by
  induction k generalizing blocks tail with
  | zero => exact h.within
  | succ k ih =>
    have hsize := h.reads 0 (Nat.zero_le _)
    have hlt := ih (writeStops_succ.mp h).2.2
    rw [length_drop] at hlt
    omega

instance (blocks : Nat → Block) (tail : Octets) (k : Nat) : Decidable (WriteStops blocks tail k) :=
  decidable_of_iff ((∀ j ≤ k, 0 < (blocks j).size) ∧ (∀ j < k, (blocks j).fwrite = true) ∧
    (blocks k).fwrite = false ∧
    readBefore blocks k < tail.length)
    ⟨fun ⟨reads, writes, fails, within⟩ => ⟨reads, writes, fails, within⟩,
      fun ⟨reads, writes, fails, within⟩ => ⟨reads, writes, fails, within⟩⟩

end Copying

section Outcomes

def tailFrom (file : Octets) (place : Nat) : Octets :=
    (nextLF file place).elim [] fun newline => file.drop (newline + 1)

structure Works (calls : Calls) (file : Octets) (place : Nat) : Prop where
  opens : calls.mkstemp = true ∧ calls.fdopen = true ∧ calls.fseeko = true
  line : nextLF (calls.readable file place) place = nextLF file place
  reads : ∀ k ≤ blocksIn (tailFrom file place).length, (calls.blocks k).fread = none
  writes : ∀ k < blocksIn (tailFrom file place).length, (calls.blocks k).fwrite = true
  closes : calls.fclose = none
  replaces : calls.unlink = true ∧ calls.rename = true ∧ calls.freopen = true ∧ calls.seekEnd = true

instance (calls : Calls) (file : Octets) (place : Nat) : Decidable (Works calls file place) :=
  decidable_of_iff ((calls.mkstemp = true ∧ calls.fdopen = true ∧ calls.fseeko = true) ∧
    nextLF (calls.readable file place) place = nextLF file place ∧
    (∀ k ≤ blocksIn (tailFrom file place).length, (calls.blocks k).fread = none) ∧
    (∀ k < blocksIn (tailFrom file place).length, (calls.blocks k).fwrite = true) ∧
      calls.fclose = none ∧
    calls.unlink = true ∧ calls.rename = true ∧ calls.freopen = true ∧ calls.seekEnd = true)
    ⟨fun ⟨opens, line, reads, writes, closes, replaces⟩ =>
      ⟨opens, line, reads, writes, closes, replaces⟩,
      fun ⟨opens, line, reads, writes, closes, replaces⟩ =>
        ⟨opens, line, reads, writes, closes, replaces⟩⟩

def StopsBehind (calls : Calls) (file : Octets) : Option Nat → Prop
  | none => calls.seekBack = true
  | some newline =>
    (∃ k < (file.drop (newline + 1)).length, WriteStops calls.blocks (file.drop (newline + 1)) k ∧
      (calls.seekBack = true ∨
        (file.drop (newline + 1)).length ≤ readBefore calls.blocks (k + 1))) ∨
    ((∀ k < (file.drop (newline + 1)).length,
      ¬WriteStops calls.blocks (file.drop (newline + 1)) k) ∧
      calls.unlink = false)

instance (calls : Calls) (file : Octets) : ∀ found, Decidable (StopsBehind calls file found)
  | none => inferInstanceAs (Decidable (_ = _))
  | some _ => inferInstanceAs (Decidable (_ ∨ _))

/-- A call fails before the old file is replaced. -/
def Stops (calls : Calls) (file : Octets) (place : Nat) : Prop :=
  calls.mkstemp = false ∨ calls.fdopen = false ∨ calls.fseeko = false ∨
    StopsBehind calls file (nextLF (calls.readable file place) place)

instance (calls : Calls) (file : Octets) (place : Nat) : Decidable (Stops calls file place) :=
  inferInstanceAs (Decidable (_ ∨ _))

variable {calls : Calls} {written : Octets} {place : Nat} {low : Int}

def Unchanged (written : Octets) (outcome : Outcome) : Prop :=
  (∃ result, outcome = .returns result ⟨written, written.length⟩) ∨ outcome = .exits (some written)

theorem readable_isPrefix (calls : Calls) (file : Octets) (place : Nat) :
    calls.readable file place <+: file := by
  rw [Calls.readable]
  cases calls.fgetc with
  | none => exact List.prefix_rfl
  | some n => exact List.take_prefix _ _

theorem nextLF_readable {newline : Nat}
    (hnext : nextLF (calls.readable written place) place = some newline) :
    nextLF written place = some newline := by
  rw [nextLF, Option.map_eq_some_iff] at hnext ⊢
  obtain ⟨k, hk, rfl⟩ := hnext
  exact ⟨k, ((readable_isPrefix calls written place).drop place).findIdx?_eq_some hk, rfl⟩

theorem nextLF_lt (hend : written.getLast? = some LF) (hplace : place < written.length) :
    nextLF written place ≠ none := by
  intro hnone
  rw [List.getLast?_eq_getElem?] at hend
  exact nextLF_none hnone (by omega) hend

theorem Works.copies {newline fuel : Nat} (h : Works calls written place)
    (hnext : nextLF written place = some newline)
    (hfuel : (written.drop (newline + 1)).length ≤ fuel) :
    copyTail calls.blocks fuel (written.drop (newline + 1)) = .ok (written.drop (newline + 1)) := by
  have htail : tailFrom written place = written.drop (newline + 1) := by rw [tailFrom, hnext]; rfl
  have hreads := h.reads
  have hwrites := h.writes
  rw [htail] at hreads hwrites
  exact copyTail_whole hfuel hreads hwrites

theorem Works.not_writeStops {newline k : Nat} (h : Works calls written place)
    (hnext : nextLF written place = some newline) :
    ¬WriteStops calls.blocks (written.drop (newline + 1)) k := by
  intro hstops
  have herror := (copyTail_error (Nat.le_refl _)).mpr ⟨k, hstops, rfl⟩
  rw [h.copies hnext (Nat.le_refl _)] at herror
  cases herror

theorem Works.not_stops (h : Works calls written place) (hend : written.getLast? = some LF)
    (hplace : place < written.length) : ¬Stops calls written place := by
  obtain ⟨hmkstemp, hfdopen, hfseeko⟩ := h.opens
  rw [Stops, hmkstemp, hfdopen, hfseeko, h.line]
  rintro (h' | h' | h' | h')
  · cases h'
  · cases h'
  · cases h'
  · cases hnext : nextLF written place with
    | none => exact nextLF_lt hend hplace hnext
    | some newline =>
      rw [hnext] at h'
      rcases h' with ⟨k, -, hstops, -⟩ | ⟨-, hunlink⟩
      · exact h.not_writeStops hnext hstops
      · rw [h.replaces.1] at hunlink
        cases hunlink

theorem shrinkfile_opened (hlow : low < written.length)
    (hopens : calls.mkstemp = true ∧ calls.fdopen = true ∧ calls.fseeko = true) :
    shrinkfile calls ⟨written, written.length⟩ low =
      match nextLF (calls.readable written (written.length - low).toNat)
        (written.length - low).toNat with
      | none => .returns false ⟨written, if calls.seekBack then written.length else
          max (written.length - low).toNat
            (calls.readable written (written.length - low).toNat).length⟩
      | some newline =>
        match copyTail calls.blocks (written.drop (newline + 1)).length
          (written.drop (newline + 1)) with
        | .error n => .returns false ⟨written,
            if calls.seekBack then written.length else newline + 1 + n⟩
        | .ok copied => replaceFile calls ⟨written, written.length⟩ copied := by
  rw [shrinkfile, if_neg (by exact not_le.mpr hlow), hopens.1, hopens.2.1, hopens.2.2]
  rfl

theorem shrinkfile_not_opened (hlow : low < written.length)
    (hopens : ¬(calls.mkstemp = true ∧ calls.fdopen = true ∧ calls.fseeko = true)) :
    shrinkfile calls ⟨written, written.length⟩ low = .returns false ⟨written, written.length⟩ := by
  rw [shrinkfile, if_neg (by exact not_le.mpr hlow)]
  split
  · rfl
  next hmkstemp =>
    split
    · rfl
    next hfdopen =>
      rw [if_pos]
      rw [Bool.not_eq_false] at hmkstemp hfdopen
      exact Bool.of_not_eq_true fun hfseeko => hopens ⟨hmkstemp, hfdopen, hfseeko⟩

theorem shrinkfile_of_stops (hlow : low < written.length)
    (h : Stops calls written (written.length - low).toNat) :
    (∃ result, shrinkfile calls ⟨written, written.length⟩ low =
      .returns result ⟨written, written.length⟩) ∨
      shrinkfile calls ⟨written, written.length⟩ low = .exits (some written) ∧
        calls.unlink = false := by
  by_cases hopens : calls.mkstemp = true ∧ calls.fdopen = true ∧ calls.fseeko = true
  · rw [shrinkfile_opened hlow hopens]
    rw [Stops, hopens.1, hopens.2.1, hopens.2.2] at h
    replace h := ((h.resolve_left (by decide)).resolve_left (by decide)).resolve_left (by decide)
    cases hnext :
      nextLF (calls.readable written (written.length - low).toNat) (written.length - low).toNat with
    | none =>
      rw [hnext] at h
      refine .inl ⟨false, ?_⟩
      dsimp only
      rw [if_pos (by exact h)]
    | some newline =>
      rw [hnext] at h
      dsimp only
      rcases h with ⟨k, -, hstops, hback⟩ | ⟨hwrites, hunlink⟩
      · rw [(copyTail_error (Nat.le_refl _)).mpr ⟨k, hstops, rfl⟩]
        refine .inl ⟨false, congrArg (Outcome.returns false ⟨written, ·⟩) ?_⟩
        rcases hback with hback | hall
        · exact if_pos hback
        · have hlt : newline < written.length :=
            (List.getElem?_eq_some_iff.mp (nextLF_some (nextLF_readable hnext)).2.1).1
          rw [min_eq_right hall, length_drop, Nat.add_sub_cancel' hlt, ite_self]
      · right
        split
        next n herror =>
          obtain ⟨k, hstops, -⟩ := (copyTail_error (Nat.le_refl _)).mp herror
          exact absurd hstops (hwrites k hstops.lt)
        · exact ⟨by rw [replaceFile, if_pos hunlink], hunlink⟩
  · exact .inl ⟨false, shrinkfile_not_opened hlow hopens⟩

theorem shrinkfile_zero (calls : Calls) (hpos : 0 < written.length) :
    ∃ result, shrinkfile calls ⟨written, written.length⟩ 0 =
      .returns result ⟨written, written.length⟩ := by
  by_cases hopens : calls.mkstemp = true ∧ calls.fdopen = true ∧ calls.fseeko = true
  · have hplace : (written.length - (0 : Int)).toNat = written.length := by omega
    have hread := (readable_isPrefix calls written written.length).length_le
    have hnext : nextLF (calls.readable written written.length) written.length = none := by
      rw [nextLF, List.drop_eq_nil_of_le hread]
      rfl
    rw [shrinkfile_opened (by omega) hopens, hplace, hnext]
    exact ⟨false, by dsimp only; rw [max_eq_left hread, ite_self]⟩
  · exact ⟨false, shrinkfile_not_opened (by omega) hopens⟩

theorem replaceFile_not_unchanged {copied : Octets} {fp : Stream}
    (hcopied : copied.length < written.length)
    (hunlink : calls.unlink = true) : ¬Unchanged written (replaceFile calls fp copied) := by
  have hshort : (calls.fclose.elim copied copied.take).length < written.length := by
    cases calls.fclose with
    | none => exact hcopied
    | some n => exact Nat.lt_of_le_of_lt (List.length_take_le' _ _) hcopied
  have hne : calls.fclose.elim copied copied.take ≠ written :=
    fun h => absurd (congrArg List.length h) (by omega)
  rw [replaceFile, hunlink, if_neg (by decide)]
  rintro (⟨result, h⟩ | h)
  · split at h
    · cases h
    · split at h
      · cases h
      · exact hne (congrArg Stream.file (Outcome.returns.inj h).2)
  · split at h
    · cases h
    · split at h
      · exact hne (Option.some.inj (Outcome.exits.inj h))
      · cases h

theorem Works.replaceFile {copied : Octets} {fp : Stream} (h : Works calls written place) :
    replaceFile calls fp copied = .returns true ⟨copied, copied.length⟩ := by
  obtain ⟨hunlink, hrename, hfreopen, hseekEnd⟩ := h.replaces
  rw [TapeOutput.replaceFile, h.closes, hunlink, hrename, hfreopen, hseekEnd]
  rfl

theorem shrinkfile_of_not_stops (hlow : low < written.length) (hzero : low ≠ 0)
    (hend : written.getLast? = some LF) (h : ¬Stops calls written (written.length - low).toNat) :
    (∃ newline, nextLF written (written.length - low).toNat = some newline ∧
      Works calls written (written.length - low).toNat ∧
        shrinkfile calls ⟨written, written.length⟩ low =
        .returns true ⟨written.drop (newline + 1), (written.drop (newline + 1)).length⟩) ∨
      ¬Unchanged written (shrinkfile calls ⟨written, written.length⟩ low) ∧
        (0 < low → ¬Works calls written (written.length - low).toNat) := by
  rw [Stops, not_or, not_or, not_or, Bool.not_eq_false, Bool.not_eq_false, Bool.not_eq_false] at h
  obtain ⟨hmkstemp, hfdopen, hfseeko, hbehind⟩ := h
  rw [shrinkfile_opened hlow ⟨hmkstemp, hfdopen, hfseeko⟩]
  cases hnext :
    nextLF (calls.readable written (written.length - low).toNat) (written.length - low).toNat with
  | none =>
    rw [hnext] at hbehind
    dsimp only
    rw [if_neg (by exact hbehind)]
    right
    constructor
    · rintro (⟨result, heq⟩ | heq)
      · have hposition := congrArg Stream.position (Outcome.returns.inj heq).2
        dsimp only at hposition
        have hread := readable_isPrefix calls written (written.length - low).toNat
        have hall : calls.readable written (written.length - low).toNat = written :=
          hread.eq_of_length (by omega)
        rw [hall] at hnext
        exact nextLF_lt hend (by omega) hnext
      · cases heq
    · intro hpos hworks
      exact nextLF_lt hend (by omega) (hworks.line.symm.trans hnext)
  | some newline =>
    have hfound := nextLF_readable hnext
    have hlt : newline < written.length := (List.getElem?_eq_some_iff.mp (nextLF_some hfound).2.1).1
    rw [hnext, StopsBehind, not_or] at hbehind
    obtain ⟨hnoStop, hunlink⟩ := hbehind
    dsimp only
    split
    next n herror =>
      obtain ⟨k, hstops, rfl⟩ := (copyTail_error (Nat.le_refl _)).mp herror
      have hback : ¬(calls.seekBack = true ∨
          (written.drop (newline + 1)).length ≤ readBefore calls.blocks (k + 1)) := fun hback =>
        hnoStop ⟨k, hstops.lt, hstops, hback⟩
      rw [not_or] at hback
      rw [if_neg hback.1]
      refine .inr ⟨?_, fun _ hworks => hworks.not_writeStops hfound hstops⟩
      rintro (⟨result, heq⟩ | heq)
      · have hposition := congrArg Stream.position (Outcome.returns.inj heq).2
        have hrest := hback.2
        rw [length_drop] at hposition hrest
        dsimp only at hposition
        omega
      · cases heq
    next copied hcopy =>
      have hremoved : calls.unlink = true := by
        refine Bool.of_not_eq_false fun hfails => hunlink ⟨fun k _ hstops => ?_, hfails⟩
        rw [(copyTail_error (Nat.le_refl _)).mpr ⟨k, hstops, rfl⟩] at hcopy
        cases hcopy
      have hshort : copied.length < written.length := by
        have hle := (copyTail_isPrefix hcopy).length_le
        rw [length_drop] at hle
        omega
      by_cases hworks : Works calls written (written.length - low).toNat
      · rw [hworks.copies hfound (Nat.le_refl _)] at hcopy
        obtain rfl := Except.ok.inj hcopy
        exact .inl ⟨newline, hfound, hworks, hworks.replaceFile⟩
      · exact .inr ⟨replaceFile_not_unchanged hshort hremoved, fun _ => hworks⟩

end Outcomes

section Taking

def Tape.written (tape : Tape) (article : Article) : Octets := tape.outFp.file ++ article.line

def Tape.place (tape : Tape) (article : Article) : Nat :=
    ((tape.written article).length - tape.outputLowLimit).toNat

def Tape.Exceeds (tape : Tape) (size : Nat) : Prop :=
  0 < tape.outputHighLimit ∧ tape.outputHighLimit ≤ size ∧ 0 < tape.outputLowLimit ∧
    tape.outputLowLimit < size

def Tape.lines (tape : Tape) (takes : List (Article × Calls)) : Octets :=
  if tape.noBacklog then [] else (takes.map fun take => take.1.line).flatten

def Right (tape : Tape) (take : Article × Calls) : Prop :=
  match tapeTakeArticle tape take with
  | .error file => ¬Works take.2 (tape.written take.1) (tape.place take.1) ∧
      file = some (tape.written take.1)
  | .ok tape' =>
    if tape.noBacklog then
      tape' = tape
    else
      let fits := tape.Exceeds (tape.written take.1).length ∧
        Works take.2 (tape.written take.1) (tape.place take.1)
      Sound tape' ∧ (fits → Shrunk tape.outputLowLimit (tape.written take.1) tape'.outFp.file) ∧
        (¬fits → tape'.outFp.file = tape.written take.1)

def Keeps (tape : Tape) (take : Article × Calls) : Prop :=
  tape.noBacklog = true ∨
    ¬(0 < tape.outputHighLimit ∧ tape.outputHighLimit ≤ (tape.written take.1).length) ∨
    (tape.written take.1).length ≤ tape.outputLowLimit ∨ tape.outputLowLimit = 0 ∨
    Stops take.2 (tape.written take.1) (tape.place take.1) ∨
    0 < tape.outputLowLimit ∧ Works take.2 (tape.written take.1) (tape.place take.1) ∧
      (tape.written take.1)[tape.place take.1 - 1]? ≠ some LF

instance (tape : Tape) (take : Article × Calls) : Decidable (Keeps tape take) :=
    inferInstanceAs (Decidable (_ ∨ _))

variable {tape tape' : Tape} {take : Article × Calls}

theorem line_end (file : Octets) (article : Article) :
    (file ++ article.line).getLast? = some LF := by
  rw [Article.line, ← append_assoc, List.getLast?_append, List.getLast?_singleton]
  rfl

theorem written_end (tape : Tape) (article : Article) :
    (tape.written article).getLast? = some LF := line_end _ _

theorem written_pos (tape : Tape) (article : Article) : 0 < (tape.written article).length := by
  refine List.length_pos_of_ne_nil fun hnil => ?_
  have hend := written_end tape article
  rw [hnil] at hend
  cases hend

theorem tapeTakeArticle_eq (hsound : Sound tape) (hbacklog : ¬tape.noBacklog = true)
    (take : Article × Calls) :
    tapeTakeArticle tape take =
      if 0 < tape.outputHighLimit ∧ tape.outputHighLimit ≤ (tape.written take.1).length then
        match shrinkfile take.2 ⟨tape.written take.1,
          (tape.written take.1).length⟩ tape.outputLowLimit with
        | .exits file => .error file
        | .returns _ outFp => .ok { tape with
            outFp := outFp, outputSize := outFp.position
            lossage := tape.lossage + ((tape.written take.1).length - outFp.position) }
      else
        .ok { tape with
          outFp := ⟨tape.written take.1, (tape.written take.1).length⟩,
            outputSize := (tape.written take.1).length } := by
  have hsize : tape.outputSize + take.1.fname.length + take.1.msgid.length + 2 =
      (tape.written take.1).length := by
    rw [hsound.2, Tape.written, length_append, line_length]
    omega
  have happend :
      tape.outFp.append take.1.line = ⟨tape.written take.1, (tape.written take.1).length⟩ := by
    rw [Stream.append, Tape.written, length_append]
  rw [tapeTakeArticle, if_neg hbacklog, hsize, happend]

section Shrinks

variable (hsound : Sound tape) (hbacklog : ¬tape.noBacklog = true)
  (hhigh : 0 < tape.outputHighLimit ∧ tape.outputHighLimit ≤ (tape.written take.1).length)

include hsound hbacklog hhigh

theorem right_of_returns {result : Bool} {outFp : Stream}
    (hreturns : shrinkfile take.2 ⟨tape.written take.1,
      (tape.written take.1).length⟩ tape.outputLowLimit =
      .returns result outFp) :
    Right tape take ↔ outFp.position = outFp.file.length ∧
      (tape.Exceeds (tape.written take.1).length ∧
        Works take.2 (tape.written take.1) (tape.place take.1) →
        Shrunk tape.outputLowLimit (tape.written take.1) outFp.file) ∧
      (¬(tape.Exceeds (tape.written take.1).length ∧
        Works take.2 (tape.written take.1) (tape.place take.1)) →
        outFp.file = tape.written take.1) := by
  rw [Right, tapeTakeArticle_eq hsound hbacklog, if_pos hhigh, hreturns]
  dsimp only
  rw [if_neg hbacklog, Sound]
  exact and_congr_left fun _ => ⟨fun h => h.1, fun h => ⟨h, congrArg Nat.cast h⟩⟩

theorem right_of_exits {file : Option Octets} (hexits : shrinkfile take.2 ⟨tape.written take.1,
      (tape.written take.1).length⟩ tape.outputLowLimit = .exits file) :
    Right tape take ↔ ¬Works take.2 (tape.written take.1) (tape.place take.1) ∧
      file = some (tape.written take.1) := by
  rw [Right, tapeTakeArticle_eq hsound hbacklog, if_pos hhigh, hexits]

theorem right_of_unchanged {result : Bool} (hfails : tape.Exceeds (tape.written take.1).length →
      ¬Works take.2 (tape.written take.1) (tape.place take.1))
    (hreturns : shrinkfile take.2 ⟨tape.written take.1,
      (tape.written take.1).length⟩ tape.outputLowLimit =
      .returns result ⟨tape.written take.1, (tape.written take.1).length⟩) : Right tape take :=
  (right_of_returns hsound hbacklog hhigh hreturns).mpr
    ⟨rfl, fun ⟨hexceeds, hworks⟩ => absurd hworks (hfails hexceeds), fun _ => rfl⟩

theorem right_iff_of_not_stops (hlow : tape.outputLowLimit < (tape.written take.1).length)
    (hzero : tape.outputLowLimit ≠ 0)
    (hstops : ¬Stops take.2 (tape.written take.1) (tape.place take.1)) :
    Right tape take ↔ 0 < tape.outputLowLimit ∧
      Works take.2 (tape.written take.1) (tape.place take.1) ∧
      (tape.written take.1)[tape.place take.1 - 1]? ≠ some LF := by
  rcases shrinkfile_of_not_stops hlow hzero (written_end tape take.1) hstops with
    ⟨newline, hnext, hworks, hreturns⟩ | ⟨hchanged, hfails⟩
  · obtain ⟨hplace, hLF, -⟩ := nextLF_some hnext
    have hlt : newline < (tape.written take.1).length := (List.getElem?_eq_some_iff.mp hLF).1
    have hpos : 0 < tape.outputLowLimit := by omega
    have hexceeds : tape.Exceeds (tape.written take.1).length := ⟨hhigh.1, hhigh.2, hpos, hlow⟩
    have hsize :
        (((tape.written take.1).length - tape.place take.1 : Nat) : Int) = tape.outputLowLimit := by
      rw [Tape.place]
      omega
    have hshrunk := shrunk_iff (show 0 < tape.place take.1 by rw [Tape.place]; omega)
      (show tape.place take.1 ≤ (tape.written take.1).length by rw [Tape.place]; omega) hnext
    rw [hsize] at hshrunk
    rw [right_of_returns hsound hbacklog hhigh hreturns]
    constructor
    · rintro ⟨-, hfits, -⟩
      exact ⟨hpos, hworks, hshrunk.mp (hfits ⟨hexceeds, hworks⟩)⟩
    · rintro ⟨-, -, hcut⟩
      exact ⟨rfl, fun _ => hshrunk.mpr hcut, fun hnot => absurd ⟨hexceeds, hworks⟩ hnot⟩
  · refine iff_of_false (fun hright => hchanged ?_) fun ⟨hpos, hworks, _⟩ => hfails hpos hworks
    cases houtcome :
      shrinkfile take.2 ⟨tape.written take.1, (tape.written take.1).length⟩ tape.outputLowLimit with
    | returns result outFp =>
      obtain ⟨hposition, -, hsame⟩ := (right_of_returns hsound hbacklog hhigh houtcome).mp hright
      have hfile := hsame fun ⟨hexceeds, hworks⟩ => hfails hexceeds.2.2.1 hworks
      obtain ⟨file, position⟩ := outFp
      obtain rfl : file = tape.written take.1 := hfile
      obtain rfl : position = (tape.written take.1).length := hposition
      exact .inl ⟨result, rfl⟩
    | exits file =>
      obtain ⟨-, rfl⟩ := (right_of_exits hsound hbacklog hhigh houtcome).mp hright
      exact .inr rfl

end Shrinks

theorem right_iff_keeps (hsound : Sound tape) (take : Article × Calls) :
    Right tape take ↔ Keeps tape take := by
  by_cases hbacklog : tape.noBacklog = true
  · refine iff_of_true ?_ (.inl hbacklog)
    rw [Right, tapeTakeArticle, if_pos hbacklog]
    dsimp only
    rw [if_pos hbacklog]
  by_cases hhigh : 0 < tape.outputHighLimit ∧ tape.outputHighLimit ≤ (tape.written take.1).length
  swap
  · refine iff_of_true ?_ (.inr (.inl hhigh))
    rw [Right, tapeTakeArticle_eq hsound hbacklog, if_neg hhigh]
    dsimp only
    rw [if_neg hbacklog]
    exact ⟨⟨rfl, rfl⟩, fun ⟨hexceeds, _⟩ => absurd ⟨hexceeds.1, hexceeds.2.1⟩ hhigh, fun _ => rfl⟩
  by_cases hlow : tape.outputLowLimit < (tape.written take.1).length
  swap
  · refine iff_of_true ?_ (.inr (.inr (.inl (not_lt.mp hlow))))
    have hreturns :
        shrinkfile take.2 ⟨tape.written take.1, (tape.written take.1).length⟩ tape.outputLowLimit =
        .returns true ⟨tape.written take.1, (tape.written take.1).length⟩ := by
      rw [shrinkfile, if_pos (by exact not_lt.mp hlow)]
    exact right_of_unchanged hsound hbacklog hhigh (fun hexceeds =>
      absurd hexceeds.2.2.2 hlow) hreturns
  by_cases hzero : tape.outputLowLimit = 0
  · refine iff_of_true ?_ (.inr (.inr (.inr (.inl hzero))))
    obtain ⟨result, hreturns⟩ := shrinkfile_zero take.2 (written_pos tape take.1)
    rw [← hzero] at hreturns
    exact right_of_unchanged hsound hbacklog hhigh (fun hexceeds =>
      absurd hzero (ne_of_gt hexceeds.2.2.1)) hreturns
  by_cases hstops : Stops take.2 (tape.written take.1) (tape.place take.1)
  · refine iff_of_true ?_ (.inr (.inr (.inr (.inr (.inl hstops)))))
    rcases shrinkfile_of_stops hlow hstops with ⟨result, hreturns⟩ | ⟨hexits, hunlink⟩
    · refine right_of_unchanged hsound hbacklog hhigh (fun hexceeds hworks => ?_) hreturns
      refine hworks.not_stops (written_end tape take.1) ?_ hstops
      have hpos := hexceeds.2.2.1
      rw [Tape.place]
      omega
    · refine (right_of_exits hsound hbacklog hhigh hexits).mpr ⟨fun hworks => ?_, rfl⟩
      rw [hworks.replaces.1] at hunlink
      cases hunlink
  · rw [right_iff_of_not_stops hsound hbacklog hhigh hlow hzero hstops]
    refine ⟨fun h => .inr (.inr (.inr (.inr (.inr h)))), ?_⟩
    rintro (h | h | h | h | h | h)
    · exact absurd h hbacklog
    · exact absurd hhigh h
    · exact absurd hlow (not_lt.mpr h)
    · exact absurd h hzero
    · exact absurd h hstops
    · exact h

theorem lines_single (hbacklog : ¬tape.noBacklog = true) (take : Article × Calls) :
    tape.lines [take] = take.1.line := by
  rw [Tape.lines, if_neg hbacklog, List.map_singleton, List.flatten_singleton]

theorem lines_cons (tape : Tape) (take : Article × Calls) (rest : List (Article × Calls)) :
    tape.lines (take :: rest) = tape.lines [take] ++ tape.lines rest := by
  rw [Tape.lines, Tape.lines, Tape.lines]
  split
  · rfl
  · rw [List.map_cons, List.flatten_cons, List.map_singleton, List.flatten_singleton]

theorem lines_congr (hbacklog : tape'.noBacklog = tape.noBacklog) (takes : List (Article × Calls)) :
    tape'.lines takes = tape.lines takes := by
  rw [Tape.lines, Tape.lines, hbacklog]

theorem whole_append_lines {file : Octets} (hwhole : Whole file) (tape : Tape)
    (takes : List (Article × Calls)) :
    Whole (file ++ tape.lines takes) := by
  rw [Tape.lines]
  split
  · rwa [List.append_nil]
  · induction takes generalizing file with
    | nil => rwa [List.map_nil, List.flatten_nil, List.append_nil]
    | cons take rest ih =>
      rw [List.map_cons, List.flatten_cons, ← append_assoc]
      exact ih (.inr (line_end file take.1))

theorem tapeTakeArticle_keeps (hsound : Sound tape) (hkeeps : Keeps tape take)
    (hstep : tapeTakeArticle tape take = .ok tape') :
    Sound tape' ∧ tape'.noBacklog = tape.noBacklog ∧
      LastLines (tape.outFp.file ++ tape.lines [take]) tape'.outFp.file ∧
      tape'.lossage + tape'.outputSize = tape.lossage + tape.outputSize +
        (tape.lines [take]).length := by
  have hright := (right_iff_keeps hsound take).mpr hkeeps
  rw [Right, hstep] at hright
  dsimp only at hright
  by_cases hbacklog : tape.noBacklog = true
  · rw [if_pos hbacklog] at hright
    subst hright
    rw [Tape.lines, if_pos hbacklog, List.append_nil]
    exact ⟨hsound, rfl, LastLines.refl _, (add_zero _).symm⟩
  · rw [if_neg hbacklog] at hright
    obtain ⟨hsound', hfits, hsame⟩ := hright
    have hlast : LastLines (tape.written take.1) tape'.outFp.file := by
      by_cases h : tape.Exceeds (tape.written take.1).length ∧
        Works take.2 (tape.written take.1) (tape.place take.1)
      · exact (hfits h).lastLines
      · rw [hsame h]
        exact LastLines.refl _
    have hrest : tape'.noBacklog = tape.noBacklog ∧
        tape'.lossage + tape'.outputSize = tape.lossage + (tape.written take.1).length := by
      rw [tapeTakeArticle_eq hsound hbacklog] at hstep
      split at hstep
      · split at hstep
        · cases hstep
        · obtain rfl := Except.ok.inj hstep
          refine ⟨rfl, ?_⟩
          dsimp only
          omega
      · obtain rfl := Except.ok.inj hstep
        exact ⟨rfl, rfl⟩
    rw [lines_single hbacklog]
    refine ⟨hsound', hrest.1, hlast, ?_⟩
    rw [hrest.2, hsound.2, Tape.written, length_append]
    omega

theorem run_keeps (takes : List (Article × Calls)) {tape : Tape} (hsound : Sound tape)
    (hmeets : Meets tapeTakeArticle Keeps takes tape) :
    (∀ tape', run tapeTakeArticle takes tape = .ok tape' →
      Sound tape' ∧ LastLines (tape.outFp.file ++ tape.lines takes) tape'.outFp.file ∧
        tape'.lossage + tape'.outputSize = tape.lossage + tape.outputSize +
          (tape.lines takes).length) ∧
    ∀ file, run tapeTakeArticle takes tape = .error file →
      ∃ before after kept, takes = before ++ after ∧ file = some kept ∧
        LastLines (tape.outFp.file ++ tape.lines before) kept := by
  induction takes generalizing tape with
  | nil =>
    refine ⟨fun tape' hrun => ?_, by rintro _ ⟨⟩⟩
    cases hrun
    have hlines : tape.lines [] = [] := by rw [Tape.lines, List.map_nil, List.flatten_nil, ite_self]
    rw [hlines, List.append_nil]
    exact ⟨hsound, LastLines.refl _, (add_zero _).symm⟩
  | cons take rest ih =>
    rw [run]
    split
    next e hexits =>
      refine ⟨by rintro _ ⟨⟩, ?_⟩
      rintro file ⟨⟩
      have hright := (right_iff_keeps hsound take).mpr hmeets.1
      rw [Right, hexits] at hright
      have hbacklog : ¬tape.noBacklog = true := by
        intro hbacklog
        rw [tapeTakeArticle, if_pos hbacklog] at hexits
        cases hexits
      refine ⟨[take], rest, _, rfl, hright.2, ?_⟩
      rw [lines_single hbacklog]
      exact LastLines.refl _
    next tape₁ hstep =>
      obtain ⟨hsound₁, hbacklog, hlast, hcount⟩ := tapeTakeArticle_keeps hsound hmeets.1 hstep
      obtain ⟨hreturns, hexits⟩ := ih hsound₁ (hmeets.2 tape₁ hstep)
      refine ⟨fun tape' hrun => ?_, fun file hrun => ?_⟩
      · obtain ⟨hsound', hlast', hcount'⟩ := hreturns tape' hrun
        rw [lines_congr hbacklog] at hlast' hcount'
        rw [lines_cons, ← append_assoc, length_append]
        exact ⟨hsound', hlast.trans hlast', by omega⟩
      · obtain ⟨before, after, kept, rfl, rfl, hlast'⟩ := hexits file hrun
        rw [lines_congr hbacklog] at hlast'
        refine ⟨take :: before, after, kept, rfl, rfl, ?_⟩
        rw [lines_cons, ← append_assoc]
        exact hlast.trans hlast'

/-- Every article is taken right in a run if and only if every shrinking stops in time, or has no
call that fails and does not cut at the start of a line. The file then has the last lines of all
that have been written, its size is known, and what is lost is counted. -/
theorem output_last_lines (tape : Tape) (hsound : Sound tape) (takes : List (Article × Calls)) :
    (Meets tapeTakeArticle Right takes tape ↔ Meets tapeTakeArticle Keeps takes tape) ∧
      (Meets tapeTakeArticle Keeps takes tape →
        (∀ tape', run tapeTakeArticle takes tape = .ok tape' →
          Sound tape' ∧ LastLines (tape.outFp.file ++ tape.lines takes) tape'.outFp.file ∧
            (Whole tape.outFp.file → Whole tape'.outFp.file) ∧
            tape'.lossage + tape'.outputSize = tape.lossage + tape.outputSize +
              (tape.lines takes).length) ∧
        ∀ file, run tapeTakeArticle takes tape = .error file →
          ∃ before after kept, takes = before ++ after ∧ file = some kept ∧
            LastLines (tape.outFp.file ++ tape.lines before) kept ∧
              (Whole tape.outFp.file → Whole kept)) := by
  constructor
  · exact meets_congr (fun tape take hsound => right_iff_keeps hsound take)
      (fun tape take tape' hsound hkeeps hstep =>
        (tapeTakeArticle_keeps hsound hkeeps hstep).1) takes hsound
  · intro hmeets
    obtain ⟨hreturns, hexits⟩ := run_keeps takes hsound hmeets
    refine ⟨fun tape' hrun => ?_, fun file hrun => ?_⟩
    · obtain ⟨hsound', hlast, hcount⟩ := hreturns tape' hrun
      exact ⟨hsound', hlast,
        fun hwhole => hlast.whole (whole_append_lines hwhole tape takes), hcount⟩
    · obtain ⟨before, after, kept, htakes, hfile, hlast⟩ := hexits file hrun
      exact ⟨before, after, kept, htakes, hfile, hlast, fun hwhole =>
        hlast.whole (whole_append_lines hwhole tape before)⟩

def goodCalls : Calls where
  mkstemp := true
  fdopen := true
  fseeko := true
  fgetc := none
  blocks := fun _ => ⟨none, true⟩
  seekBack := true
  fclose := none
  unlink := true
  rename := true
  freopen := true
  seekEnd := true

def twoLines (outputLowLimit : Int) : Tape :=
  ⟨false, ⟨octets "a <1>\nb <2>\n", 12⟩, 12, 0, outputLowLimit, 18⟩

def threeArticles : List (Article × Calls) :=
  [(⟨octets "c", octets "<3>"⟩, goodCalls), (⟨octets "d", octets "<4>"⟩, goodCalls),
    (⟨octets "e", octets "<5>"⟩, { goodCalls with blocks := fun _ => ⟨none, false⟩ })]

def shrunkTape : Tape := ⟨false, ⟨octets "c <3>\nd <4>\ne <5>\n", 18⟩, 18, 12, 8, 18⟩

theorem output_last_lines_three :
    Meets tapeTakeArticle Right threeArticles (twoLines 8) ∧
      LastLines (octets "a <1>\nb <2>\nc <3>\nd <4>\ne <5>\n") shrunkTape.outFp.file := by
  obtain ⟨hiff, hkeeps⟩ := output_last_lines (twoLines 8) ⟨by decide, by decide⟩ threeArticles
  have hmeets : Meets tapeTakeArticle Keeps threeArticles (twoLines 8) := by decide +kernel
  have hrun : run tapeTakeArticle threeArticles (twoLines 8) = .ok shrunkTape := by decide +kernel
  exact ⟨hiff.mpr hmeets, ((hkeeps hmeets).1 shrunkTape hrun).2.1⟩

/-- A cut at the start of the last line loses this line. -/
theorem not_output_last_lines :
    ¬∀ tape, Sound tape → ∀ takes, Meets tapeTakeArticle Right takes tape := by
  intro hall
  have hright :=
    (hall (twoLines 6) ⟨by decide, by decide⟩ [(⟨octets "c", octets "<3>"⟩, goodCalls)]).1
  have hstep : tapeTakeArticle (twoLines 6) (⟨octets "c", octets "<3>"⟩, goodCalls) =
      .ok ⟨false, ⟨[], 0⟩, 0, 18, 6, 18⟩ := by decide +kernel
  rw [Right, hstep] at hright
  obtain ⟨-, hfits, -⟩ := hright
  obtain ⟨place, -, heq, -, hmost⟩ :=
    hfits ⟨⟨by decide, by decide, by decide, by decide⟩, by decide +kernel⟩
  have hplace : place ≤ 12 := hmost 12 (by decide) (by decide)
  have hlength := congrArg List.length heq
  rw [length_drop, show ((twoLines 6).written ⟨octets "c", octets "<3>"⟩).length =
    18 by decide] at hlength
  exact absurd hlength (by rw [List.length_nil]; omega)

end Taking

end Inn.Innfeed.TapeOutput
