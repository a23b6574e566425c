import Inn.History.Write

/-!
# The offsets of history lines

What the file holds in front of its offset, together with what the stream still
holds, is the text of the history. A line is appended to it as a whole or not at
all, as long as a failed write is undone, and dbz holds the offsets of lines.
-/

namespace Inn.History

open Foundation.Files Foundation.Runs
open List (append_assoc append_nil length_append)

def Lined (text : Octets) : Prop := ∀ c ∈ text.getLast?, c = LF

def LineAt (text : Octets) (fields : Fields) (offset : Nat) : Prop :=
  ∃ front back, text = front ++ (lineText fields ++ [LF]) ++ back ∧
    front.length = offset ∧ Lined front

theorem LineAt.append {text : Octets} {fields : Fields} {offset : Nat}
    (hline : LineAt text fields offset) (more : Octets) : LineAt (text ++ more) fields offset := by
  obtain ⟨front, back, rfl, hfront⟩ := hline
  exact ⟨front, back ++ more, append_assoc .., hfront⟩

theorem lineAt_end {text : Octets} (hlined : Lined text) (fields : Fields) :
    LineAt (text ++ (lineText fields ++ [LF])) fields text.length :=
  ⟨text, [], (append_nil _).symm, rfl, hlined⟩

theorem lined_line (text : Octets) (fields : Fields) :
    Lined (text ++ (lineText fields ++ [LF])) := by
  intro c hc
  rw [← append_assoc, List.getLast?_append, List.getLast?_singleton] at hc
  exact (Option.mem_some_iff.mp hc).symm

theorem line_length_lt (fields : Fields) : (lineText fields ++ [LF]).length < HISV6_MAXLINE := by
  have hsome := formatline_isSome fields
  rw [formatline] at hsome
  split at hsome
  · cases hsome
  next hlt => exact Nat.lt_of_not_ge hlt

theorem line_length_ge (fields : Fields) : HISV6_MINLINE ≤ (lineText fields ++ [LF]).length := by
  have hhash : (HashToText fields.hash).length = 32 := by
    rw [HashToText, encodeHex_length, fields.hash.size]
  rw [HISV6_MINLINE, lineText]
  simp only [length_append, List.length_cons, List.length_nil, hhash]
  omega

theorem terminated_line {line rest : Octets} (hline : ∀ c ∈ line, c ≠ LF) :
    Hisv6.terminated (line ++ LF :: rest) = line ++ 0 :: rest := by
  have htake : (line ++ LF :: rest).takeWhile (· ≠ LF) = line := by
    rw [List.takeWhile_append_of_pos fun c hc => decide_eq_true (hline c hc),
      List.takeWhile_cons_of_neg (by simp),
      append_nil]
  have hdrop : (line ++ LF :: rest).dropWhile (· ≠ LF) = LF :: rest := by
    rw [List.dropWhile_append_of_pos fun c hc => decide_eq_true (hline c hc),
      List.dropWhile_cons_of_neg (by simp)]
  rw [Hisv6.terminated, htake, hdrop, List.tail_cons]

theorem pread_lineAt {text : Octets} {fields : Fields} {offset : Nat}
    (hline : LineAt text fields offset) :
    let buf := pread text offset HISV6_MAXLINE
    HISV6_MINLINE ≤ buf.length ∧ LF ∈ buf.takeWhile (· ≠ 0) ∧
      ∃ behind, Hisv6.terminated buf = lineText fields ++ 0 :: behind := by
  obtain ⟨front, back, rfl, rfl, -⟩ := hline
  obtain ⟨rest, hbuf⟩ : ∃ rest,
      pread (front ++ (lineText fields ++ [LF]) ++ back) front.length HISV6_MAXLINE =
      lineText fields ++ [LF] ++ rest := by
    rw [pread, append_assoc, List.drop_left, List.take_append,
      List.take_of_length_le (line_length_lt fields).le]
    exact ⟨_, rfl⟩
  rw [hbuf]
  refine ⟨?_, ?_, rest, ?_⟩
  · have := line_length_ge fields
    rw [length_append]
    omega
  · rw [List.takeWhile_append_of_pos]
    · simp
    · intro c hc
      rcases List.mem_append.mp hc with hc | hc
      · exact decide_eq_true (lineText_octets fields c hc).1
      · obtain rfl := List.mem_singleton.mp hc
        decide
  · rw [append_assoc, List.singleton_append]
    exact terminated_line fun c hc => (lineText_octets fields c hc).2

/-- A place of dbz has the offset of a line of the text, with a hash whose octets it has and that is
probed there. -/
def HeldAt (text : Octets) (db : Dbz.Database) (place : Nat) : Prop :=
  ∃ (fields : Fields) (offset n : Nat), db.erecAt place = Dbz.erecOf fields.hash ∧
    place = Dbz.probe db.conf.tsize fields.hash n ∧ db.idxAt place = offset ∧
      LineAt text fields offset

/-- The places that are not vacant have the offsets of lines. -/
def Held (text : Octets) (dbz : Dbz.Opened) : Prop :=
  ∀ place, dbz.db.erecAt place ≠ Dbz.emptyRec → HeldAt text dbz.db place

theorem Held.append {text : Octets} {dbz : Dbz.Opened} (hheld : Held text dbz) (more : Octets) :
    Held (text ++ more) dbz := by
  intro place hplace
  obtain ⟨fields, offset, n, herec, hprobe, hidx, hline⟩ := hheld place hplace
  exact ⟨fields, offset, n, herec, hprobe, hidx, hline.append more⟩

theorem Held.keeps {text : Octets} {dbz dbz' : Dbz.Opened} (hheld : Held text dbz)
    (hkeeps : dbz.db.Keeps dbz'.db) : Held text dbz' := by
  intro place hplace
  rw [hkeeps.erecs] at hplace
  obtain ⟨fields, offset, n, herec, hprobe, hidx, hline⟩ := hheld place hplace
  refine ⟨fields, offset, n, ?_, ?_, ?_, hline⟩
  · rw [hkeeps.erecs, herec]
  · rw [hkeeps.tsize, ← hprobe]
  · rw [hkeeps.idx place hplace, hidx]

theorem Held.puts {text : Octets} {dbz dbz' : Dbz.Opened} {fields : Fields} {offset n : Nat}
    (hheld : Held text dbz)
    (hputs : Dbz.Opened.Puts dbz dbz' fields.hash offset n) (hline : LineAt text fields offset) :
    Held text dbz' := by
  intro place hplace
  by_cases hsame : place = Dbz.probe dbz.db.conf.tsize fields.hash n
  · refine ⟨fields, offset, n, ?_, ?_, ?_, hline⟩
    · rw [hputs.erecs, hsame, Function.update_self]
    · rw [hputs.tsize, hsame]
    · rw [hputs.idx, hsame, Function.update_self]
  · rw [hputs.erecs, Function.update_of_ne hsame] at hplace
    obtain ⟨fields', offset', n', herec, hprobe, hidx, hline'⟩ := hheld place hplace
    refine ⟨fields', offset', n', ?_, ?_, ?_, hline'⟩
    · rw [hputs.erecs, Function.update_of_ne hsame, herec]
    · rw [hputs.tsize, ← hprobe]
    · rw [hputs.idx, Function.update_of_ne hsame, hidx]

theorem Held.fetched {text : Octets} {dbz : Dbz.Opened} (hheld : Held text dbz) {hash : HASH}
    (hfinds : dbz.Finds hash) :
    ∃ (fields : Fields) (offset : Nat), (dbz.dbzfetch hash).1 = some (offset : Int) ∧
      LineAt text fields offset := by
  obtain ⟨n, hfound⟩ := Dbz.finds_iff.mp hfinds
  obtain ⟨fields, offset, -, -, -, hidx, hline⟩ := hheld _ (hfound.occupied n (Nat.le_refl n))
  exact ⟨fields, offset, Dbz.Opened.dbzfetch_eq_some_iff.mpr ⟨n, hfound, hidx⟩, hline⟩

namespace Hisv6

def text (h : Hisv6) : Octets := h.disk.take h.position ++ h.pending

def content (h : Hisv6) : Octets := overwrite 0 h.disk h.position h.pending

/-- The history can be written, at a place within its file. -/
structure Placed (h : Hisv6) : Prop where
  owner : h.dbzowner = true
  writable : h.rdwr = true
  position : h.position ≤ h.disk.length
  flushed : h.incore = false → h.pending = []

structure Unmoved (h h' : Hisv6) : Prop where
  text : h'.text = h.text
  offset : h'.offset = h.offset
  incore : h'.incore = h.incore
  dbz : h'.dbz = h.dbz

section Stream

variable {h : Hisv6}

theorem text_put (hposition : h.position ≤ h.disk.length) (text : Octets) (n : Nat) :
    (h.put text n).text = h.disk.take h.position ++ text := by
  rw [Hisv6.text]
  simp only [put]
  rw [take_overwrite hposition le_rfl, List.take_length, append_assoc, List.take_append_drop]

theorem position_put (hposition : h.position ≤ h.disk.length) (text : Octets) (n : Nat) :
    (h.put text n).position ≤ (h.put text n).disk.length := length_overwrite_ge hposition

theorem Placed.put (hplaced : h.Placed) (text : Octets) {n : Nat}
    (hall : h.incore = false → text.length ≤ n) :
    (h.put text n).Placed where
  owner := hplaced.owner
  writable := hplaced.writable
  position := position_put hplaced.position text n
  flushed hincore := List.drop_of_length_le (hall hincore)

theorem content_eq (hplaced : h.Placed) : ∃ rest, h.content = h.text ++ rest :=
  ⟨_, overwrite_eq h.pending hplaced.position⟩

theorem fflush_unmoved (hplaced : h.Placed) {works : Bool} (hworks : h.incore = true → works = true)
    (reached : Nat) :
    (h.fflush works reached).1 = true ∧ (h.fflush works reached).2.Placed ∧
      Unmoved h (h.fflush works reached).2 := by
  rw [fflush]
  split
  · exact ⟨rfl, hplaced, rfl, rfl, rfl, rfl⟩
  next hpending =>
    have hincore : h.incore = true := Bool.eq_true_of_not_eq_false (mt hplaced.flushed hpending)
    rw [if_pos (hworks hincore)]
    exact ⟨rfl, hplaced.put h.pending fun _ => le_rfl, text_put hplaced.position _ _, rfl, rfl, rfl⟩

theorem fflush_disk (h : Hisv6) (hposition : h.position ≤ h.disk.length) (reached : Nat) :
    (h.fflush true reached).2.disk = h.content := by
  rw [fflush, content]
  split
  next hpending =>
    rw [hpending, overwrite_eq [] hposition, append_nil, List.length_nil, Nat.add_zero,
      List.take_append_drop]
  · rw [if_pos rfl, put, List.take_length]

theorem sync_unmoved (hplaced : h.Placed) {o : Outcome}
    (hsyncs : h.incore = true → o.syncs = true) :
    (h.sync o).2.Placed ∧ Unmoved h (h.sync o).2 := by
  obtain ⟨-, hplaced', hunmoved⟩ := fflush_unmoved hplaced hsyncs o.reached
  rw [sync]
  dsimp only
  split
  · split
    · exact ⟨{ hplaced' with },
        hunmoved.text, hunmoved.offset, hunmoved.incore, hunmoved.dbz⟩
    · exact ⟨hplaced', hunmoved⟩
  · exact ⟨hplaced', hunmoved⟩

end Stream

section Lines

variable {h : Hisv6}

def Entered (dbz dbz' : Dbz.Opened) (hash : HASH) (offset : Nat) (r : Bool) : Prop :=
  dbz'.db.prevp = false ∧ ((dbz.db.Keeps dbz'.db ∧ (r = true → dbz.Finds hash)) ∨
    ∃ n, Dbz.Opened.Puts dbz dbz' hash offset n)

theorem dbzstore_entered {dbz : Dbz.Opened} (hfresh : dbz.db.prevp = false) (hash : HASH)
    (offset : Nat) (stores indexed : Bool) :
    Entered dbz (dbz.dbzstore hash offset stores indexed).2 hash offset
      ((dbz.dbzstore hash offset stores indexed).1 ≠ .error) := by
  obtain ⟨hprevp, ⟨-, n, hputs⟩ | ⟨hkeeps, hfinds⟩⟩ :=
    Dbz.Opened.dbzstore_fresh hfresh hash offset stores indexed
  · exact ⟨hprevp, .inr ⟨n, hputs⟩⟩
  · exact ⟨hprevp, .inl ⟨hkeeps, fun hok => hfinds (of_decide_eq_true hok)⟩⟩

theorem Entered.of_imp {dbz dbz' : Dbz.Opened} {hash : HASH} {offset : Nat} {r r' : Bool}
    (hentered : Entered dbz dbz' hash offset r) (himp : r' = true → r = true) :
    Entered dbz dbz' hash offset r' :=
  hentered.imp_right fun hcases => hcases.imp_left fun hsame =>
    ⟨hsame.1, fun hr => hsame.2 (himp hr)⟩

theorem writedbz_cases (hplaced : h.Placed) (hfresh : h.dbz.db.prevp = false) {o : Outcome}
    (hsyncs : h.incore = true → o.syncs = true) (hash : HASH) (offset : Nat) :
    let result := h.writedbz hash offset o
    result.2.Placed ∧ result.2.text = h.text ∧ result.2.offset = h.offset ∧
      result.2.incore = h.incore ∧
      Entered h.dbz result.2.dbz hash offset result.1 := by
  have hentered := dbzstore_entered hfresh hash offset o.stores o.indexed
  rw [writedbz]
  dsimp only
  split
  next herror =>
    exact ⟨{ hplaced with }, rfl, rfl, rfl,
      hentered.of_imp nofun⟩
  next hok =>
    have hentered (r : Bool) : Entered h.dbz _ hash offset r :=
      hentered.of_imp fun _ => decide_eq_true hok
    split
    · exact ⟨{ hplaced with }, rfl, rfl,
        rfl, hentered _⟩
    · split
      · obtain ⟨hplaced', hunmoved⟩ := sync_unmoved (h := { h with
            dbz := (h.dbz.dbzstore hash offset o.stores o.indexed).2,
              dirty := h.dirty + 1 }) (o := o)
          { hplaced with } hsyncs
        refine ⟨hplaced', hunmoved.text, hunmoved.offset, hunmoved.incore, ?_⟩
        rw [hunmoved.dbz]
        exact hentered _
      · exact ⟨{ hplaced with }, rfl, rfl,
          rfl, hentered _⟩

def Fails (h : Hisv6) (fields : Fields) (o : Outcome) : Prop :=
  o.taken < (lineText fields ++ [LF]).length ∨ h.incore = false ∧ o.flushes = false

def Undone (h : Hisv6) (entry : Fields × Outcome) : Prop :=
  (Fails h entry.1 entry.2 → entry.2.rewinds = true ∧ h.pending.length ≤ entry.2.reached) ∧
    (h.incore = true → entry.2.syncs = true)

instance (h : Hisv6) (fields : Fields) (o : Outcome) : Decidable (h.Fails fields o) :=
  inferInstanceAs (Decidable (_ ∨ _))

instance (h : Hisv6) (entry : Fields × Outcome) : Decidable (h.Undone entry) :=
  inferInstanceAs (Decidable ((Fails h entry.1 entry.2 → _) ∧ _))

/-- The text is whole lines, and dbz leads to lines of it. -/
structure Sound (h : Hisv6) : Prop extends Placed h where
  lined : Lined h.text
  offset : h.text.length = h.offset
  held : Held h.text h.dbz
  fresh : h.dbz.db.prevp = false

theorem rewind_unmoved (hsound : h.Sound) (text : Octets) {o : Outcome}
    (hrewinds : o.rewinds = true) (hreached : h.pending.length ≤ o.reached) (i : Nat) :
    ((h.put (h.pending ++ text) o.reached).rewind i o).Placed ∧
      Unmoved h ((h.put (h.pending ++ text) o.reached).rewind i o) := by
  have hoffset : h.offset = h.position + h.pending.length := by
    rw [← hsound.offset, Hisv6.text, length_append, List.length_take_of_le hsound.position]
  have hwritten : ((h.pending ++ text).take o.reached).take h.pending.length = h.pending := by
    rw [List.take_take, Nat.min_eq_left hreached, List.take_left]
  have hlength : h.pending.length ≤ ((h.pending ++ text).take o.reached).length := by
    rw [List.length_take, length_append]
    omega
  rw [rewind, if_pos hrewinds]
  refine ⟨⟨hsound.owner, hsound.writable, ?_, fun _ => rfl⟩, ?_, rfl, rfl, rfl⟩
  · have hdisk : h.position + ((h.pending ++ text).take o.reached).length ≤
        (h.put (h.pending ++ text) o.reached).disk.length := position_put hsound.position _ _
    exact le_trans (show h.offset ≤ _ by omega) hdisk
  · rw [Hisv6.text, append_nil]
    change (overwrite 0 h.disk h.position _).take h.offset = _
    rw [hoffset, take_overwrite hsound.position hlength, hwritten]
    rfl

theorem writeline_cases (hsound : h.Sound) {fields : Fields} {o : Outcome}
    (hundone : h.Undone (fields, o)) :
    let result := h.writeline fields o
    result.2.Placed ∧ result.2.incore = h.incore ∧
      ((result.1 = false ∧ Unmoved h result.2) ∨
        (result.2.text = h.text ++ (lineText fields ++ [LF]) ∧
          result.2.offset = h.offset + (lineText fields ++ [LF]).length ∧
          Entered h.dbz result.2.dbz fields.hash h.offset result.1)) := by
  rw [writeline, if_neg (by simp [hsound.owner]), if_neg (by simp [hsound.writable]),
    formatline_isSome]
  dsimp only
  split
  next hfails =>
    have hfails : Fails h fields o := hfails.imp (fun hlt => by omega) (by simp)
    obtain ⟨hrewinds, hreached⟩ := hundone.1 hfails
    obtain ⟨hplaced, hunmoved⟩ :=
      rewind_unmoved hsound ((lineText fields ++ [LF]).take _) hrewinds hreached _
    exact ⟨hplaced, hunmoved.incore, .inl ⟨rfl, hunmoved⟩⟩
  next hworks =>
    have htaken : (lineText fields ++ [LF]).length ≤ min o.taken (lineText fields ++ [LF]).length :=
      Nat.le_of_not_lt fun hlt => hworks (.inl hlt)
    have hput :
        (h.put (h.pending ++ (lineText fields ++ [LF])) (if h.incore = true then o.reached else
        (h.pending ++ (lineText fields ++ [LF])).length)).Placed :=
      hsound.toPlaced.put _ fun hincore => by rw [if_neg (by simp [hincore])]
    rw [List.take_of_length_le htaken]
    obtain ⟨hplaced, htext, hoffset, hincore, hentered⟩ :=
      writedbz_cases hput hsound.fresh (o := o) hundone.2 fields.hash h.offset
    refine ⟨{ hplaced with }, hincore,
      .inr ⟨?_, ?_, hentered⟩⟩
    · refine htext.trans ((text_put hsound.position _ _).trans ?_)
      rw [Hisv6.text, append_assoc]
    · exact congrArg (· + _) hoffset

theorem Sound.writeline (hsound : h.Sound) {fields : Fields} {o : Outcome}
    (hundone : h.Undone (fields, o)) :
    (h.writeline fields o).2.Sound := by
  obtain ⟨hplaced, hincore, ⟨-, hunmoved⟩ | ⟨htext, hoffset, hfresh, hentered⟩⟩ :=
    writeline_cases hsound hundone
  · refine { hplaced with lined := ?_, offset := ?_, held := ?_, fresh := ?_ }
    · rw [hunmoved.text]
      exact hsound.lined
    · rw [hunmoved.text, hunmoved.offset]
      exact hsound.offset
    · rw [hunmoved.text, hunmoved.dbz]
      exact hsound.held
    · rw [hunmoved.dbz]
      exact hsound.fresh
  · refine { hplaced with lined := ?_, offset := ?_, held := ?_, fresh := hfresh }
    · rw [htext]
      exact lined_line h.text fields
    · rw [htext, hoffset, length_append, hsound.offset]
    · rw [htext]
      have hheld := hsound.held.append (lineText fields ++ [LF])
      obtain ⟨hkeeps, -⟩ | ⟨n, hputs⟩ := hentered
      · exact hheld.keeps hkeeps
      · refine hheld.puts hputs ?_
        rw [← hsound.offset]
        exact lineAt_end hsound.lined fields

/-- dbz leads from the hash to a line of these fields. -/
def Carries (h : Hisv6) (hash : HASH) (fields : Fields) : Prop :=
  ∃ offset : Nat, (h.dbz.dbzfetch hash).1 = some (offset : Int) ∧ LineAt h.text fields offset

theorem Sound.carries (hsound : h.Sound) {hash : HASH} (hfinds : h.dbz.Finds hash) :
    ∃ fields, h.Carries hash fields := by
  obtain ⟨fields, offset, hfetch, hline⟩ := hsound.held.fetched hfinds
  exact ⟨fields, offset, hfetch, hline⟩

theorem Carries.writeline {hash : HASH} {carried : Fields} (hcarries : h.Carries hash carried)
    (hsound : h.Sound) {fields : Fields} {o : Outcome} (hundone : h.Undone (fields, o)) :
    (h.writeline fields o).2.Carries hash carried := by
  obtain ⟨offset, hfetch, hline⟩ := hcarries
  obtain ⟨-, -, ⟨-, hunmoved⟩ | ⟨htext, -, -, hentered⟩⟩ := writeline_cases hsound hundone
  · refine ⟨offset, ?_, ?_⟩
    · rwa [hunmoved.dbz]
    · rwa [hunmoved.text]
  · refine ⟨offset, ?_, ?_⟩
    · obtain ⟨hkeeps, -⟩ | ⟨n, hputs⟩ := hentered
      · rwa [Dbz.Opened.dbzfetch_of_keeps hkeeps]
      · exact hputs.fetched hfetch
    · rw [htext]
      exact hline.append _

theorem carries_of_writeline (hsound : h.Sound) {fields : Fields} {o : Outcome}
    (hundone : h.Undone (fields, o))
    (hne : Dbz.erecOf fields.hash ≠ Dbz.emptyRec) (hworks : (h.writeline fields o).1 = true)
    (habsent : ¬h.dbz.Finds fields.hash) : (h.writeline fields o).2.Carries fields.hash fields := by
  obtain ⟨-, -, ⟨hfailed, -⟩ | ⟨htext, -, -, hentered⟩⟩ := writeline_cases hsound hundone
  · rw [hfailed] at hworks
    cases hworks
  · obtain ⟨-, hfinds⟩ | ⟨n, hputs⟩ := hentered
    · exact absurd (hfinds hworks) habsent
    · refine ⟨h.offset, hputs.fetched_new hne, ?_⟩
      rw [htext, ← hsound.offset]
      exact lineAt_end hsound.lined fields

theorem flushed_content (hplaced : h.Placed) (reached : Nat) :
    let flushed := if (h.rdwr && h.incore) = true then h.fflush true reached else (true, h)
    flushed.1 = true ∧ flushed.2.dbz = h.dbz ∧ flushed.2.disk = h.content := by
  obtain ⟨hr, -, hunmoved⟩ := fflush_unmoved hplaced (fun _ => rfl) reached
  split
  · exact ⟨hr, hunmoved.dbz, fflush_disk h hplaced.position reached⟩
  next hincore =>
    rw [hplaced.writable, Bool.true_and, Bool.not_eq_true] at hincore
    refine ⟨rfl, rfl, ?_⟩
    rw [content, hplaced.flushed hincore, overwrite_eq [] hplaced.position, append_nil,
      List.length_nil,
      Nat.add_zero, List.take_append_drop]

theorem Carries.fetchline {hash : HASH} {carried : Fields} (hcarries : h.Carries hash carried)
    (hplaced : h.Placed) (reached : Nat) : ∃ offset behind,
      (h.fetchline hash true reached).1 = some (lineText carried ++ 0 :: behind, offset) := by
  obtain ⟨offset, hfetch, hline⟩ := hcarries
  obtain ⟨hr, hdbz, hdisk⟩ := flushed_content hplaced reached
  obtain ⟨rest, hcontent⟩ := content_eq hplaced
  obtain ⟨hlong, hcomplete, behind, hbuf⟩ := pread_lineAt (hline.append rest)
  refine ⟨offset, behind, ?_⟩
  rw [Hisv6.fetchline, if_neg (by simp [hplaced.owner])]
  dsimp only
  rw [hr, hdbz, hfetch, hdisk, hcontent, if_neg (by simp)]
  dsimp only
  rw [Int.toNat_natCast, if_neg (by omega), if_neg (Nat.not_lt.mpr hlong), if_pos hcomplete, hbuf]

theorem splitline_carried (carried : Fields) (behind : Octets) :
    splitline (lineText carried ++ 0 :: behind) = splitline (lineText carried) := by
  refine splitline_behind (fun _ => ?_) behind
  have := line_length_ge carried
  rw [length_append, HISV6_MINLINE] at this
  simp only [List.length_cons, List.length_nil] at this
  omega

/-- What is found says what the line says. -/
theorem Carries.lookup_eq {hash : HASH} {carried : Fields} (hcarries : h.Carries hash carried)
    (hplaced : h.Placed)
    (reached : Nat) : h.lookup hash true reached = answer (lineText carried) := by
  obtain ⟨offset, behind, hfetch⟩ := hcarries.fetchline hplaced reached
  rw [Hisv6.lookup, hfetch]
  dsimp only
  rw [answer, answer, splitline_carried]

theorem Carries.lookup {hash : HASH} {carried : Fields} (hcarries : h.Carries hash carried)
    (hplaced : h.Placed) (hreadable : Readable carried) (reached : Nat) :
    h.lookup hash true reached = (carried.token.isSome, some carried.written) := by
  rw [hcarries.lookup_eq hplaced, answer, splitline_lineText hreadable]
  dsimp only
  rw [Fields.written]

theorem check_iff (howner : h.dbzowner = true) (hash : HASH) :
    (h.check hash).1 = true ↔ h.dbz.Finds hash := by
  rw [Hisv6.check, howner, if_neg (by simp)]
  exact Dbz.Opened.dbzexists_iff

theorem Carries.check {hash : HASH} {carried : Fields} (hcarries : h.Carries hash carried)
    (hplaced : h.Placed) :
    (h.check hash).1 = true := by
  obtain ⟨offset, hfetch, -⟩ := hcarries
  rw [check_iff hplaced.owner]
  by_contra hmissed
  rw [Dbz.Opened.dbzfetch_eq_none_iff.mpr hmissed] at hfetch
  cases hfetch

end Lines

theorem sound_reopen (incore : Bool) (synccount : Nat) {disk : Octets} {dbz : Dbz.Opened}
    (hlined : Lined disk) (hfresh : dbz.db.prevp = false) (hheld : Held disk dbz) :
    (reopen incore synccount disk dbz).Sound := by
  have htext : (reopen incore synccount disk dbz).text = disk := by
    rw [text, reopen, append_nil, List.take_length]
  have hplaced : (reopen incore synccount disk dbz).Placed := ⟨rfl, rfl, le_rfl, fun _ => rfl⟩
  refine { hplaced with lined := ?_, offset := ?_, held := ?_, fresh := hfresh }
  · rwa [htext]
  · rw [htext]
    rfl
  · rw [htext]
    exact hheld

theorem run_keeps (inv : Hisv6 → Prop)
    (hkeeps : ∀ h fields o, inv h → Undone h (fields, o) → inv (h.writeline fields o).2)
    {entries : List (Fields × Outcome)} {h h' : Hisv6} (hundone : Meets step Undone entries h)
    (hinv : inv h) (hrun : run step entries h = .ok h') : inv h' := by
  obtain ⟨h'', hrun', hinv'⟩ : ∃ h'', run step entries h = .ok h'' ∧ inv h'' :=
    run_invariant (fun h entry hinv hentry => ⟨_, rfl, hkeeps h entry.1 entry.2 hinv hentry⟩)
      entries hundone hinv
  rw [hrun] at hrun'
  cases hrun'
  exact hinv'

/-- Whichever writes fail, as long as the failed ones are undone, dbz has the offsets of lines of
its hashes. A hash whose write has been reported to work is found: as it was written, or as it was
found before. -/
theorem hisv6_write_found (incore : Bool) (synccount : Nat) {disk : Octets} {dbz : Dbz.Opened}
    (hlined : Lined disk) (hfresh : dbz.db.prevp = false) (hheld : Held disk dbz)
    {entries : List (Fields × Outcome)}
    (hundone : Meets step Undone entries (reopen incore synccount disk dbz)) :
    ∃ h', run step entries (reopen incore synccount disk dbz) = .ok h' ∧ Held h'.content h'.dbz ∧
      ∀ before fields o after h, entries = before ++ (fields, o) :: after →
        run step before (reopen incore synccount disk dbz) = .ok h →
          (h.writeline fields o).1 = true →
        Dbz.erecOf fields.hash ≠ Dbz.emptyRec →
        (h'.check fields.hash).1 = true ∧
          ∀ reached, ((h.check fields.hash).1 = true →
              h'.lookup fields.hash true reached = h.lookup fields.hash true reached) ∧
            ((h.check fields.hash).1 = false → Readable fields →
              h'.lookup fields.hash true reached = (fields.token.isSome, some fields.written)) := by
  have hstart := sound_reopen incore synccount hlined hfresh hheld
  obtain ⟨h', hrun, hsound'⟩ : ∃ h', run step entries (reopen incore synccount disk dbz) =
      .ok h' ∧ h'.Sound :=
    run_invariant (fun h entry hsound hentry => ⟨_, rfl, hsound.writeline hentry⟩) entries
      hundone hstart
  refine ⟨h', hrun, ?_, ?_⟩
  · obtain ⟨rest, hcontent⟩ := content_eq hsound'.toPlaced
    rw [hcontent]
    exact hsound'.held.append rest
  · rintro before fields o after h rfl hbefore hworks hne
    have hsound : h.Sound :=
      run_keeps Sound (fun _ _ _ hinv hentry => hinv.writeline hentry) hundone.front hstart hbefore
    have hback := hundone.back hbefore
    have hafter : run step after (h.writeline fields o).2 = .ok h' := by
      rwa [run_append hbefore] at hrun
    have hstays : ∀ carried, (h.writeline fields o).2.Carries fields.hash carried →
        h'.Carries fields.hash carried :=
      fun carried hcarries =>
        (run_keeps (fun h => h.Sound ∧ h.Carries fields.hash carried)
          (fun _ _ _ hinv hentry => ⟨hinv.1.writeline hentry, hinv.2.writeline hinv.1 hentry⟩)
          (hback.2 _ rfl) ⟨hsound.writeline hback.1, hcarries⟩ hafter).2
    by_cases hfinds : h.dbz.Finds fields.hash
    · obtain ⟨carried, hcarries⟩ := hsound.carries hfinds
      have hcarries' := hstays carried (hcarries.writeline hsound hback.1)
      have hchecks := (check_iff hsound.owner fields.hash).mpr hfinds
      refine ⟨hcarries'.check hsound'.toPlaced, fun reached => ⟨fun _ => ?_, fun hmissed => ?_⟩⟩
      · rw [hcarries'.lookup_eq hsound'.toPlaced, hcarries.lookup_eq hsound.toPlaced]
      · rw [hchecks] at hmissed
        cases hmissed
    · have hcarries' := hstays fields (carries_of_writeline hsound hback.1 hne hworks hfinds)
      exact ⟨hcarries'.check hsound'.toPlaced, fun reached =>
        ⟨fun hfound => absurd ((check_iff hsound.owner fields.hash).mp hfound) hfinds,
          fun _ hreadable => hcarries'.lookup hsound'.toPlaced hreadable reached⟩⟩

def smooth : Outcome := ⟨HISV6_MAXLINE, true, HISV6_MAXLINE, true, true, true, true, true⟩

/-- As `hisv6_reopen` opens the database of a handle that is not in core. -/
def newdbz : Dbz.Opened := Dbz.Opened.fresh ⟨4, Nat.succ_pos 3, 0⟩ ⟨true, .no, .no, true⟩

theorem held_newdbz : Held [] newdbz :=
    fun place hplace => absurd (Dbz.Opened.erecAt_fresh _ _ place) hplace

def article (octet : UInt8) (arrived : time_t) : Fields where
  hash := HASH.fill octet
  arrived := arrived
  posted := 1
  expires := 0
  token := some ⟨List.replicate 18 octet, List.length_replicate⟩

theorem hisv6_write_found_second :
    ∃ h', run step [(article 1 7, smooth),
      (article 2 8, smooth)] (reopen false 0 [] newdbz) = .ok h' ∧
      (h'.check (HASH.fill 2)).1 = true ∧
        h'.lookup (HASH.fill 2) true 0 = (true, some (article 2 8)) := by
  have hundone :
      Meets step Undone [(article 1 7, smooth), (article 2 8, smooth)] (reopen false 0 [] newdbz) :=
    ⟨by decide, fun _ hstep => Except.ok.inj hstep ▸ ⟨by decide, fun _ _ => trivial⟩⟩
  obtain ⟨h', hrun, -, hfound⟩ :=
    hisv6_write_found false 0 (by simp [Lined]) rfl held_newdbz hundone
  obtain ⟨hcheck, hlookup⟩ := hfound [(article 1 7, smooth)] (article 2 8) smooth [] _ rfl rfl
    (by decide +kernel) (by decide)
  exact ⟨h', hrun, hcheck, (hlookup 0).2 (by decide +kernel) ⟨by decide, fun _ => by decide⟩⟩

def writelines : List (Fields × Outcome) → Hisv6 → List Bool × Hisv6
  | [], h => ([], h)
  | entry :: rest, h =>
    let (r, h) := h.writeline entry.1 entry.2
    let (results, h) := writelines rest h
    (r :: results, h)

def answers (incore : Bool) (entries : List (Fields × Outcome)) (hash : HASH) :
    List Bool × Bool × Bool × Option Fields :=
  let (results, h) := writelines entries (reopen incore 0 [] newdbz)
  (results, (h.check hash).1, h.lookup hash true 0)

/-- A write of a hash that dbz has is reported to work, and what was found is found again. Besides,
lines go astray if the stream loses them or is not rewound, a time of `-1` cannot be read, and a
hash that begins with nuls is not found. -/
theorem hisv6_write_not_found :
    answers false [(article 1 7, smooth), (article 1 8, smooth)] (HASH.fill 1) =
      ([true, true], true, true, some (article 1 7)) ∧
    answers true [(article 1 7, { smooth with reached := 0 }),
      (article 2 8, { smooth with taken := 0, reached := 0 })]
      (HASH.fill 1) = ([true, false], true, false, none) ∧
    answers false [(article 1 7, { smooth with flushes := false, reached := 0, rewinds := false }),
      (article 2 8, smooth)] (HASH.fill 2) = ([false, true], true, false, none) ∧
    answers false [(article 1 (-1), smooth)] (HASH.fill 1) = ([true], true, false, none) ∧
    answers false [(article 0 7, smooth)] (HASH.fill 0) = ([true], false, false, none) := by
  decide +kernel

end Hisv6

end Inn.History
