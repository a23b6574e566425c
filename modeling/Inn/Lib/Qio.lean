import Inn.Foundation.Lines
import Inn.Octets

/-!
# Quick I/O

A file is read line by line through a buffer. How much a read returns is not up to the program, and
a read may be interrupted. A line is returned when it fits into the buffer together with its
newline; of one that does not fit only the end is looked for.
-/

namespace Inn.Lib.Qio

open Foundation.Lines

inductive Read
  | count (n : Nat)
  | interrupted
  | failed
  deriving DecidableEq

/-- A file with what `read` answers, which may be less than asked for. -/
structure File where
  content : Octets
  offset : Nat
  reads : List Read
  deriving DecidableEq

inductive Nread
  | got (octets : Octets)
  | interrupted
  | failed

namespace File

variable (f : File)

def left : Octets := f.content.drop f.offset

def take (n : Nat) : Nread × File :=
  (.got (f.left.take n),
    { f with offset := f.offset + (f.left.take n).length, reads := f.reads.tail })

def read (amount : Nat) : Nread × File :=
  match f.reads with
  | [] => f.take amount
  | .count n :: _ => f.take (min (n + 1) amount)
  | .interrupted :: reads => (.interrupted, { f with reads })
  | .failed :: reads => (.failed, { f with reads })

def resumed : File := { f with reads := f.reads.dropWhile (· = .interrupted) }

end File

inductive QIOflag
  | QIO_ok
  | QIO_error
  | QIO_long
  deriving DecidableEq

/-- The buffer, and where the next line starts in it. -/
structure QIOSTATE where
  file : File
  length : Nat
  size : Nat
  size_pos : 0 < size
  buffer : Octets
  start : Nat
  count : Nat
  flag : QIOflag
  deriving DecidableEq

def QIOfdopen (file : File) (size : Nat) (size_pos : 0 < size) : QIOSTATE :=
  ⟨file, 0, size, size_pos, [], 0, 0, .QIO_ok⟩

namespace QIOSTATE

variable (qp : QIOSTATE)

def unread : Octets := qp.buffer.drop qp.start

def lineTaken (n : Nat) : QIOSTATE :=
  { qp with buffer := qp.buffer.set (qp.start + n) 0, length := n, start := qp.start + n + 1 }

def room : QIOSTATE :=
  if qp.unread.length = 0 then { qp with start := 0, buffer := [] }
  else
    let qp := if qp.unread.length ≥ qp.size then
      { qp with flag := .QIO_long, start := qp.buffer.length } else qp
    if 0 < qp.start then { qp with buffer := qp.unread, start := 0 } else qp

def readLoop : Nat → QIOSTATE → Option (Option Octets × QIOSTATE)
  | 0, _ => none
  | bound + 1, qp =>
    match cut LF qp.unread with
    | some (line, _) => some
      (if qp.flag = .QIO_long then none else some line, qp.lineTaken line.length)
    | none =>
      let qp := qp.room
      match qp.file.resumed.read (qp.size - qp.unread.length) with
      | (.got octets, file) =>
        if octets = [] then some (none, { qp with file })
        else readLoop bound { qp with
          file, buffer := qp.buffer ++ octets, count := qp.count + octets.length }
      | (_, file) => some (none, { qp with file, flag := .QIO_error })

/-- The next line, if it has an end and fits into the buffer. -/
def QIOread : Option (Option Octets × QIOSTATE) :=
    readLoop (qp.file.left.length + 1) { qp with flag := .QIO_ok }

def QIOrewind : Bool × QIOSTATE :=
  match ({ qp.file with offset := 0 } : File).read qp.size with
  | (.got octets, file) =>
      (true, { qp with file, count := octets.length, buffer := octets, start := 0 })
  | (_, file) => (false, { qp with file })

def results : Nat → QIOSTATE → Option (List (Option Octets × QIOflag))
  | 0, _ => some []
  | n + 1, qp =>
    match qp.QIOread with
    | none => none
    | some (found, qp) => (results n qp).map ((found, qp.flag) :: ·)

end QIOSTATE

section Reading

variable {f f' : File}

def File.Sound (f : File) : Prop := .failed ∉ f.reads

theorem File.take_left (n : Nat) (f : File) : f.left = f.left.take n ++ (f.take n).2.left := by
  rw [File.take, File.left, File.left, ← List.drop_drop, List.length_take]
  nth_rewrite 1 [← List.take_append_drop n (f.content.drop f.offset)]
  congr 1
  obtain hle | hlt := Nat.le_total n (f.content.drop f.offset).length
  · rw [Nat.min_eq_left hle]
  · rw [Nat.min_eq_right hlt, List.drop_of_length_le hlt, List.drop_length]

theorem File.read_resumed {amount : Nat} (hamount : 0 < amount) (hsound : f.Sound) : ∃ octets f',
    f.resumed.read amount = (.got octets, f') ∧ f'.Sound ∧ f.left = octets ++ f'.left ∧
      octets.length ≤ amount ∧
      (octets = [] → f.left = []) := by
  have hresumed : f.resumed.Sound := fun hmem => hsound (List.dropWhile_suffix _ |>.subset hmem)
  have htake (n : Nat) (hn : 0 < n) (hle : n ≤ amount) :
      ∃ octets f', f.resumed.take n = (.got octets, f') ∧ f'.Sound ∧
      f.left = octets ++ f'.left ∧ octets.length ≤ amount ∧ (octets = [] → f.left = []) := by
    refine ⟨f.left.take n, (f.resumed.take n).2, rfl,
      fun hmem => hresumed (List.mem_of_mem_tail hmem),
      f.resumed.take_left n, ?_, fun hnil => ?_⟩
    · rw [List.length_take]
      omega
    · exact (List.take_eq_nil_iff.mp hnil).resolve_left (by omega)
  rw [File.read]
  split
  · exact htake amount hamount (Nat.le_refl _)
  · exact htake _ (by omega) (Nat.min_le_right _ _)
  next reads hreads =>
    have hhead := List.head?_dropWhile_not (· = Read.interrupted) f.reads
    rw [show f.reads.dropWhile (· = .interrupted) = .interrupted :: reads from hreads] at hhead
    simp at hhead
  next reads hreads => exact absurd (hreads ▸ List.mem_cons_self) hresumed

end Reading

namespace QIOSTATE

variable {qp qp' : QIOSTATE}

def text (qp : QIOSTATE) : Octets := qp.unread ++ qp.file.left

/-- A buffer that is within its size. -/
structure Good (qp : QIOSTATE) : Prop where
  start_le : qp.start ≤ qp.buffer.length
  buffer_le : qp.buffer.length ≤ qp.size
  sound : qp.file.Sound

inductive Outcome (size : Nat) (long : Bool) (text : Octets) :
    Option Octets → QIOflag → Octets → Prop
  | line (line rest) : text = line ++ LF :: rest → LF ∉ line → long = false → line.length < size →
      Outcome size long text (some line) .QIO_ok rest
  | overlong (line rest) : text = line ++ LF :: rest → LF ∉ line →
      long = true ∨ size ≤ line.length →
      Outcome size long text none .QIO_long rest
  | ended : LF ∉ text → long = false → text.length < size → Outcome size long text none .QIO_ok text
  | endedLong (rest) : LF ∉ text → long = true ∨ size ≤ text.length → LF ∉ rest →
      rest.length < size →
      Outcome size long text none .QIO_long rest

theorem Outcome.behind {size : Nat} {long : Bool} {front text rest : Octets} {found : Option Octets}
    {flag : QIOflag} (h : Outcome size true text found flag rest) (hfront : LF ∉ front)
    (hsize : size ≤ front.length) :
    Outcome size long (front ++ text) found flag rest := by
  cases h with
  | line line rest htext hline hlong => cases hlong
  | overlong line rest htext hline =>
    refine .overlong (front ++ line) rest (by rw [htext, List.append_assoc]) ?_ (.inr ?_)
    · exact fun h => (List.mem_append.mp h).elim hfront hline
    · rw [List.length_append]
      exact Nat.le_trans hsize (Nat.le_add_right _ _)
  | ended htext hlong => cases hlong
  | endedLong _ htext _ hrest hlength =>
    refine .endedLong rest (fun h => (List.mem_append.mp h).elim hfront htext)
      (.inr ?_) hrest hlength
    rw [List.length_append]
    exact Nat.le_trans hsize (Nat.le_add_right _ _)

theorem room_spec (qp : QIOSTATE) :
    qp.room.start = 0 ∧ qp.room.file = qp.file ∧ qp.room.size = qp.size ∧
    qp.room.buffer.length < qp.size ∧
      ((qp.unread.length < qp.size ∧ qp.room.buffer = qp.unread ∧ qp.room.flag = qp.flag) ∨
        (qp.size ≤ qp.unread.length ∧ qp.room.buffer = [] ∧ qp.room.flag = .QIO_long)) := by
  have hpos := qp.size_pos
  rw [room]
  split
  next hempty =>
    rw [List.eq_nil_of_length_eq_zero hempty]
    exact ⟨rfl, rfl, rfl, hpos, .inl ⟨hpos, rfl, rfl⟩⟩
  next hnonempty =>
    by_cases hfull : qp.unread.length ≥ qp.size
    · have hbuffer : 0 < qp.buffer.length := by
        have := List.length_drop (i := qp.start) (l := qp.buffer)
        rw [unread] at hfull
        omega
      rw [if_pos hfull]
      dsimp only
      rw [if_pos hbuffer, unread, List.drop_length]
      exact ⟨rfl, rfl, rfl, hpos, .inr ⟨hfull, rfl, rfl⟩⟩
    · rw [if_neg hfull]
      dsimp only
      split
      next hstart => exact ⟨rfl, rfl, rfl, Nat.lt_of_not_le hfull,
        .inl ⟨Nat.lt_of_not_le hfull, rfl, rfl⟩⟩
      next hstart =>
        have hzero : qp.start = 0 := Nat.eq_zero_of_not_pos hstart
        have hunread : qp.unread = qp.buffer := by rw [unread, hzero, List.drop_zero]
        rw [hunread] at hfull ⊢
        exact ⟨hzero, rfl, rfl, Nat.lt_of_not_le hfull, .inl ⟨Nat.lt_of_not_le hfull, rfl, rfl⟩⟩

theorem readLoop_spec {bound : Nat} (hgood : qp.Good) (hflag : qp.flag ≠ .QIO_error)
    (hbound : qp.file.left.length < bound) :
    ∃ found qp', readLoop bound qp = some (found, qp') ∧ qp'.Good ∧
      qp'.size = qp.size ∧ Outcome qp.size (qp.flag = .QIO_long) qp.text found qp'.flag
        qp'.text := by
  induction bound generalizing qp with
  | zero => exact absurd hbound (Nat.not_lt_zero _)
  | succ bound ih =>
    rw [readLoop]
    split
    next line rest hcut =>
      obtain ⟨hunread, hline⟩ := of_cut hcut
      have hlength := congrArg List.length hunread
      rw [unread, List.length_drop, List.length_append, List.length_cons] at hlength
      have hstart := hgood.start_le
      have hbuffer := hgood.buffer_le
      have htext : qp.text = line ++ LF :: (rest ++ qp.file.left) := by
        rw [text, hunread, List.append_assoc, List.cons_append]
      have hrest : (qp.lineTaken line.length).text = rest ++ qp.file.left := by
        rw [text, unread, lineTaken]
        dsimp only
        rw [List.drop_set_of_lt (by omega), Nat.add_assoc, ← List.drop_drop, ← unread, hunread,
          ← List.drop_drop, List.drop_left]
        rfl
      refine ⟨_, _, rfl, ⟨?_, ?_, hgood.sound⟩, rfl, ?_⟩
      · rw [lineTaken, List.length_set]
        dsimp only
        omega
      · rw [lineTaken, List.length_set]
        exact hbuffer
      · rw [hrest]
        by_cases hlong : qp.flag = .QIO_long
        · rw [if_pos hlong, lineTaken, hlong]
          exact .overlong line _ htext hline (.inl rfl)
        · have hok : qp.flag = .QIO_ok := by
            cases hcase : qp.flag with
            | QIO_ok => rfl
            | QIO_error => exact absurd hcase hflag
            | QIO_long => exact absurd hcase hlong
          rw [if_neg hlong, lineTaken, hok]
          exact .line line _ htext hline rfl (by omega)
    next hcut =>
      have hnone := of_cut_none hcut
      obtain ⟨hstart, hfile, hsize, hlt, hroom⟩ := room_spec qp
      have hunread : qp.room.unread = qp.room.buffer := by rw [unread, hstart, List.drop_zero]
      obtain ⟨octets, file, hread, hsound, hleft, hle, hend⟩ :=
        File.read_resumed (show 0 < qp.size - qp.room.buffer.length by omega) hgood.sound
      rw [← hfile, ← hsize, ← hunread] at hread
      have hroomflag : qp.room.flag ≠ .QIO_error := by
        obtain ⟨-, -, h⟩ | ⟨-, -, h⟩ := hroom
        · rwa [h]
        · rw [h]
          decide
      dsimp only
      rw [hread]
      dsimp only
      -- What is in the buffer already is the start of the text, or the buffer has been filled by
      -- the line.
      have hwhole {found : Option Octets} {flag : QIOflag} {rest : Octets}
          (h : Outcome qp.size (qp.room.flag = .QIO_long) (qp.room.buffer ++ qp.file.left)
            found flag rest) :
          Outcome qp.size (qp.flag = .QIO_long) qp.text found flag rest := by
        obtain ⟨-, hbuffer, hsame⟩ | ⟨hfull, hbuffer, hlong⟩ := hroom
        · rwa [hbuffer, hsame] at h
        · rw [hbuffer, hlong] at h
          exact h.behind hnone hfull
      split
      next hnil =>
        have hdone := hend hnil
        have hleft' : file.left = [] := by
          rw [hdone, hnil] at hleft
          exact hleft.symm
        have hbuffer : LF ∉ qp.room.buffer := by
          obtain ⟨-, h, -⟩ | ⟨-, h, -⟩ := hroom
          · rwa [h]
          · rw [h]
            exact List.not_mem_nil
        have htext : ({ qp.room with file := file } : QIOSTATE).text = qp.room.buffer := by
          rw [text]
          dsimp only
          rw [hleft', List.append_nil]
          exact hunread
        refine ⟨none, _, rfl, ⟨?_, ?_, hsound⟩, hsize, hwhole ?_⟩
        · exact hstart ▸ Nat.zero_le _
        · dsimp only
          omega
        · rw [htext, hdone, List.append_nil]
          dsimp only
          cases hcase : qp.room.flag with
          | QIO_ok => exact .ended hbuffer rfl hlt
          | QIO_error => exact absurd hcase hroomflag
          | QIO_long => exact .endedLong _ hbuffer (.inl rfl) hbuffer hlt
      next hsome =>
        have hmore := congrArg List.length hleft
        rw [List.length_append] at hmore
        have hpos := List.length_pos_of_ne_nil hsome
        obtain ⟨found, qp', hloop, hgood', hsize', houtcome⟩ := @ih
          { qp.room with
            file, buffer := qp.room.buffer ++ octets, count := qp.room.count + octets.length }
          ⟨hstart ▸ Nat.zero_le _, by rw [List.length_append]; dsimp only; omega, hsound⟩ hroomflag
          (by dsimp only; omega)
        refine ⟨found, qp', hloop, hgood', hsize'.trans hsize, hwhole ?_⟩
        have htext : qp.room.buffer ++ qp.file.left = qp.room.buffer ++ octets ++ file.left := by
          rw [hleft, List.append_assoc]
        rw [htext]
        dsimp only [text, unread] at houtcome
        rwa [hstart, List.drop_zero, hsize] at houtcome

theorem QIOread_spec (hgood : qp.Good) :
    ∃ found qp', qp.QIOread = some (found, qp') ∧ qp'.Good ∧ qp'.size = qp.size ∧
    Outcome qp.size false qp.text found qp'.flag qp'.text :=
  @readLoop_spec { qp with flag := .QIO_ok } _ ⟨hgood.start_le, hgood.buffer_le,
    hgood.sound⟩ nofun (Nat.lt_succ_self _)

def answer (size : Nat) (line : Octets) : Option Octets × QIOflag :=
  if line.length < size then (some line, .QIO_ok) else (none, .QIO_long)

def answers (size : Nat) (text : Octets) : List (Option Octets × QIOflag) :=
  (pieces LF text).1.map (answer size) ++
    [(none, if (pieces LF text).2.length < size then .QIO_ok else .QIO_long)]

theorem Outcome.of_line {size : Nat} {line rest rest' : Octets} {found : Option Octets}
    {flag : QIOflag}
    (hline : LF ∉ line) (h : Outcome size false (line ++ LF :: rest) found flag rest') :
    (found, flag) = answer size line ∧ rest' = rest := by
  have hmem : LF ∈ line ++ LF :: rest := List.mem_append_right _ List.mem_cons_self
  have hsame {line' rest'' : Octets} (htext : line ++ LF :: rest = line' ++ LF :: rest'')
      (hline' : LF ∉ line') :
      line' = line ∧ rest'' = rest := by
    have hcut := cut_first hline rest
    rw [htext, cut_first hline'] at hcut
    exact Prod.mk.inj (Option.some.inj hcut)
  cases h with
  | line line' _ htext hline' _ hlength =>
    obtain ⟨rfl, rfl⟩ := hsame htext hline'
    exact ⟨(if_pos hlength).symm, rfl⟩
  | overlong line' _ htext hline' hlength =>
    obtain ⟨rfl, rfl⟩ := hsame htext hline'
    exact ⟨(if_neg (Nat.not_lt.mpr (hlength.resolve_left nofun))).symm, rfl⟩
  | ended hnone => exact absurd hmem hnone
  | endedLong _ hnone => exact absurd hmem hnone

theorem Outcome.of_last {size : Nat} {text rest : Octets} {found : Option Octets} {flag : QIOflag}
    (hnone : LF ∉ text) (h : Outcome size false text found flag rest) :
    found = none ∧ flag = (if text.length < size then .QIO_ok else .QIO_long) ∧ LF ∉ rest ∧
      rest.length < size := by
  have hline {line rest' : Octets} (htext : text = line ++ LF :: rest') : False :=
    hnone (htext ▸ List.mem_append_right _ List.mem_cons_self)
  cases h with
  | line _ _ htext => exact (hline htext).elim
  | overlong _ _ htext => exact (hline htext).elim
  | ended _ _ hlength => exact ⟨rfl, (if_pos hlength).symm, hnone, hlength⟩
  | endedLong _ _ hlength hrest hrest' =>
    exact ⟨rfl, (if_neg (Nat.not_lt.mpr (hlength.resolve_left nofun))).symm, hrest, hrest'⟩

theorem results_last (n : Nat) (hgood : qp.Good) (hnone : LF ∉ qp.text)
    (hlength : qp.text.length < qp.size) :
    results n qp = some (List.replicate n (none, .QIO_ok)) := by
  induction n generalizing qp with
  | zero => rfl
  | succ n ih =>
    obtain ⟨found, qp', hread, hgood', hsize, houtcome⟩ := QIOread_spec hgood
    obtain ⟨rfl, hflag, hnone', hlength'⟩ := houtcome.of_last hnone
    rw [if_pos hlength] at hflag
    rw [results, hread]
    dsimp only
    rw [ih hgood' hnone' (hsize ▸ hlength'), hflag]
    rfl

theorem results_text (n : Nat) {text : Octets} (hgood : qp.Good) (htext : qp.text = text) :
    results ((pieces LF text).1.length + 1 + n) qp =
      some (answers qp.size text ++ List.replicate n (none, .QIO_ok)) := by
  induction text using pieces_induction LF generalizing qp with
  | last text hnone =>
    obtain ⟨found, qp', hread, hgood', hsize, houtcome⟩ := QIOread_spec hgood
    rw [htext] at houtcome
    obtain ⟨rfl, hflag, hnone', hlength'⟩ := houtcome.of_last hnone
    rw [answers, pieces_of_notMem hnone, List.length_nil, Nat.zero_add, Nat.add_comm,
      results, hread]
    dsimp only
    rw [results_last n hgood' hnone' (hsize ▸ hlength'), hflag]
    rfl
  | first line rest hline ih =>
    obtain ⟨found, qp', hread, hgood', hsize, houtcome⟩ := QIOread_spec hgood
    rw [htext] at houtcome
    obtain ⟨hanswer, hrest⟩ := houtcome.of_line hline
    rw [answers, pieces_first hline, List.length_cons, Nat.add_right_comm _ 1 1,
      Nat.add_right_comm _ 1 n, results, hread]
    dsimp only
    rw [ih hgood' hrest, hanswer, hsize, answers]
    rfl

/-- A file that is opened or rewound is read line by line: each line that fits into the buffer with
its newline is returned, and each that does not is skipped and flagged. -/
theorem QIOread_lines (size n : Nat) (size_pos : 0 < size) (content : Octets) (reads : List Read)
    (hreads : .failed ∉ reads) :
    results ((pieces LF content).1.length + 1 + n) (QIOfdopen ⟨content, 0, reads⟩ size size_pos) =
        some (answers size content ++ List.replicate n (none, .QIO_ok)) ∧
      ∀ qp : QIOSTATE, qp.size = size → qp.file.content = content → qp.file.reads = reads →
        qp.QIOrewind.1 →
        results ((pieces LF content).1.length + 1 + n) qp.QIOrewind.2 =
          some (answers size content ++ List.replicate n (none, .QIO_ok)) := by
  refine ⟨results_text n ⟨Nat.le_refl _, Nat.zero_le _, hreads⟩ rfl, ?_⟩
  rintro qp rfl rfl rfl hrewound
  have htake (k : Nat) (hk : k ≤ qp.size) : ∃ octets file,
      ({ qp.file with offset := 0 } : File).take k = (.got octets, file) ∧
        octets.length ≤ qp.size ∧ file.Sound ∧
        octets ++ file.left = qp.file.content := by
    refine ⟨_, _, rfl, ?_, fun hmem => hreads (List.mem_of_mem_tail hmem),
      (File.take_left k _).symm⟩
    rw [List.length_take]
    omega
  have hread :
      ∃ octets file, ({ qp.file with offset := 0 } : File).read qp.size = (.got octets, file) ∧
      octets.length ≤ qp.size ∧ file.Sound ∧ octets ++ file.left = qp.file.content := by
    rw [QIOrewind, File.read] at hrewound
    rw [File.read]
    cases hcase : qp.file.reads with
    | nil => exact htake _ (Nat.le_refl _)
    | cons read reads =>
      cases read with
      | count k => exact htake _ (Nat.min_le_right _ _)
      | interrupted =>
        rw [hcase] at hrewound
        cases hrewound
      | failed =>
        rw [hcase] at hrewound
        cases hrewound
  obtain ⟨octets, file, hread, hlength, hsound, htext⟩ := hread
  rw [QIOrewind, hread]
  exact results_text n ⟨Nat.zero_le _, hlength, hsound⟩ htext

theorem QIOread_lines_abc :
    results 4 (QIOfdopen ⟨[97, 10, 98, 99, 100, 101, 10, 99, 10], 0, [.count 1, .interrupted]⟩ 3
      (by decide)) =
    some [(some [97], .QIO_ok), (none, .QIO_long), (some [99], .QIO_ok), (none, .QIO_ok)] :=
  (QIOread_lines 3 0 (by decide) [97, 10, 98, 99, 100, 101, 10, 99, 10] [.count 1,
    .interrupted] (by decide)).1

end QIOSTATE

end Inn.Lib.Qio
