import Inn.Foundation.Lines
import Inn.Lib.Native
import Inn.Wildmat.Utf8

/-!
# Sending a text line by line

Each line is cut off with a nul where its newline is, written to a stream, and joined with the rest
again when the next line is taken.
-/

namespace Inn.Lib.Sending

open Foundation.Lines Native Wildmat
open List (append_assoc cons_append)

structure FILE where
  written : Octets
  error : Bool
  outcome : Nat → Option Nat

def FILE.write (F : FILE) (s : Octets) : FILE × Bool :=
  let outcome := fun n => F.outcome (n + 1)
  match F.outcome 0 with
  | none => (⟨F.written ++ s, F.error, outcome⟩, true)
  | some n => (⟨F.written ++ s.take n, true, outcome⟩, false)

def string (mem : Octets) (p : Nat) : Octets := (mem.drop p).takeWhile (· ≠ 0)

theorem string_length (mem : Octets) (p : Nat) : (string mem p).length ≤ mem.length - p := by
  rw [string, ← List.length_drop]
  exact (List.takeWhile_sublist _).length_le

def writeLine (F : FILE) (line : Octets) : FILE × Bool :=
  match if line.head? = some 46 then F.write [46] else (F, true) with
  | (F, false) => (F, false)
  | (F, true) => F.write (line ++ [13, 10])

def sendLines (mem : Octets) (p : Nat) (F : FILE) : Octets × FILE × Bool :=
  let line := string mem p
  if _hend : line = [] then (mem, F, true)
  else
    match _hnext : line.findIdx? (· = 10) with
    | none => (mem, writeLine F line)
    | some next =>
      let cutMem := mem.set (p + next) 0
      match writeLine F (string cutMem p) with
      | (F, false) => (cutMem, F, false)
      | (F, true) => sendLines (cutMem.set (p + next) 10) (p + next + 1) F
termination_by mem.length - p
decreasing_by
  have hpos : 0 < (string mem p).length := List.length_pos_iff.mpr _hend
  have := string_length mem p
  rw [List.length_set, List.length_set]
  omega

structure Sent where
  mem : Octets
  F : FILE
  result : Int

def NNTPsendarticle (mem : Octets) (F : FILE) (Terminate : Bool) : Sent :=
  match sendLines mem 0 F with
  | (mem, F, false) => ⟨mem, F, -1⟩
  | (mem, F, true) =>
    match if Terminate then F.write [46, 13, 10] else (F, true) with
    | (F, false) => ⟨mem, F, -1⟩
    | (F, true) =>
      -- the stream is flushed
      match F.write [] with
      | (F, flushed) => ⟨mem, F, if !flushed ∨ F.error then -1 else 0⟩

def memory (text : CString) (behind : Octets) : Octets := text.octets ++ 0 :: behind

def writes (line : Octets) : Nat := if line.head? = some 46 then 2 else 1

def lineWrites (text : Octets) : Nat := ((pieces 10 text).1.map writes).sum

section Lines

variable {F : FILE} {front text line rest behind : Octets}

theorem write_ok (hok : F.outcome 0 = none) (s : Octets) :
    F.write s = (⟨F.written ++ s, F.error, fun n => F.outcome (n + 1)⟩, true) := by
  rw [FILE.write, hok]

theorem write_result (F : FILE) (s : Octets) : (F.write s).2 = true ↔ F.outcome 0 = none := by
  rw [FILE.write]
  cases F.outcome 0 <;> simp

theorem writeLine_result (F : FILE) (line : Octets) :
    (writeLine F line).2 = true ↔ ∀ n < writes line, F.outcome n = none := by
  rw [writeLine, writes]
  by_cases hdot : line.head? = some 46
  · rw [if_pos hdot, if_pos hdot]
    cases hfirst : F.outcome 0 with
    | none =>
      rw [write_ok hfirst]
      rw [write_result]
      refine ⟨fun hsecond n hn => ?_, fun h => h 1 (by decide)⟩
      obtain rfl | rfl : n = 0 ∨ n = 1 := by omega
      · exact hfirst
      · exact hsecond
    | some k =>
      refine iff_of_false ?_ fun h => ?_
      · rw [FILE.write, hfirst]
        exact Bool.false_ne_true
      · rw [h 0 (by decide)] at hfirst
        cases hfirst
  · rw [if_neg hdot, if_neg hdot]
    rw [write_result]
    exact ⟨fun h n hn => by rwa [Nat.lt_one_iff.mp hn], fun h => h 0 (by decide)⟩

theorem writeLine_ok (hok : ∀ n < writes line, F.outcome n = none) :
    writeLine F line = (⟨F.written ++
      ((if line.head? = some 46 then [46] else []) ++ line ++ [13, 10]), F.error,
      fun n => F.outcome (n + writes line)⟩, true) := by
  rw [writeLine]
  unfold writes at hok ⊢
  by_cases hdot : line.head? = some 46
  · rw [if_pos hdot] at hok
    rw [if_pos hdot, if_pos hdot, if_pos hdot, write_ok (hok 0 (by decide))]
    dsimp only
    rw [write_ok (hok 1 (by decide))]
    simp
  · rw [if_neg hdot] at hok
    rw [if_neg hdot, if_neg hdot, if_neg hdot]
    dsimp only
    rw [write_ok (hok 0 (by decide))]
    simp

theorem string_memory (hnul : 0 ∉ text) :
    string (front ++ text ++ 0 :: behind) front.length = text := by
  rw [string, append_assoc, List.drop_left, List.takeWhile_append_of_pos]
  · simp
  · exact fun c hc => decide_eq_true fun hzero => hnul (hzero ▸ hc)

theorem sendLines_nil : sendLines (front ++ [] ++ 0 :: behind) front.length F =
    (front ++ [] ++ 0 :: behind, F, true) := by
  rw [sendLines]
  simp only [string_memory List.not_mem_nil, dite_true]

theorem sendLines_last (hnul : 0 ∉ text) (hne : text ≠ []) (hnewline : 10 ∉ text) :
    sendLines (front ++ text ++ 0 :: behind) front.length F =
      (front ++ text ++ 0 :: behind, writeLine F text) := by
  have hnone : text.findIdx? (· = 10) = none := by
    rw [List.findIdx?_eq_none_iff]
    exact fun c hc => decide_eq_false fun heq => hnewline (heq ▸ hc)
  rw [sendLines, string_memory hnul]
  simp only [hne, dite_false]
  split
  · rfl
  next next hnext =>
    rw [hnone] at hnext
    cases hnext

theorem sendLines_first (hnul : 0 ∉ line ++ 10 :: rest) (hnewline : 10 ∉ line) :
    sendLines (front ++ (line ++ 10 :: rest) ++ 0 :: behind) front.length F =
      match writeLine F line with
      | (F, false) => (front ++ (line ++ 0 :: rest) ++ 0 :: behind, F, false)
      | (F, true) => sendLines (front ++ line ++ [10] ++ rest ++ 0 :: behind)
          (front ++ line ++ [10]).length F := by
  have hline : 0 ∉ line := fun hmem => hnul (List.mem_append_left _ hmem)
  have hset (c : UInt8) (c' : UInt8) :
      (front ++ (line ++ c' :: rest) ++ 0 :: behind).set (front.length + line.length) c =
      front ++ (line ++ c :: rest) ++ 0 :: behind := by
    rw [append_assoc, append_assoc, ← append_assoc, ← List.length_append, cons_append,
      List.set_append_right _ _ (Nat.le_refl _), Nat.sub_self, List.set_cons_zero]
    simp only [append_assoc, cons_append]
  have hcut : string (front ++ (line ++ 0 :: rest) ++ 0 :: behind) front.length = line := by
    have hmem := @string_memory front line (rest ++ 0 :: behind) hline
    simpa only [append_assoc, cons_append] using hmem
  have hfind : (line ++ 10 :: rest).findIdx? (· = 10) = some line.length := by
    rw [List.findIdx?_append, List.findIdx?_cons]
    have hnone : line.findIdx? (· = 10) = none := by
      rw [List.findIdx?_eq_none_iff]
      exact fun c hc => decide_eq_false fun heq => hnewline (heq ▸ hc)
    simp [hnone]
  rw [sendLines, string_memory hnul]
  simp only [List.append_eq_nil_iff, List.cons_ne_nil, and_false, dite_false]
  split
  next hnext =>
    rw [hfind] at hnext
    cases hnext
  next next hnext =>
    rw [hfind] at hnext
    cases hnext
    rw [hset, hcut]
    split
    · rfl
    next F' _ =>
      rw [hset, List.length_append, List.length_append, List.length_singleton]
      simp only [append_assoc, cons_append, List.nil_append]

theorem lineWrites_last (hnewline : 10 ∉ text) : lineWrites text = 0 := by
  rw [lineWrites, pieces_of_notMem hnewline]
  rfl

theorem lineWrites_first (hnewline : 10 ∉ line) :
    lineWrites (line ++ 10 :: rest) = writes line + lineWrites rest := by
  rw [lineWrites, pieces_first hnewline]
  rfl

theorem sendLines_mem_iff (front : Octets) (hnul : 0 ∉ text) :
    (sendLines (front ++ text ++ 0 :: behind) front.length F).1 = front ++ text ++ 0 :: behind ↔
      ∀ n < lineWrites text, F.outcome n = none := by
  induction text using pieces_induction (10 : UInt8) generalizing front F with
  | last text hnewline =>
    rw [lineWrites_last hnewline]
    refine iff_of_true ?_ nofun
    by_cases hne : text = []
    · rw [hne, sendLines_nil]
    · rw [sendLines_last hnul hne hnewline]
  | first line rest hnewline ih =>
    have hrest : 0 ∉ rest :=
      fun hmem => hnul (List.mem_append_right _ (List.mem_cons_of_mem _ hmem))
    rw [sendLines_first hnul hnewline, lineWrites_first hnewline]
    by_cases hok : ∀ n < writes line, F.outcome n = none
    · rw [writeLine_ok hok]
      have hmem : front ++ (line ++ 10 :: rest) ++ 0 :: behind = front ++ line ++ [10] ++ rest ++
          0 :: behind := by simp
      rw [hmem, ih _ hrest]
      constructor
      · intro h n hn
        by_cases hline : n < writes line
        · exact hok n hline
        · have hshift : F.outcome (n - writes line + writes line) = none :=
            h (n - writes line) (by omega)
          rwa [Nat.sub_add_cancel (Nat.not_lt.mp hline)] at hshift
      · exact fun h n hn => h (n + writes line) (by omega)
    · refine iff_of_false ?_ fun h => hok fun n hn => h n (Nat.lt_add_right _ hn)
      have hfails := mt (writeLine_result F line).mp hok
      split
      · intro heq
        have hcell := List.append_cancel_left (List.append_cancel_right heq)
        exact absurd (List.cons.inj (List.append_cancel_left hcell)).1 (by decide)
      next F' hwrite => exact absurd (congrArg Prod.snd hwrite) hfails

theorem fromNative_line (hnewline : 10 ∉ line) :
    fromNative true (line ++ 10 :: rest) =
      ((if line.head? = some 46 then [46] else []) ++ line ++ [13, 10]) ++
        fromNative true rest := by
  have hplain (line : Octets) (hnewline : 10 ∉ line) :
      fromNative false (line ++ 10 :: rest) = line ++ [13, 10] ++ fromNative true rest := by
    induction line with
    | nil => rfl
    | cons c line ih =>
      rw [List.mem_cons, not_or] at hnewline
      rw [cons_append, fromNative, if_neg (Ne.symm hnewline.1), if_neg (by simp), ih hnewline.2]
      rfl
  cases line with
  | nil => rfl
  | cons c line =>
    rw [List.mem_cons, not_or] at hnewline
    rw [cons_append, fromNative, if_neg (Ne.symm hnewline.1), hplain line hnewline.2]
    by_cases hdot : c = 46
    · simp [hdot]
    · simp [hdot]

theorem sendLines_written (front : Octets) (hnul : 0 ∉ text) (hends : (pieces 10 text).2 = [])
    (hok : F.outcome = fun _ => none) :
    sendLines (front ++ text ++ 0 :: behind) front.length F =
      (front ++ text ++ 0 :: behind,
        ⟨F.written ++ fromNative true text, F.error, fun _ => none⟩, true) := by
  induction text using pieces_induction (10 : UInt8) generalizing front F with
  | last text hnewline =>
    rw [pieces_of_notMem hnewline] at hends
    rw [show text = [] from hends, sendLines_nil, fromNative, ← hok, List.append_nil F.written]
  | first line rest hnewline ih =>
    have hrest : 0 ∉ rest :=
      fun hmem => hnul (List.mem_append_right _ (List.mem_cons_of_mem _ hmem))
    rw [pieces_first hnewline] at hends
    rw [sendLines_first hnul hnewline, writeLine_ok fun n _ => congrFun hok n]
    dsimp only
    rw [ih _ hrest hends (by rw [hok]), fromNative_line hnewline]
    simp only [append_assoc, cons_append, List.nil_append]

end Lines

section Articles

variable {F : FILE}

theorem NNTPsendarticle_mem (mem : Octets) (F : FILE) (Terminate : Bool) :
    (NNTPsendarticle mem F Terminate).mem = (sendLines mem 0 F).1 := by
  rw [NNTPsendarticle]
  split
  next hlines => rw [hlines]
  next hlines =>
    rw [hlines]
    split <;> rfl

theorem pieces_of_newline {text : Octets} (hends : text.getLast? = some 10) :
    (pieces 10 text).2 = [] := by
  induction text using pieces_induction (10 : UInt8) with
  | last text hnewline => exact absurd (List.mem_of_getLast? hends) hnewline
  | first line rest hnewline ih =>
    rw [pieces_first hnewline]
    cases rest with
    | nil => rfl
    | cons c rest =>
      rw [List.getLast?_append, List.getLast?_cons_cons] at hends
      refine ih ?_
      cases hlast : (c :: rest).getLast? with
      | none => exact absurd (List.getLast?_eq_none_iff.mp hlast) nofun
      | some d => rwa [hlast, Option.some_or] at hends

/-- The text is as it was, and its wire format is what was written. -/
structure Keeps (text : CString) (behind : Octets) (F : FILE) : Prop where
  mem : ∀ Terminate, (NNTPsendarticle (memory text behind) F Terminate).mem = memory text behind
  written : (∀ n, F.outcome n = none) → text.octets.getLast? = some 10 →
    (NNTPsendarticle (memory text behind) F true).F.written =
      F.written ++ (wireFromNative text.octets).octets

/-- A text is as it was if no write of a line fails that ends with a newline. -/
theorem keeps_iff (text : CString) (behind : Octets) (F : FILE) :
    Keeps text behind F ↔ ∀ n < lineWrites text.octets, F.outcome n = none := by
  have hmem (Terminate : Bool) :
      (NNTPsendarticle (memory text behind) F Terminate).mem = memory text behind ↔
      ∀ n < lineWrites text.octets, F.outcome n = none := by
    rw [NNTPsendarticle_mem]
    exact sendLines_mem_iff [] text.noNul
  refine ⟨fun hkeeps => (hmem true).mp (hkeeps.mem true),
    fun hok => ⟨fun Terminate => (hmem Terminate).mpr hok, ?_⟩⟩
  intro hnone hends
  have hlines : sendLines (memory text behind) 0 F =
      (memory text behind, ⟨F.written ++ fromNative true text.octets, F.error,
        fun _ => none⟩, true) :=
    sendLines_written [] text.noNul (pieces_of_newline hends) (funext hnone)
  rw [NNTPsendarticle, hlines]
  dsimp only
  rw [if_pos rfl, write_ok rfl]
  dsimp only
  rw [write_ok rfl, wireFromNative]
  simp only [append_assoc, List.append_nil]

/-- The stream fails at the first line, whose newline is then a nul. -/
theorem not_keeps : ¬∀ (text : CString) (behind : Octets) (F : FILE), Keeps text behind F := by
  intro hall
  have hkeeps := hall ⟨octets "a\nb\n", by decide⟩ [] ⟨[], false, fun _ => some 0⟩
  exact absurd (hkeeps.mem true) (by decide +kernel)

end Articles

end Inn.Lib.Sending
