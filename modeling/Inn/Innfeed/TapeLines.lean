import Inn.History.Expiry
import Inn.Innfeed.Tape

/-!
# The lines of a backlog file

A line that is not too long is read as a whole from where it starts, so that no
valid line starts inside of what has been read. A mark at the front of a file is
read back as the position that was written.
-/

namespace Inn.Innfeed

open Foundation.Words (decimal readDigits isdigit decimal_isdigit decimal_ne_nil readDigits_decimal)
open Foundation.Files (overwrite overwrite_eq)

def LineStart (file : Octets) (place : Nat) : Prop := place = 0 ∨ file[place - 1]? = some LF

instance (file : Octets) (place : Nat) : Decidable (LineStart file place) :=
    inferInstanceAs (Decidable (_ ∨ _))

def lineAt (file : Octets) (place : Nat) : Octets := throughLF (file.drop place)

def ValidLine (file : Octets) (place : Nat) (article : Octets × Octets) : Prop :=
  LineStart file place ∧ (lineAt file place).length < 2048 ∧
    parseLine (lineAt file place) = some article

instance (file : Octets) (place : Nat) (article : Octets × Octets) :
    Decidable (ValidLine file place article) :=
  inferInstanceAs (Decidable (_ ∧ _ ∧ _))

theorem throughLF_front (text : Octets) : ∃ rest, text = throughLF text ++ rest := by
  induction text with
  | nil => exact ⟨[], rfl⟩
  | cons c text ih =>
    obtain ⟨rest, hrest⟩ := ih
    rw [throughLF]
    split
    next hc => exact ⟨text, by rw [hc]; rfl⟩
    · exact ⟨rest, congrArg (c :: ·) hrest⟩

theorem throughLF_eq_nil {text : Octets} : throughLF text = [] ↔ text = [] := by
  cases text with
  | nil => exact Iff.rfl
  | cons c text =>
    rw [throughLF]
    split <;> simp

theorem throughLF_inside {text : Octets} {i : Nat} (hi : i + 1 < (throughLF text).length) :
    (throughLF text)[i]? ≠ some LF := by
  induction text generalizing i with
  | nil => exact absurd hi (Nat.not_lt_zero _)
  | cons c text ih =>
    rw [throughLF] at hi ⊢
    split at hi
    · exact absurd hi (by rw [List.length_singleton]; omega)
    next hc =>
      rw [if_neg hc]
      cases i with
      | zero => exact fun h => hc (Option.some.inj h)
      | succ i => exact ih (by rw [List.length_cons] at hi; omega)

theorem throughLF_take (text : Octets) (n : Nat) :
    throughLF (text.take n) = (throughLF text).take n := by
  induction text generalizing n with
  | nil => rw [List.take_nil, throughLF, List.take_nil]
  | cons c text ih =>
    cases n with
    | zero => rfl
    | succ n =>
      rw [List.take_succ_cons, throughLF, throughLF]
      split
      · rw [List.take_succ_cons, List.take_nil]
      · rw [List.take_succ_cons, ih]

theorem fgets_eq_take (size : Nat) (file : Octets) (place : Nat) :
    fgets size file place = (lineAt file place).take (size - 1) := throughLF_take _ _

theorem fgets_front (size : Nat) (file : Octets) (place : Nat) :
    ∃ rest, file.drop place = fgets size file place ++ rest := by
  obtain ⟨rest, hrest⟩ := throughLF_front ((file.drop place).take (size - 1))
  refine ⟨rest ++ (file.drop place).drop (size - 1), ?_⟩
  rw [← List.append_assoc, fgets, ← hrest, List.take_append_drop]

theorem fgets_eq_nil {size : Nat} (hsize : 1 < size) {file : Octets} {place : Nat} :
    fgets size file place = [] ↔ file.length ≤ place := by
  rw [fgets, throughLF_eq_nil, List.take_eq_nil_iff, List.drop_eq_nil_iff]
  exact or_iff_right (by omega)

theorem fgets_le {size : Nat} {file : Octets} {place : Nat} (hplace : place ≤ file.length) :
    place + (fgets size file place).length ≤ file.length := by
  obtain ⟨rest, hrest⟩ := fgets_front size file place
  have hlength := congrArg List.length hrest
  rw [List.length_drop, List.length_append] at hlength
  omega

theorem fgets_inside {size : Nat} {file : Octets} {place i : Nat}
    (hi : i + 1 < (fgets size file place).length) : file[place + i]? ≠ some LF := by
  obtain ⟨rest, hrest⟩ := fgets_front size file place
  have hinside : file[place + i]? = (fgets size file place)[i]? := by
    rw [← List.getElem?_drop, hrest, List.getElem?_append_left (by omega)]
  rw [hinside]
  exact throughLF_inside hi

theorem fgets_eq_lineAt {file : Octets} {place : Nat} (hshort : (lineAt file place).length < 2048) :
    fgets 2048 file place = lineAt file place := by
  rw [fgets_eq_take, List.take_of_length_le (by omega)]

theorem nextLF_some {file : Octets} {place k : Nat} (hnext : nextLF file place = some k) :
    place ≤ k ∧ file[k]? = some LF ∧ ∀ i, place ≤ i → i < k → file[i]? ≠ some LF := by
  rw [nextLF, Option.map_eq_some_iff] at hnext
  obtain ⟨j, hj, rfl⟩ := hnext
  obtain ⟨hlt, hLF, hfirst⟩ := List.idxOf?_eq_some_iff.mp hj
  refine ⟨Nat.le_add_right place j, ?_, ?_⟩
  · rw [← List.getElem?_drop, List.getElem?_eq_getElem hlt, hLF]
  · intro i hi hik hLF'
    obtain ⟨d, rfl⟩ := Nat.exists_eq_add_of_le hi
    rw [← List.getElem?_drop] at hLF'
    obtain ⟨hd, heq⟩ := List.getElem?_eq_some_iff.mp hLF'
    exact hfirst d (by omega) heq

theorem nextLF_none {file : Octets} {place i : Nat} (hnext : nextLF file place = none)
    (hi : place ≤ i) :
    file[i]? ≠ some LF := by
  rw [nextLF, Option.map_eq_none_iff, List.idxOf?_eq_none_iff] at hnext
  intro hLF
  obtain ⟨d, rfl⟩ := Nat.exists_eq_add_of_le hi
  rw [← List.getElem?_drop] at hLF
  exact hnext (List.mem_of_getElem? hLF)

theorem ValidLine.of_read {file : Octets} {place s : Nat} {article : Octets × Octets}
    (hvalid : ValidLine file s article) (hplace : place ≤ s)
    (hs : s < place + (fgets 2048 file place).length) :
    s = place ∧ parseLine (fgets 2048 file place) = some article := by
  have heq : s = place := by
    by_contra hne
    obtain ⟨i, rfl⟩ : ∃ i, s = place + i + 1 := ⟨s - place - 1, by omega⟩
    have hinside : i + 1 < (fgets 2048 file place).length := by omega
    exact fgets_inside hinside (hvalid.1.resolve_left (Nat.succ_ne_zero _))
  subst heq
  exact ⟨rfl, by rw [fgets_eq_lineAt hvalid.2.1]; exact hvalid.2.2⟩

/-- The file starts with a mark that is padded with blanks. -/
def Marked (file : Octets) (mark : Nat) : Prop :=
  ∃ n rest, file = decimal mark ++ List.replicate n 32 ++ rest ∧ 20 ≤ (decimal mark).length + n ∧
    (62 ≤ (decimal mark).length + n ∨ rest = [] ∨ rest.head? = some LF)

theorem throughLF_of_notMem {text : Octets} (htext : LF ∉ text) (rest : Octets) :
    throughLF (text ++ rest) = text ++ throughLF rest := by
  induction text with
  | nil => rfl
  | cons c text ih =>
    rw [List.mem_cons, not_or] at htext
    rw [List.cons_append, throughLF, if_neg (Ne.symm htext.1), ih htext.2]
    rfl

theorem mark_octets {mark n : Nat} {c : UInt8} (hc : c ∈ decimal mark ++ List.replicate n 32) :
    (isdigit c || c == 32) = true := by
  rcases List.mem_append.mp hc with hdigit | hblank
  · rw [show isdigit c = true from decimal_isdigit mark c hdigit]
    rfl
  · rw [List.eq_of_mem_replicate hblank]
    rfl

theorem ne_of_mark_octet {c c' : UInt8} (hc : (isdigit c || c == 32) = true)
    (hc' : (isdigit c' || c' == 32) = false) :
    c ≠ c' := by
  rintro rfl
  exact Bool.false_ne_true (hc'.symm.trans hc)

theorem takeWhile_mark (mark n : Nat) :
    ((decimal mark ++ List.replicate n 32).dropWhile isspace).takeWhile isdigit = decimal mark := by
  obtain ⟨c, digits, hdecimal⟩ := List.exists_cons_of_ne_nil (decimal_ne_nil mark)
  have hdigit : isdigit c = true :=
    decimal_isdigit mark c (by rw [hdecimal]; exact List.mem_cons_self)
  have hspace : isspace c = false := by
    rw [isdigit, Bool.and_eq_true, decide_eq_true_eq, decide_eq_true_eq] at hdigit
    have hge := UInt8.le_iff_toNat_le.mp hdigit.1
    rw [isspace, Bool.or_eq_false_iff, Bool.and_eq_false_iff, decide_eq_false_iff_not,
      decide_eq_false_iff_not,
      decide_eq_false_iff_not]
    refine ⟨?_, .inr fun hle =>
      absurd (Nat.le_trans hge (UInt8.le_iff_toNat_le.mp hle)) (by decide)⟩
    rintro rfl
    exact absurd hge (by decide)
  have hdrop : (decimal mark ++ List.replicate n 32).dropWhile isspace =
      decimal mark ++ List.replicate n 32 := by
    rw [hdecimal, List.cons_append,
      List.dropWhile_cons_of_neg (by rw [hspace]; exact Bool.false_ne_true)]
  have htake : (decimal mark ++ List.replicate n 32).takeWhile isdigit =
      decimal mark ++ (List.replicate n 32).takeWhile isdigit :=
    List.takeWhile_append_of_pos fun c hc => decimal_isdigit mark c hc
  rw [hdrop, htake]
  cases n with
  | zero => exact List.append_nil _
  | succ n => rw [List.replicate_succ, List.takeWhile_cons_of_neg (by decide), List.append_nil]

theorem readMark_of_marked {file : Octets} {mark : Nat} (hmark : mark < 2 ^ 63)
    (hmarked : Marked file mark) :
    readMark file = some mark := by
  obtain ⟨n, rest, rfl, _, hstop⟩ := hmarked
  have hdigits : (decimal mark).length ≤ 19 := History.decimal_length_le (by omega)
  -- The mark is read up to its end, or for as much as there is room for.
  obtain ⟨m, more, hread, hmore⟩ : ∃ m more,
      fgets 63 (decimal mark ++ List.replicate n 32 ++ rest) 0 =
      decimal mark ++ List.replicate m 32 ++ more ∧ (more = [] ∨ more = [LF]) := by
    have hLF : LF ∉ decimal mark ++ List.replicate n 32 := fun hmem =>
      ne_of_mark_octet (mark_octets hmem) (by decide) rfl
    refine ⟨min (62 - (decimal mark).length) n,
      (throughLF rest).take (62 - ((decimal mark).length + n)), ?_, ?_⟩
    · rw [fgets_eq_take, lineAt, List.drop_zero, throughLF_of_notMem hLF, List.take_append,
        List.take_append,
        List.take_of_length_le (by omega), List.take_replicate, List.length_append,
          List.length_replicate]
    · rcases hstop with hlong | rfl | hhead
      · rw [Nat.sub_eq_zero_of_le hlong]
        exact .inl rfl
      · exact .inl List.take_nil
      · obtain ⟨tail, rfl⟩ : ∃ tail, rest = LF :: tail := List.head?_eq_some_iff.mp hhead
        rw [throughLF, if_pos rfl]
        cases 62 - ((decimal mark).length + n) with
        | zero => exact .inl rfl
        | succ k => exact .inr (by rw [List.take_succ_cons, List.take_nil])
  have hnull : (decimal mark ++ List.replicate m 32 ++ more).takeWhile (· ≠ 0) =
      decimal mark ++ List.replicate m 32 ++ more := by
    refine List.takeWhile_eq_self_iff.mpr fun c hc => decide_eq_true ?_
    rcases List.mem_append.mp hc with hmem | hmem
    · exact ne_of_mark_octet (mark_octets hmem) (by decide)
    · rcases hmore with rfl | rfl
      · exact absurd hmem List.not_mem_nil
      · rw [List.mem_singleton.mp hmem]
        decide
  have hstrip : (if (decimal mark ++ List.replicate m 32 ++ more).getLast? = some LF then
      (decimal mark ++ List.replicate m 32 ++ more).dropLast else decimal mark ++
        List.replicate m 32 ++ more) =
        decimal mark ++ List.replicate m 32 := by
    rcases hmore with rfl | rfl
    · rw [List.append_nil, if_neg]
      intro hlast
      exact ne_of_mark_octet (mark_octets (List.mem_of_getLast? hlast)) (by decide) rfl
    · rw [List.getLast?_concat, if_pos rfl, List.dropLast_concat]
  have hall :
      (decimal mark ++ List.replicate m 32).all (fun c => isdigit c || c == 32 || c == LF) =
      true := by
    rw [List.all_eq_true]
    intro c hc
    rw [mark_octets hc]
    rfl
  have hne : decimal mark ++ List.replicate m 32 ≠ [] := fun hnil =>
    decimal_ne_nil mark (List.append_eq_nil_iff.mp hnil).1
  unfold readMark
  simp only [hread, hnull, hstrip, takeWhile_mark]
  rw [if_pos ⟨hne, hall⟩, if_neg (decimal_ne_nil mark), readDigits_decimal,
    Nat.min_eq_right (by omega)]

theorem decimal_length_mono {m n : Nat} (hle : m ≤ n) :
    (decimal m).length ≤ (decimal n).length := by
  rw [decimal, decimal, List.length_map, List.length_map, List.length_reverse, List.length_reverse,
    Foundation.Words.digits, Foundation.Words.digits]
  split
  · split
    · exact Nat.le_refl _
    next hn => exact List.length_pos_of_ne_nil (Nat.digits_ne_nil_iff_ne_zero.mpr hn)
  next hm =>
    rw [if_neg (by omega)]
    exact Nat.le_length_digits_le 10 m n hle

theorem overwrite_front (file text : Octets) :
    overwrite 0 file 0 text = text ++ file.drop text.length := by
  rw [overwrite_eq text (Nat.zero_le _), List.take_zero, List.nil_append, Nat.zero_add]

theorem marked_overwrite (text : Octets) {rest : Octets} {n place : Nat}
    (htext : text.length ≤ (decimal place).length)
    (hwide : 20 ≤ text.length + n) (hplace : place < 2 ^ 63)
    (hrest : 62 ≤ text.length + n ∨ rest = [] ∨ rest.head? = some LF) :
    Marked (overwrite 0 (text ++ List.replicate n 32 ++ rest) 0 (decimal place)) place := by
  have hdigits : (decimal place).length ≤ 19 := History.decimal_length_le (by omega)
  have hlength : (decimal place).length + (text.length + n - (decimal place).length) =
      text.length + n := by omega
  refine ⟨text.length + n - (decimal place).length, rest, ?_,
    by rw [hlength]; exact hwide, by rw [hlength]; exact hrest⟩
  rw [overwrite_front, List.append_assoc, List.drop_append, List.drop_of_length_le htext,
    List.nil_append,
    List.drop_append, List.drop_replicate, List.length_replicate, List.append_assoc,
    show (decimal place).length - text.length - n = 0 by omega, List.drop_zero,
    show n - ((decimal place).length - text.length) =
        text.length + n - (decimal place).length by omega]

theorem Marked.overwrite {file : Octets} {mark place : Nat} (hmarked : Marked file mark)
    (hle : mark ≤ place)
    (hplace : place < 2 ^ 63) : Marked (overwrite 0 file 0 (decimal place)) place := by
  obtain ⟨n, rest, rfl, hwide, hrest⟩ := hmarked
  exact marked_overwrite _ (decimal_length_mono hle) hwide hplace hrest

theorem marked_blanks {file : Octets} {currloc place : Nat} (hcurrloc : BITS64 < currloc)
    (hLF : file[currloc]? = some LF) (hplace : place < 2 ^ 63) :
    Marked (overwrite 0 (overwrite 0 file 0 (List.replicate currloc 32)) 0
      (decimal place)) place := by
  rw [overwrite_front file, List.length_replicate]
  refine marked_overwrite [] (Nat.zero_le _) ?_ hplace (.inr (.inr ?_))
  · rw [List.length_nil, BITS64] at *
    omega
  · rw [List.head?_drop]
    exact hLF

theorem length_overwrite_front {file text : Octets} (htext : text.length ≤ file.length) :
    (overwrite 0 file 0 text).length = file.length := by
  rw [overwrite_front, List.length_append, List.length_drop]
  omega

theorem getElem?_overwrite_front {file text : Octets} {i : Nat} (hi : text.length ≤ i) :
    (overwrite 0 file 0 text)[i]? = file[i]? := by
  rw [overwrite_front, List.getElem?_append_right hi, List.getElem?_drop, Nat.add_sub_cancel' hi]

end Inn.Innfeed
