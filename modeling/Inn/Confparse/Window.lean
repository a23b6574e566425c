import Inn.Confparse.Text
import Inn.Foundation.Careful

/-!
# What the lexer has before it

The buffer and what is left of the file are one text to the lexer, with a window into it. Whitespace
and comments are passed alike over both, wherever the window ends.
-/

namespace Inn.Confparse

open Foundation.Careful

/-- The buffer holds the octets of the window behind the current place. -/
structure Window (r : Reader) (window : Octets) : Prop where
  buffer : ∃ before, r.buffer = before ++ (window.map some ++ [some 0]) ∧
    r.current = some before.length
  plain : 0 ∉ window
  size : r.buffer.length ≤ r.bufsize
  room : 2 ≤ r.bufsize
  grows : 0 < r.BUFSIZ

namespace Window

variable {r : Reader} {window : Octets}

theorem drop_place (h : Window r window) : r.buffer.drop r.place = window.map some ++ [some 0] := by
  obtain ⟨before, hbuffer, hcurrent⟩ := h.buffer
  rw [Reader.place, hcurrent, hbuffer, Option.getD_some, List.drop_left]

theorem length_eq (h : Window r window) : r.buffer.length = r.place + window.length + 1 := by
  obtain ⟨before, hbuffer, hcurrent⟩ := h.buffer
  rw [Reader.place, hcurrent, hbuffer]
  simp
  omega

theorem look_eq (h : Window r window) {i : Nat} (hi : i ≤ window.length) :
    r.look i = .ok (window.getD i 0) := by
  rw [Reader.look, ← List.getElem?_drop, h.drop_place]
  obtain hi | rfl := Nat.lt_or_eq_of_le hi
  · rw [List.getElem?_append_left (by simpa using hi), List.getElem?_map,
      List.getD_eq_getElem?_getD,
      List.getElem?_eq_getElem hi]
    rfl
  · rw [List.getElem?_append_right (by simp), List.getD_eq_getElem?_getD,
      List.getElem?_eq_none (Nat.le_refl _)]
    simp

theorem advance (h : Window r window) {n : Nat} (hn : n ≤ window.length) :
    Window (r.advance n) (window.drop n) := by
  obtain ⟨before, hbuffer, hcurrent⟩ := h.buffer
  refine ⟨⟨before ++ (window.take n).map some, ?_, ?_⟩,
    fun hmem => h.plain (List.mem_of_mem_drop hmem), h.size, h.room, h.grows⟩
  · rw [Reader.advance, hbuffer, List.append_assoc, ← List.append_assoc (List.map _ _),
      ← List.map_append, List.take_append_drop]
  · rw [Reader.advance, Reader.place, hcurrent, List.length_append, List.length_map,
      List.length_take_of_le hn]
    rfl

end Window

theorem scan_eq {pass : UInt8 → Bool} (hpass : pass 0 = false) (window : Octets) :
    Reader.scan pass (window.map some ++ [some 0]) =
      .ok ((window.takeWhile pass).length, (window.dropWhile pass).headD 0) := by
  induction window with
  | nil => rw [List.map_nil, List.nil_append, Reader.scan, hpass]; rfl
  | cons c window ih =>
    rw [List.map_cons, List.cons_append, Reader.scan]
    cases hc : pass c with
    | false => rw [List.takeWhile_cons_of_neg (by simp [hc]),
        List.dropWhile_cons_of_neg (by simp [hc])]; rfl
    | true =>
      rw [if_pos rfl, ih, List.takeWhile_cons_of_pos hc, List.dropWhile_cons_of_pos hc]
      rfl

theorem read_data (r : Reader) (amount : Nat) :
    (r.read amount).1 ++ (r.read amount).2.data = r.data ∧ (r.read amount).1.length ≤ amount ∧
      (0 < amount → r.data ≠ [] → (r.read amount).1 ≠ []) := by
  rw [Reader.read]
  refine ⟨List.take_append_drop _ _, ?_, fun hamount hdata hempty => ?_⟩
  · dsimp only
    rw [List.length_take]
    split <;> omega
  · obtain hzero | hnil := List.take_eq_nil_iff.mp hempty
    · split at hzero <;> omega
    · exact hdata hnil

theorem read_eq (r : Reader) (amount : Nat) :
    (r.read amount).2 = { r with data := (r.read amount).2.data, reads := r.reads.tail } := rfl

def Reader.Settled (r : Reader) : Prop := r.data = [] ∧ ¬r.Full

def ConfigFile.over {ρ σ : Type} (f : ConfigFile ρ) (reader : σ) : ConfigFile σ :=
  ⟨reader, f.filename, f.line, f.error, f.type, f.string⟩

/-- The window and what is not read yet are the text. -/
def Ahead (whole : Prop) (r : Reader) (text : Octets) : Prop :=
  ∃ window, Window r window ∧ text = window ++ r.data ∧ (whole → r.Settled)

def AtEnd (f next : ConfigFile Reader) : Prop := next.type = .EOF ∧ next.error = f.error

def Skipped (whole : Prop) (f : ConfigFile Reader) (result : Bool × ConfigFile Reader)
    (text : Octets) : Prop :=
  (text = [] ∧ result.1 = false ∧ AtEnd f result.2) ∨
    text ≠ [] ∧ result.1 = true ∧ ∃ reader, result.2 = { f with reader := reader } ∧
      ∃ window, window ≠ [] ∧
      Window reader window ∧ text = window ++ reader.data ∧ (whole → reader.Settled)

section Skipping

variable {whole : Prop} {f : ConfigFile Reader} {text window : Octets}

theorem fileRead_reads (hroom : 2 ≤ f.reader.bufsize) (hgrows : 0 < f.reader.BUFSIZ)
    (hnul : 0 ∈ (f.reader.read (f.reader.bufsize - 1)).1 → f.reader.current.isSome ∧ ¬whole)
    (hwhole : f.reader.data ≠ [] → whole →
      (f.reader.read (f.reader.bufsize - 1)).2.data = [] ∧
        (f.reader.read (f.reader.bufsize - 1)).1.length + 1 < f.reader.bufsize) :
    Agrees .slip whole (fun careful => fileRead careful f) (.ok f.reader.data)
      (Skipped whole f) := by
  obtain ⟨hdata, hlength, hnonempty⟩ := read_data f.reader (f.reader.bufsize - 1)
  by_cases hend : f.reader.data = []
  · have hgot := (List.append_eq_nil_iff.mp (hdata.trans hend)).1
    let next := (f.reader.read (f.reader.bufsize - 1)).2
    refine .ok (a := (false, { f with reader := next, type := .EOF })) (fun careful => ?_)
      (.inl ⟨hend, rfl, rfl, rfl⟩)
    rw [fileRead]
    exact if_pos hgot
  have hgot := hnonempty (by omega) hend
  by_cases hplain : 0 ∈ (f.reader.read (f.reader.bufsize - 1)).1
  · refine .inl ⟨?_, fun h => absurd h (hnul hplain).2⟩
    dsimp only [fileRead]
    rw [if_neg hgot, if_pos ⟨rfl, (hnul hplain).1, hplain⟩]
  let reader : Reader := { (f.reader.read (f.reader.bufsize - 1)).2 with
    buffer := (f.reader.read (f.reader.bufsize - 1)).1.map some ++ [some 0], current := some 0 }
  have hbuffer : reader.buffer.length = (f.reader.read (f.reader.bufsize - 1)).1.length + 1 := by
    rw [List.length_append, List.length_map, List.length_singleton]
  have hwindow : Window reader (f.reader.read (f.reader.bufsize - 1)).1 := by
    refine ⟨⟨[], rfl, rfl⟩, hplain, ?_, hroom, hgrows⟩
    rw [hbuffer]
    change _ ≤ f.reader.bufsize
    omega
  have hsettled (hw : whole) : reader.Settled := by
    refine ⟨(hwhole hend hw).1, fun hfull => ?_⟩
    have hlt := (hwhole hend hw).2
    rw [← hbuffer] at hlt
    exact hlt.ne hfull
  refine .ok (a := (true, { f with reader := reader })) (fun careful => ?_)
    (.inr ⟨hend, rfl, reader, rfl, _, hgot, hwindow, hdata.symm, hsettled⟩)
  dsimp only [fileRead]
  rw [if_neg hgot, if_neg fun h => hplain h.2.2]
  simp [hplain, reader]

theorem fileRead_agrees (h : Window f.reader window) (hwhole : whole → f.reader.Settled) :
    Agrees .slip whole (fun careful => fileRead careful f) (.ok f.reader.data)
      (Skipped whole f) := by
  refine fileRead_reads h.room h.grows (fun hnul => ?_) fun hdata hw => absurd (hwhole hw).1 hdata
  obtain ⟨before, -, hcurrent⟩ := h.buffer
  refine ⟨by rw [hcurrent]; rfl, fun hw => ?_⟩
  obtain ⟨hdata, -, -⟩ := read_data f.reader (f.reader.bufsize - 1)
  have hgot := (List.append_eq_nil_iff.mp (hdata.trans (hwhole hw).1)).1
  rw [hgot] at hnul
  cases hnul

theorem dropWhile_append_of_all {pass : UInt8 → Bool} {front : Octets}
    (hall : front.dropWhile pass = []) (back : Octets) :
    (front ++ back).dropWhile pass = back.dropWhile pass := by
  rw [List.dropWhile_append, hall]
  rfl

def Stopped (whole : Prop) (f : ConfigFile Reader)
    (result : Option (Nat × UInt8) × ConfigFile Reader) (text : Octets) : Prop :=
  (text = [] ∧ result.1 = none ∧ AtEnd f result.2) ∨
    ∃ n c rest reader window, result = (some (n, c), { f with reader := reader }) ∧
      Window reader window ∧ n ≤ window.length ∧
      window.drop n = c :: rest ∧ c ≠ 0 ∧ text = c :: rest ++ reader.data ∧ (whole → reader.Settled)

theorem skipWhile_agrees {p : UInt8 → Bool} (hpass : p 0 = false) {bound : Nat}
    (hbound : f.reader.data.length < bound)
    (h : Window f.reader window) (htext : text = window ++ f.reader.data)
    (hwhole : whole → f.reader.Settled) :
    Agrees .slip whole (fun careful => skipWhile careful p bound f) (.ok (text.dropWhile p))
      (Stopped whole f) := by
  induction bound generalizing f window text with
  | zero => exact absurd hbound (Nat.not_lt_zero _)
  | succ bound ih =>
    have hscan : Reader.scan p (f.reader.buffer.drop f.reader.place) =
        .ok ((window.takeWhile p).length, (window.dropWhile p).headD 0) := by
      rw [h.drop_place, scan_eq hpass]
    by_cases hall : window.dropWhile p = []
    · have hhere (careful : Bool) : skipWhile careful p (bound + 1) f = (do
          let read ← fileRead careful f
          if read.1 then skipWhile careful p bound read.2 else .ok (none, read.2)) := by
        rw [skipWhile, hscan, hall]
        rfl
      simp only [hhere]
      rw [htext, dropWhile_append_of_all hall]
      refine (fileRead_agrees h hwhole).bind (k := fun text => .ok (text.dropWhile p)) ?_
      rintro ⟨status, next⟩ data hspec (⟨rfl, rfl, hend'⟩ | ⟨-, rfl, reader, rfl, window', hne,
        hwindow', hdata, hwhole'⟩)
      · exact .ok (fun _ => rfl) (.inl ⟨rfl, rfl, hend'⟩)
      · have hlength := congrArg List.length (hdata ▸ Except.ok.inj hspec)
        rw [List.length_append] at hlength
        have hpos := List.length_pos_of_ne_nil hne
        exact ih (f := { f with reader := reader }) (by dsimp only; omega) hwindow' hdata hwhole'
    · obtain ⟨c, rest, hrest⟩ := List.exists_cons_of_ne_nil hall
      have hc : c ≠ 0 := by
        rintro rfl
        exact h.plain ((List.dropWhile_suffix p).mem (hrest ▸ List.mem_cons_self))
      have hsplit :
          (window ++ f.reader.data).dropWhile p = window.dropWhile p ++ f.reader.data := by
        rw [List.dropWhile_append, if_neg (by simpa using hall)]
      have hdrop : window.drop (window.takeWhile p).length = window.dropWhile p := by
        have hwhole :=
          congrArg (List.drop (window.takeWhile p).length)
          (List.takeWhile_append_dropWhile (p := p) (l := window))
        rwa [List.drop_left, eq_comm] at hwhole
      refine .ok (a := (some ((window.takeWhile p).length, c), f)) (fun careful => ?_)
        (.inr ⟨_, c, rest, f.reader, window, rfl, h, (List.takeWhile_prefix p).length_le,
          hdrop.trans hrest, hc, ?_, hwhole⟩)
      · rw [skipWhile, hscan, hrest]
        exact if_neg hc
      · rw [htext, hsplit, hrest]

end Skipping

section Blanks

variable {whole : Prop} {f : ConfigFile Reader} {g : ConfigFile Text} {text window : Octets}

theorem tokenSkipWhitespace_agrees (h : Window f.reader window)
    (htext : text = window ++ f.reader.data) (hwhole : whole → f.reader.Settled) :
    Agrees .slip whole (fun careful => tokenSkipWhitespace careful f) (.ok (text.dropWhile ISWHITE))
      (Skipped whole f) := by
  have hskip :=
    skipWhile_agrees (p := ISWHITE) (by decide) (Nat.lt_succ_self f.reader.data.length)
    h htext hwhole
  refine hskip.bind (k := Except.ok) ?_
  rintro ⟨stopped, next⟩ t - (⟨rfl, rfl, hend'⟩ | ⟨n, c, rest, reader, window', hresult, hwindow',
    hn, hdrop, -, rfl, hwhole'⟩)
  · exact .ok (fun _ => rfl) (.inl ⟨rfl, rfl, hend'⟩)
  · cases hresult
    exact .ok (fun _ => rfl) (.inr ⟨List.cons_ne_nil _ _, rfl, _, rfl, c :: rest,
      List.cons_ne_nil _ _,
      hdrop ▸ hwindow'.advance hn, rfl, hwhole'⟩)

def dropLF : Octets → Octets
  | [] => []
  | c :: text => if c = LF then text else c :: text

def LineEnded (whole : Prop) (f : ConfigFile Reader) (result : Bool × ConfigFile Reader)
    (text : Octets) : Prop :=
  (text = [] ∧ result.1 = false ∧ AtEnd f result.2) ∨
    text ≠ [] ∧ result.1 = true ∧
      ∃ reader, result.2 = { f with reader := reader, line := f.line + 1 } ∧
      Ahead whole reader (dropLF text)

def Commented (whole : Prop) (f : ConfigFile Reader) (result : Bool × ConfigFile Reader)
    (text : Octets) : Prop :=
  (text = [] ∧ result.1 = false ∧ AtEnd f result.2) ∨
    ∃ c rest, text = c :: rest ∧ c ≠ 0 ∧
      ((c = LF ∧ result.1 = true ∧ ∃ reader,
        result.2 = { f with reader := reader, line := f.line + 1 } ∧ Ahead whole reader rest) ∨
        c ≠ LF ∧ LineEnded whole f result rest)

theorem Window.ahead {r : Reader} (h : Window r window) (hwhole : whole → r.Settled) {n : Nat}
    (hn : n ≤ window.length) :
    Ahead whole (r.advance n) (window.drop n ++ r.data) := ⟨_, h.advance hn, rfl, hwhole⟩

theorem endCR_agrees (h : Window f.reader window) (hwhole : whole → f.reader.Settled) {n : Nat}
    (hn : n ≤ window.length) (htext : text = window.drop n ++ f.reader.data) :
    Agrees .slip whole (fun careful => endCR careful f n) (.ok text) (LineEnded whole f) := by
  have hlook := h.look_eq hn
  cases hdrop : window.drop n with
  | nil =>
    have hlast : window.getD n 0 = 0 := by
      rw [List.getD_eq_getElem?_getD, List.getElem?_eq_none (List.drop_eq_nil_iff.mp hdrop)]
      rfl
    have hhere (careful : Bool) : endCR careful f n = (do
        let read ← fileRead careful f
        if read.1 then
          let e ← read.2.reader.look 0
          .ok (true, read.2.nextLine (if e = LF then 1 else 0))
        else .ok (false, read.2)) := by
      rw [endCR, hlook, hlast]
      rfl
    simp only [hhere]
    rw [htext, hdrop, List.nil_append]
    refine (fileRead_agrees h hwhole).bind (k := Except.ok) ?_
    rintro ⟨status, next⟩ data -
      (⟨rfl, rfl, hend'⟩ | ⟨hne, rfl, reader, rfl, window', hwindow, hwindow', rfl, hwhole'⟩)
    · exact .ok (fun _ => rfl) (.inl ⟨rfl, rfl, hend'⟩)
    · obtain ⟨e, more, rfl⟩ := List.exists_cons_of_ne_nil hwindow
      refine .ok (a := (true,
        ConfigFile.nextLine { f with reader := reader } (if e = LF then 1 else 0)))
        (fun careful => by dsimp only; rw [hwindow'.look_eq (Nat.zero_le _)]; rfl)
          (.inr ⟨hne, rfl, _, rfl, ?_⟩)
      rw [List.cons_append, dropLF]
      split
      · exact hwindow'.ahead hwhole' (n := 1) (Nat.succ_le_succ (Nat.zero_le _))
      · exact hwindow'.ahead hwhole' (Nat.zero_le _)
  | cons d rest =>
    have hlength := congrArg List.length hdrop
    rw [List.length_drop, List.length_cons] at hlength
    have hd : window.getD n 0 = d := by
      have hfirst := congrArg List.head? hdrop
      rw [List.head?_drop, List.head?_cons] at hfirst
      rw [List.getD_eq_getElem?_getD, hfirst, Option.getD_some]
    have hne : d ≠ 0 := by
      rintro rfl
      exact h.plain (List.mem_of_mem_drop (hdrop ▸ List.mem_cons_self))
    rw [htext, hdrop, List.cons_append]
    refine .ok (a := (true, f.nextLine (if d = LF then n + 1 else n))) (fun careful => ?_)
      (.inr ⟨List.cons_ne_nil _ _, rfl, _, rfl, ?_⟩)
    · rw [endCR, hlook, hd]
      simp only [bind, Except.bind, if_pos hne]
      split <;> rfl
    · rw [dropLF]
      split
      · have hmore := h.ahead hwhole (n := n + 1) (by omega)
        rwa [← List.drop_drop, hdrop, List.drop_one, List.tail_cons] at hmore
      · have hmore := h.ahead hwhole hn
        rwa [hdrop] at hmore

theorem tokenSkipComment_agrees (h : Window f.reader window)
    (htext : text = window ++ f.reader.data) (hwhole : whole → f.reader.Settled) :
    Agrees .slip whole (fun careful => tokenSkipComment careful f) (.ok (text.dropWhile inLine))
      (Commented whole f) := by
  have hskip :=
    skipWhile_agrees (p := inLine) (by decide) (Nat.lt_succ_self f.reader.data.length)
    h htext hwhole
  refine hskip.bind (k := Except.ok) ?_
  rintro ⟨stopped, next⟩ t - (⟨rfl, rfl, hend'⟩ | ⟨n, c, rest, reader, window', hresult, hwindow',
    hn, hdrop, hne, rfl, hwhole'⟩)
  · exact .ok (fun _ => rfl) (.inl ⟨rfl, rfl, hend'⟩)
  cases hresult
  have hlength := congrArg List.length hdrop
  rw [List.length_drop, List.length_cons] at hlength
  have hnext : window'.drop (n + 1) = rest := by
    rw [← List.drop_drop, hdrop, List.drop_one, List.tail_cons]
  by_cases hc : c = LF
  · refine .ok (a := (true, ConfigFile.nextLine { f with reader := reader } (n + 1)))
      (fun careful => if_pos hc)
      (.inr ⟨c, rest ++ reader.data, rfl, hne, .inl ⟨hc, rfl, _, rfl, ?_⟩⟩)
    have hmore := hwindow'.ahead hwhole' (n := n + 1) (by omega)
    rwa [hnext] at hmore
  · have hend :=
      endCR_agrees (f := { f with reader := reader }) hwindow' hwhole' (n := n + 1) (by omega) rfl
    rw [hnext] at hend
    simp only [if_neg hc, List.cons_append]
    exact hend.change fun result hended =>
      .inr ⟨c, rest ++ reader.data, rfl, hne, .inr ⟨hc, hended⟩⟩

def Related (whole : Prop) (f : ConfigFile Reader) (g : ConfigFile Text) : Prop :=
  (f.type = .ERROR ∧ g.type = .ERROR) ∨ (f.type = .EOF ∧ g.type = .EOF ∧ g.error = f.error) ∨
    ∃ text, g = f.over ⟨text, true⟩ ∧ Ahead whole f.reader text

def afterWhite (g : ConfigFile Text) (line : Nat) : Octets → ConfigFile Text
  | [] => g.ended .EOF
  | c :: text =>
    if c = 35 then Text.newlines g .comment text line
    else if c = 0 then g.ended .ERROR
    else { g with line }.found .CRLF [] (c :: text)

theorem newlines_white (g : ConfigFile Text) (text : Octets) (line : Nat) :
    Text.newlines g .white text line = afterWhite g line (text.dropWhile ISWHITE) := by
  induction text with
  | nil => rfl
  | cons c text ih =>
    rw [Text.newlines, Text.blanks, if_neg (by decide), if_neg (by simp)]
    cases hc : ISWHITE c with
    | true =>
      rw [if_pos rfl, List.dropWhile_cons_of_pos hc, ← ih]
      rfl
    | false =>
      rw [if_neg (by simp), List.dropWhile_cons_of_neg (by simp [hc]), afterWhite]
      by_cases hcomment : c = 35
      · rw [if_pos hcomment, if_pos hcomment]
        rfl
      · rw [if_neg hcomment, if_neg hcomment]
        by_cases hnul : c = 0
        · rw [if_pos hnul, if_pos hnul]
        · rw [if_neg hnul, if_neg hnul]

theorem newlines_cr (g : ConfigFile Text) (text : Octets) (line : Nat) :
    Text.newlines g .cr text line = Text.newlines g .white (dropLF text) line := by
  cases text with
  | nil => rfl
  | cons c text =>
    rw [dropLF]
    by_cases hc : c = LF
    · rw [if_pos hc, Text.newlines, Text.blanks, if_neg (by decide), if_pos ⟨rfl, hc⟩]
      rfl
    · rw [if_neg hc, Text.newlines, Text.newlines, Text.blanks, Text.blanks]
      simp [hc]

def afterComment (g : ConfigFile Text) (line : Nat) : Octets → ConfigFile Text
  | [] => g.ended .EOF
  | c :: text => if c = 0 then g.ended .ERROR else Text.newlines g (if c = LF then .white else .cr)
      text (line + 1)

theorem newlines_comment (g : ConfigFile Text) {text : Octets} (line : Nat) :
    Text.newlines g .comment text line = afterComment g line (text.dropWhile inLine) := by
  induction text with
  | nil => rfl
  | cons c text ih =>
    rw [Text.newlines, Text.blanks, if_pos rfl]
    cases hc : inLine c with
    | true =>
      rw [if_pos rfl, List.dropWhile_cons_of_pos hc, ← ih]
      rfl
    | false =>
      rw [if_neg (by simp), List.dropWhile_cons_of_neg (by simp [hc]), afterComment]
      by_cases hnul : c = 0
      · rw [if_pos hnul, if_pos hnul]
      · rw [if_neg hnul, if_neg hnul]
        rfl

theorem dropLF_length (text : Octets) : (dropLF text).length ≤ text.length := by
  cases text with
  | nil => exact Nat.le_refl _
  | cons c text =>
    rw [dropLF]
    split
    · exact Nat.le_succ _
    · exact Nat.le_refl _

theorem skipComments_agrees {bound : Nat} (hbound : text.length < bound)
    (h : Ahead whole f.reader text)
    (hfilename : g.filename = f.filename) (herror : g.error = f.error) :
    Agrees .slip whole (fun careful => skipComments careful bound f)
      (.ok (Text.newlines g .white text f.line))
      (Related whole) := by
  induction bound generalizing f text with
  | zero => exact absurd hbound (Nat.not_lt_zero _)
  | succ bound ih =>
    obtain ⟨window, hwindow, htext, hwhole⟩ := h
    rw [newlines_white]
    refine (tokenSkipWhitespace_agrees hwindow htext hwhole).bind
      (k := fun text => .ok (afterWhite g f.line text)) ?_
    rintro ⟨status, next⟩ t ht (⟨rfl, rfl, hend'⟩ | ⟨-, rfl, reader, rfl, window', hne, hwindow',
      hsplit, hwhole'⟩)
    · exact .ok (fun _ => rfl) (.inr (.inl ⟨hend'.1, rfl, herror.trans hend'.2.symm⟩))
    obtain ⟨c, rest, rfl⟩ := List.exists_cons_of_ne_nil hne
    have hlook : reader.look 0 = .ok c := hwindow'.look_eq (Nat.zero_le _)
    have hc : c ≠ 0 := fun hc => hwindow'.plain (hc ▸ List.mem_cons_self)
    rw [List.cons_append] at hsplit
    subst hsplit
    by_cases hcomment : c = 35
    · have hsuffix := (List.dropWhile_suffix inLine (l := rest ++ reader.data)).length_le
      have hshort := (List.dropWhile_suffix ISWHITE (l := text)).length_le
      rw [Except.ok.inj ht, List.length_cons] at hshort
      have hskip := tokenSkipComment_agrees (f := { f with reader := reader }) hwindow' rfl hwhole'
      rw [List.cons_append, List.dropWhile_cons_of_pos (hcomment ▸ rfl)] at hskip
      have hhere (careful : Bool) : (do
          let c ← reader.look 0
          if c = 35 then
            let read ← tokenSkipComment careful { f with reader := reader }
            if read.1 then skipComments careful bound read.2 else .ok read.2
          else .ok { f with reader := reader, type := .CRLF, string := [] }) = (do
            let read ← tokenSkipComment careful { f with reader := reader }
            if read.1 then skipComments careful bound read.2 else .ok read.2) := by
        rw [hlook]
        exact if_pos hcomment
      simp only [if_true, hhere, afterWhite, if_pos hcomment]
      rw [newlines_comment]
      refine hskip.bind (k := fun text => .ok (afterComment g f.line text)) ?_
      rintro ⟨status, next⟩ t ht'
        (⟨rfl, rfl, hend'⟩ | ⟨d, more, rfl, hd, ⟨rfl, rfl, reader', rfl, hahead⟩ |
        ⟨hcr, ⟨rfl, rfl, hend'⟩ | ⟨hmore, rfl, reader', rfl, hahead⟩⟩⟩)
      · exact .ok (fun _ => rfl) (.inr (.inl ⟨hend'.1, rfl, herror.trans hend'.2.symm⟩))
      · rw [Except.ok.inj ht', List.length_cons] at hsuffix
        dsimp only
        rw [afterComment, if_neg hd, if_pos rfl]
        exact ih (f := { f with reader := reader', line := f.line + 1 })
          (by omega) hahead hfilename herror
      · dsimp only
        rw [afterComment, if_neg hd, if_neg hcr]
        exact .ok (fun _ => rfl) (.inr (.inl ⟨hend'.1, rfl, herror.trans hend'.2.symm⟩))
      · rw [Except.ok.inj ht', List.length_cons] at hsuffix
        have hdropped := dropLF_length more
        dsimp only
        rw [afterComment, if_neg hd, if_neg hcr, newlines_cr]
        exact ih (f := { f with reader := reader', line := f.line + 1 })
          (by omega) hahead hfilename herror
    · refine .ok (a := { f with reader := reader, type := .CRLF, string := [] }) (fun careful => ?_)
        (.inr (.inr ⟨c :: (rest ++ reader.data), ?_, _, hwindow', rfl, hwhole'⟩))
      · simp [hlook, bind, Except.bind, hcomment]
      · simp [afterWhite, hcomment, hc, ConfigFile.found, ConfigFile.over, hfilename, herror]

theorem Ahead.length_lt {r : Reader} (h : Ahead whole r text) :
    text.length < r.buffer.length + r.data.length + 1 := by
  obtain ⟨window, hwindow, rfl, -⟩ := h
  rw [hwindow.length_eq, List.length_append]
  omega

theorem newlines_agrees (h : Ahead whole f.reader text) (hfilename : g.filename = f.filename)
    (herror : g.error = f.error) :
    Agrees .slip whole (fun careful => newlines careful f)
      (.ok (Text.newlines g .white text f.line)) (Related whole) :=
  skipComments_agrees h.length_lt h hfilename herror

theorem tokenNewline_agrees {c : UInt8} {rest : Octets} (h : Window f.reader (c :: rest))
    (hwhole : whole → f.reader.Settled)
    (hc : c = CR ∨ c = LF) (hfilename : g.filename = f.filename) (herror : g.error = f.error) :
    Agrees .slip whole (fun careful => tokenNewline careful f)
      (.ok (Text.newlines g (if c = LF then .white else .cr) (rest ++ f.reader.data) (f.line + 1)))
        (Related whole) := by
  have hlook : f.reader.look 0 = .ok c := h.look_eq (Nat.zero_le _)
  by_cases hlf : c = LF
  · have hhere (careful : Bool) : tokenNewline careful f = newlines careful (f.nextLine 1) := by
      rw [tokenNewline, hlook]
      exact if_pos hlf
    simp only [hhere, if_pos hlf]
    have hahead := h.ahead hwhole (n := 1) (Nat.succ_le_succ (Nat.zero_le _))
    exact newlines_agrees (f := f.nextLine 1) hahead hfilename herror
  · have hcr := hc.resolve_right hlf
    have hhere (careful : Bool) : tokenNewline careful f = (do
        let read ← endCR careful f 1
        if read.1 then newlines careful read.2
          else .ok { read.2 with reader := read.2.reader.advance 1 }) := by
      rw [tokenNewline, hlook]
      exact (if_neg hlf).trans (if_pos hcr)
    simp only [hhere, if_neg hlf, newlines_cr]
    refine (endCR_agrees h hwhole (n := 1) (Nat.succ_le_succ (Nat.zero_le _)) rfl).bind
      (k := fun text => .ok (Text.newlines g .white (dropLF text) (f.line + 1))) ?_
    rintro ⟨status, next⟩ text - (⟨rfl, rfl, hend'⟩ | ⟨-, rfl, reader, rfl, hahead⟩)
    · exact .ok (fun _ => rfl) (.inr (.inl ⟨hend'.1, rfl, herror.trans hend'.2.symm⟩))
    · exact newlines_agrees (f := { f with reader := reader, line := f.line + 1 }) hahead
        hfilename herror

theorem tokenNewline_comment {rest : Octets} (h : Window f.reader (35 :: rest))
    (hwhole : whole → f.reader.Settled)
    (hfilename : g.filename = f.filename) (herror : g.error = f.error) :
    Agrees .slip whole (fun careful => tokenNewline careful f)
      (.ok (Text.newlines g .comment (rest ++ f.reader.data) f.line)) (Related whole) := by
  have hlook : f.reader.look 0 = .ok 35 := h.look_eq (Nat.zero_le _)
  have hhere (careful : Bool) : tokenNewline careful f = newlines careful f := by
    rw [tokenNewline, hlook]
    rfl
  simp only [hhere]
  have hahead : Ahead whole f.reader (35 :: (rest ++ f.reader.data)) := ⟨_, h, rfl, hwhole⟩
  exact newlines_agrees hahead hfilename herror

end Blanks

end Inn.Confparse
