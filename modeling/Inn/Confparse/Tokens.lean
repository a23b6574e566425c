import Inn.Confparse.Window

/-!
# Tokens across the end of the buffer

A string may go beyond the end of the buffer, so that more of the file is read behind it. The token
is that of the text, unless the octets end up in the wrong place.
-/

namespace Inn.Confparse

open Foundation.Careful
open List (length_append length_map append_nil)

section Strings

variable {whole : Prop} {f : ConfigFile Reader} {g : ConfigFile Text} {r : Reader}
    {text window data : Octets}

theorem moved_data (r : Reader) (offset : Nat) : (r.moved offset).data = r.data := by
  rw [Reader.moved]
  split <;> rfl

theorem moved_window (h : Window r window) (hroom : ¬r.Full ∨ r.place = 0) :
    Window (r.moved r.place) window ∧ ¬(r.moved r.place).Full := by
  have hlength := h.length_eq
  have hdrop := h.drop_place
  have hsize := h.size
  have hgrows := h.grows
  rw [Reader.moved]
  split
  next hpos =>
    have hfull := hroom.resolve_right hpos.ne'
    rw [Reader.Full] at hfull
    have htake : (window.map some ++ [some 0]).take (r.bufsize - r.place - 1) =
        window.map some ++ [some 0] :=
      List.take_of_length_le (by rw [length_append, length_map, List.length_singleton]; omega)
    rw [hdrop, htake, Nat.sub_self]
    have hshort : (window.map some ++ [some (0 : UInt8)]).length < r.bufsize := by
      rw [length_append, length_map, List.length_singleton]
      omega
    exact ⟨⟨⟨[], rfl, rfl⟩, h.plain, hshort.le, h.room, h.grows⟩, hshort.ne⟩
  next hzero =>
    obtain hzero := Nat.eq_zero_of_not_pos hzero
    rw [hzero, List.drop_zero] at hdrop
    refine ⟨⟨⟨[], hdrop, rfl⟩, h.plain, Nat.le_add_right_of_le hsize, Nat.le_add_right_of_le h.room,
      h.grows⟩, fun hfull => ?_⟩
    rw [Reader.Full] at hfull
    dsimp only at hfull
    omega

theorem moved_full (h : Window r window) (hfull : r.Full) :
    (r.moved r.place).buffer.take (r.bufsize - r.place - 1) = window.map some ∧
      r.bufsize - r.place - 1 ≤ (r.moved r.place).buffer.length ∧
        (r.moved r.place).current = some 0 ∧
      r.bufsize - r.place - 1 = window.length ∧ r.bufsize ≤ (r.moved r.place).bufsize ∧
      window.length + (if 0 < r.place then r.place else r.BUFSIZ) < (r.moved r.place).bufsize ∧
      0 < (if 0 < r.place then r.place else r.BUFSIZ) ∧ (r.moved r.place).BUFSIZ = r.BUFSIZ := by
  have hlength := h.length_eq
  have hdrop := h.drop_place
  have hgrows := h.grows
  rw [Reader.Full] at hfull
  have hstart : r.bufsize - r.place - 1 = window.length := by omega
  have htake : (window.map some ++ [some (0 : UInt8)]).take window.length = window.map some :=
    List.take_left' (length_map _)
  rw [Reader.moved, hstart]
  split
  next hpos =>
    dsimp only
    rw [hdrop, htake, Nat.sub_self]
    refine ⟨List.take_of_length_le (length_map _).le, (length_map _).ge, rfl, rfl, Nat.le_refl _,
      by omega, hpos, rfl⟩
  next hzero =>
    obtain hzero := Nat.eq_zero_of_not_pos hzero
    rw [hzero, List.drop_zero] at hdrop
    dsimp only
    rw [hdrop]
    refine ⟨htake, ?_, rfl, rfl, Nat.le_add_right _ _, by omega, hgrows, rfl⟩
    rw [length_append, length_map]
    exact Nat.le_add_right _ _

theorem fileReadMore_end (hend : r.data = []) :
    ∃ reads, r.fileReadMore r.place = (false, { r.moved r.place with data := [], reads }) := by
  have hdata := read_data (r.moved r.place) (if 0 < r.place then r.place else r.BUFSIZ)
  have hgot := List.append_eq_nil_iff.mp (hdata.1.trans ((moved_data _ _).trans hend))
  refine ⟨(r.moved r.place).reads.tail, ?_⟩
  rw [Reader.fileReadMore]
  dsimp only
  rw [if_pos hgot.1, read_eq, hgot.2]

theorem fileReadMore_grows (h : Window r window) (hfull : r.Full) (hdata : r.data ≠ [])
    (hstatus : (r.fileReadMore r.place).1 = true) :
    ∃ more reader, r.fileReadMore r.place = (true, reader) ∧ more ≠ [] ∧
      Window reader (window ++ more) ∧
      r.data = more ++ reader.data := by
  obtain ⟨htake, hlong, hcurrent, hstart, hbufsize, hroom, hamount, hBUFSIZ⟩ := moved_full h hfull
  obtain ⟨hsplit, hlength, hnonempty⟩ :=
    read_data (r.moved r.place) (if 0 < r.place then r.place else r.BUFSIZ)
  have hgot := hnonempty hamount (by rwa [moved_data])
  rw [moved_data] at hsplit
  rw [Reader.fileReadMore] at hstatus ⊢
  dsimp only at hstatus ⊢
  rw [if_neg hgot] at hstatus ⊢
  have hnul := of_decide_eq_true hstatus
  have hbuffer : (r.moved r.place).buffer.take (r.bufsize - r.place - 1) ++
      List.replicate (r.bufsize - r.place - 1 - (r.moved r.place).buffer.length) none =
        window.map some := by
    rw [htake, Nat.sub_eq_zero_of_le hlong]
    exact append_nil _
  have hnew :=
    congrArg (· ++ (((r.moved r.place).read (if 0 < r.place then r.place else r.BUFSIZ)).1.map
      some ++ [some 0])) hbuffer
  refine ⟨_, _, Prod.ext hstatus rfl, hgot,
    ⟨⟨[], ?_, hcurrent⟩, fun hmem => ?_, ?_, h.room.trans hbufsize,
    Nat.lt_of_lt_of_eq h.grows hBUFSIZ.symm⟩, hsplit.symm⟩
  · refine hnew.trans ?_
    rw [List.nil_append, List.map_append, List.append_assoc]
  · obtain hmem | hmem := List.mem_append.mp hmem
    · exact h.plain hmem
    · exact hnul hmem
  · refine (congrArg List.length hnew).le.trans ?_
    rw [length_append, length_append, length_map, length_map, List.length_singleton]
    change _ ≤ (r.moved r.place).bufsize
    omega

theorem drop_window {i : Nat} (hi : i < window.length) (data : Octets) :
    (window ++ data).drop i = window.getD i 0 :: (window ++ data).drop (i + 1) := by
  rw [List.drop_eq_getElem_cons (by rw [length_append]; omega), List.getElem_append_left hi,
    List.getD_eq_getElem?_getD, List.getElem?_eq_getElem hi]
  rfl

theorem Window.getD_ne (h : Window r window) {i : Nat} (hi : i < window.length) :
    window.getD i 0 ≠ 0 := by
  rw [List.getD_eq_getElem?_getD, List.getElem?_eq_getElem hi]
  exact fun hzero => h.plain (hzero ▸ List.getElem_mem hi)

theorem getD_front {i : Nat} (hi : i < window.length) (more : Octets) :
    (window ++ more).getD i 0 = window.getD i 0 := by
  rw [List.getD_eq_getElem?_getD, List.getD_eq_getElem?_getD, List.getElem?_append_left hi]

theorem getD_end (window : Octets) : window.getD window.length 0 = 0 := by
  rw [List.getD_eq_getElem?_getD, List.getElem?_eq_none (Nat.le_refl _)]
  rfl

theorem reduceOption_map_some (text : Octets) : (text.map some).reduceOption = text := by
  rw [List.reduceOption, List.filterMap_map]
  exact List.filterMap_some

theorem token_related (h : Window f.reader window) (htext : text = window ++ f.reader.data)
    (hwhole : whole → f.reader.Settled)
    {i n : Nat} (hi : i ≤ window.length) (hn : n ≤ i) (hfilename : g.filename = f.filename)
    (herror : g.error = f.error) (hline : g.line = f.line) (type : TokenType) :
    Related whole (f.token type i n) (g.found type (text.take n) (text.drop i)) := by
  refine .inr (.inr ⟨text.drop i, ?_, window.drop i, h.advance hi, ?_, hwhole⟩)
  · have hstring : ((f.reader.buffer.drop f.reader.place).take n).reduceOption = text.take n := by
      rw [h.drop_place, List.take_append_of_le_length (by rw [length_map]; omega), ← List.map_take,
        reduceOption_map_some, htext, List.take_append_of_le_length (by omega)]
    rw [ConfigFile.found, ConfigFile.over, ConfigFile.token, hstring, hfilename, herror, hline]
  · rw [htext, List.drop_append_of_le_length hi]
    rfl

theorem tokenString_agrees {bound i : Nat} {colon : Bool}
    (hbound : text.length - i + f.reader.data.length < bound)
    (h : Window f.reader window) (htext : text = window ++ f.reader.data)
    (hwhole : whole → f.reader.Settled)
    (hi : i ≤ window.length) (hfilename : g.filename = f.filename) (herror : g.error = f.error)
    (hline : g.line = f.line) :
    Agrees .slip whole (fun careful => tokenString careful bound i colon f)
      (.ok (Text.stringToken g text colon i))
      (Related whole) := by
  induction bound generalizing f window i colon with
  | zero => exact absurd hbound (Nat.not_lt_zero _)
  | succ bound ih =>
    have hlook := h.look_eq hi
    have hstop : Related whole (f.stringToken i colon)
        (g.found (if colon then .PARAM else .STRING) (text.take (i - if colon then 1 else 0))
          (text.drop i)) :=
      token_related h htext hwhole hi (Nat.sub_le _ _) hfilename herror hline _
    have hlong := congrArg List.length htext
    rw [length_append] at hlong
    obtain hlt | rfl := Nat.lt_or_eq_of_le hi
    · have hc := h.getD_ne hlt
      have hdrop := drop_window hlt f.reader.data
      rw [← htext] at hdrop
      have hnext (colon : Bool) :
          Agrees .slip whole (fun careful => tokenString careful bound (i + 1) colon f)
          (.ok (Text.stringToken g text colon (i + 1))) (Related whole) :=
        ih (by omega) h htext hwhole hlt hfilename herror hline
      rw [Text.stringToken, hdrop, Text.stringEnd]
      generalize window.getD i 0 = c at hlook hc
      by_cases hends : endsString c = true
      · rw [if_pos hends]
        exact .ok (fun careful => by rw [tokenString, hlook]; exact if_pos hends) hstop
      by_cases hbad : badString c = true
      · rw [if_neg hends, if_pos hbad]
        exact .ok (a := f.failed) (fun careful =>
          by rw [tokenString, hlook]; exact (if_neg hends).trans (if_pos hbad))
          (.inl ⟨rfl, rfl⟩)
      by_cases hcolon : c = 58
      · rw [if_neg hends, if_neg hbad, if_pos hcolon]
        have hhere (careful : Bool) : tokenString careful (bound + 1) i colon f =
            if colon then .ok f.failed else tokenString careful bound (i + 1) true f := by
          rw [tokenString, hlook]
          exact ((if_neg hends).trans (if_neg hbad)).trans (if_pos hcolon)
        simp only [hhere]
        cases colon with
        | true => exact .ok (fun _ => rfl) (.inl ⟨rfl, rfl⟩)
        | false => exact hnext true
      · rw [if_neg hends, if_neg hbad, if_neg hcolon, if_neg hc]
        have hhere (careful : Bool) : tokenString careful (bound + 1) i colon f =
            if colon then .ok f.failed else tokenString careful bound (i + 1) colon f := by
          rw [tokenString, hlook]
          exact (((if_neg hends).trans (if_neg hbad)).trans (if_neg hcolon)).trans (if_neg hc)
        simp only [hhere]
        cases colon with
        | true => exact .ok (fun _ => rfl) (.inl ⟨rfl, rfl⟩)
        | false => exact hnext false
    · have hhere (careful : Bool) : tokenString careful (bound + 1) window.length colon f =
          if careful ∧ (f.reader.Misplaces ∨ f.reader.Unended) then .error .slip
          else if (f.reader.fileReadMore f.reader.place).1 then
            tokenString careful bound window.length colon
              { f with reader := (f.reader.fileReadMore f.reader.place).2 }
          else if careful ∧ f.reader.data ≠ [] then .error .slip
          else .ok (ConfigFile.stringToken
            { f with reader := (f.reader.fileReadMore f.reader.place).2 } window.length colon) := by
        rw [tokenString, hlook, getD_end]
        rfl
      by_cases hgoes : f.reader.Misplaces ∨ f.reader.Unended
      · refine .inl ⟨(hhere true).trans (if_pos ⟨rfl, hgoes⟩), fun h => ?_⟩
        obtain ⟨hdata, hfull⟩ := hwhole h
        exact hgoes.elim (fun h => absurd hdata h.1) fun h => absurd h.2.1 hfull
      have hgoes' (careful : Bool) : ¬(careful = true ∧ (f.reader.Misplaces ∨ f.reader.Unended)) :=
        fun h => hgoes h.2
      simp only [hhere, if_neg (hgoes' _)]
      rw [not_or] at hgoes
      by_cases hend : f.reader.data = []
      · obtain ⟨reads, hread⟩ := fileReadMore_end hend
        have hroom : ¬f.reader.Full ∨ f.reader.place = 0 := by
          by_contra hnone
          rw [not_or, not_not] at hnone
          exact hgoes.2 ⟨hend, hnone.1, Nat.pos_of_ne_zero hnone.2⟩
        obtain ⟨hmoved, hroom'⟩ := moved_window h hroom
        rw [hend, append_nil] at htext
        have hdone : Text.stringToken g text colon window.length =
            g.found (if colon then .PARAM else .STRING)
            (text.take (window.length - if colon then 1 else 0)) (text.drop window.length) := by
          have hlast : Text.stringEnd colon (text.drop window.length) window.length =
              some (window.length, colon) := by
            rw [htext, List.drop_length]
            rfl
          rw [Text.stringToken, hlast]
        have hsettled' (careful : Bool) : ¬(careful = true ∧ f.reader.data ≠ []) :=
          fun h => h.2 hend
        simp only [hread, Bool.false_eq_true, if_false, if_neg (hsettled' _)]
        rw [hdone]
        have hwindow : Window { f.reader.moved f.reader.place with data := [], reads } window :=
          { hmoved with }
        have hsettled : Reader.Settled { f.reader.moved f.reader.place with data := [], reads } :=
          ⟨rfl, hroom'⟩
        exact .ok (fun _ => rfl) (token_related
          (f := { f with reader := { f.reader.moved f.reader.place with data := [], reads } })
          hwindow (htext.trans (append_nil _).symm)
          (fun _ => hsettled) (Nat.le_refl _) (Nat.sub_le _ _) hfilename herror hline _)
      · have hfull : f.reader.Full := by
          by_contra hfull
          exact hgoes.1 ⟨hend, hfull⟩
        cases hstatus : (f.reader.fileReadMore f.reader.place).1 with
        | false =>
          exact .inl ⟨(if_neg Bool.false_ne_true).trans (if_pos ⟨rfl, hend⟩),
            fun h => absurd (hwhole h).1 hend⟩
        | true =>
          obtain ⟨more, reader, hread, hmore, hwindow, hdata⟩ :=
            fileReadMore_grows h hfull hend hstatus
          have hpos := List.length_pos_of_ne_nil hmore
          have hshort := congrArg List.length hdata
          rw [length_append] at hshort
          simp only [hread, if_true]
          refine ih (f := { f with reader := reader }) ?_ hwindow ?_
            (fun h => absurd (hwhole h).1 hend) ?_ hfilename herror hline
          · dsimp only
            omega
          · rw [htext, hdata, List.append_assoc]
          · rw [length_append]
            exact Nat.le_add_right _ _

def Quoting (window : Octets) (i : Nat) (quoted : Text.Quoted) : Prop :=
  (quoted = .plain ∧ window.getD (i - 1) 0 ≠ CR) ∨
    quoted = .cr ∧ window.getD (i - 1) 0 = CR ∧ (i < window.length → window.getD i 0 ≠ LF)

theorem Quoting.of_ne {i : Nat} (h : window.getD (i - 1) 0 ≠ CR) :
    Quoting window i .plain := .inl ⟨rfl, h⟩

theorem Quoting.of_cr {i : Nat} (h : window.getD (i - 1) 0 = CR)
    (hnext : i < window.length → window.getD i 0 ≠ LF) :
    Quoting window i .cr := .inr ⟨rfl, h, hnext⟩

theorem quotedEnd_cons {quoted : Text.Quoted} {c : UInt8} (hc : c ≠ 0)
    (hquoted : quoted = .plain ∨ quoted = .cr ∧ c ≠ LF)
    (text : Octets) (n line : Nat) : Text.quotedEnd quoted (c :: text) n line =
      if c = 34 then .ok (some (n + 1, line))
      else if c = CR ∨ c = LF then .ok none
      else Text.quotedEnd (if c = 92 then .escaped else .plain) text (n + 1) line := by
  obtain rfl | ⟨rfl, hlf⟩ := hquoted
  · rw [Text.quotedEnd, if_neg hc, if_neg (by decide), if_neg (by simp)]
  · rw [Text.quotedEnd, if_neg hc, if_neg (by decide), if_neg fun h => hlf h.2]

theorem quotedEnd_escaped {c : UInt8} (hc : c ≠ 0) (text : Octets) (n line : Nat) :
    Text.quotedEnd .escaped (c :: text) n line =
      if c = LF then Text.quotedEnd .plain text (n + 1) (line + 1)
      else if c = CR then Text.quotedEnd .cr text (n + 1) (line + 1)
      else Text.quotedEnd .plain text (n + 1) line := by
  rw [Text.quotedEnd, if_neg hc, if_pos rfl]

theorem quotedEnd_lf (text : Octets) (n line : Nat) :
    Text.quotedEnd .cr (LF :: text) n line = Text.quotedEnd .plain text (n + 1) line := by
  rw [Text.quotedEnd, if_neg (by decide), if_neg (by decide), if_pos ⟨rfl, rfl⟩]

theorem tokenQuotedString_agrees {bound i : Nat} {quoted : Text.Quoted}
    (hbound : text.length - i + f.reader.data.length < bound)
    (h : Window f.reader window) (htext : text = window ++ f.reader.data)
    (hwhole : whole → f.reader.Settled)
    (hstart : 1 ≤ i) (hi : i ≤ window.length) (hquoting : Quoting window i quoted)
    (hfilename : g.filename = f.filename) (herror : g.error = f.error) :
    Agrees .slip whole (fun careful => tokenQuotedString careful bound i f)
      (Text.quotedToken g text quoted i f.line)
      (Related whole) := by
  induction bound generalizing f window i quoted with
  | zero => exact absurd hbound (Nat.not_lt_zero _)
  | succ bound ih =>
    have hlook := h.look_eq hi
    have hlong := congrArg List.length htext
    rw [length_append] at hlong
    obtain hlt | rfl := Nat.lt_or_eq_of_le hi
    · have hc := h.getD_ne hlt
      have hdrop := drop_window hlt f.reader.data
      rw [← htext] at hdrop
      have hstep : Text.quotedEnd quoted (text.drop i) i f.line =
          if window.getD i 0 = 34 then .ok (some (i + 1, f.line))
          else if window.getD i 0 = CR ∨ window.getD i 0 = LF then .ok none
          else Text.quotedEnd (if window.getD i 0 = 92 then .escaped else .plain)
            (text.drop (i + 1)) (i + 1) f.line := by
        rw [hdrop, quotedEnd_cons hc (hquoting.imp And.left fun h => ⟨h.1, h.2.2 hlt⟩)]
      by_cases hclose : window.getD i 0 = 34
      · rw [Text.quotedToken, hstep, if_pos hclose]
        exact .ok (fun careful => by rw [tokenQuotedString, hlook]; exact if_pos hclose)
          (token_related (g := { g with line := f.line }) h htext hwhole hlt
            (Nat.le_refl _) hfilename herror rfl _)
      by_cases hbroken : window.getD i 0 = CR ∨ window.getD i 0 = LF
      · rw [Text.quotedToken, hstep, if_neg hclose, if_pos hbroken]
        exact .ok (a := f.failed) (fun careful => by
          rw [tokenQuotedString, hlook]; exact (if_neg hclose).trans (if_pos hbroken))
            (.inl ⟨rfl, rfl⟩)
      by_cases hescape : window.getD i 0 = 92
      · have hlook' := h.look_eq (i := i + 1) hlt
        have hhere (careful : Bool) : tokenQuotedString careful (bound + 1) i f =
            if careful ∧ window.getD (i + 1) 0 = 0 then .error .slip
            else if window.getD (i + 1) 0 = LF then tokenQuotedString careful bound (i + 2)
              { f with line := f.line + 1 }
            else if window.getD (i + 1) 0 = CR then (do
              let e ← f.reader.look (i + 2)
              tokenQuotedString careful bound (if e = LF then i + 3 else i + 2)
                { f with line := f.line + 1 })
            else tokenQuotedString careful bound (i + 2) f := by
          rw [tokenQuotedString, hlook]
          refine (((if_neg hclose).trans (if_neg hbroken)).trans (if_pos hescape)).trans ?_
          rw [hlook']
          rfl
        rw [Text.quotedToken, hstep, if_neg hclose, if_neg hbroken, if_pos hescape]
        obtain hlt' | hlast : i + 1 < window.length ∨ i + 1 = window.length := by omega
        · have hd := h.getD_ne hlt'
          have hdrop' := drop_window hlt' f.reader.data
          rw [← htext] at hdrop'
          have hnotslip (careful : Bool) : ¬(careful = true ∧ window.getD (i + 1) 0 = 0) :=
            fun h => hd h.2
          rw [hdrop', quotedEnd_escaped hd]
          simp only [hhere, if_neg (hnotslip _)]
          by_cases hlf : window.getD (i + 1) 0 = LF
          · simp only [if_pos hlf]
            exact ih (f := { f with line := f.line + 1 }) (i := i + 2)
              (by dsimp only; omega) h htext hwhole (by omega) hlt'
              (.of_ne (by rw [Nat.add_sub_cancel (i + 1) 1, hlf]; decide)) hfilename herror
          simp only [if_neg hlf]
          by_cases hcr : window.getD (i + 1) 0 = CR
          · simp only [if_pos hcr, h.look_eq (show i + 2 ≤ window.length from hlt'),
              bind, Except.bind]
            by_cases hlf' : window.getD (i + 2) 0 = LF
            · have hlt'' : i + 2 < window.length := by
                by_contra hbeyond
                rw [show i + 2 = window.length by omega, getD_end] at hlf'
                exact absurd hlf' (by decide)
              have hdrop'' := drop_window hlt'' f.reader.data
              rw [← htext, hlf'] at hdrop''
              simp only [if_pos hlf']
              rw [hdrop'', quotedEnd_lf]
              exact ih (f := { f with line := f.line + 1 }) (i := i + 3)
                (by dsimp only; omega) h htext hwhole (by omega) hlt''
                (.of_ne (by rw [Nat.add_sub_cancel (i + 2) 1, hlf']; decide)) hfilename herror
            · simp only [if_neg hlf']
              exact ih (f := { f with line := f.line + 1 }) (i := i + 2)
                (by dsimp only; omega) h htext hwhole (by omega) hlt'
                (.of_cr hcr fun _ => hlf') hfilename herror
          · simp only [if_neg hcr]
            exact ih (i := i + 2) (by omega) h htext hwhole (by omega) hlt'
              (.of_ne hcr) hfilename herror
        · have hnul : window.getD (i + 1) 0 = 0 := hlast ▸ getD_end window
          refine .inl ⟨(hhere true).trans (if_pos ⟨rfl, hnul⟩), fun h => ?_⟩
          have hnone : text.drop (i + 1) = [] := by
            rw [htext, (hwhole h).1, append_nil, hlast, List.drop_length]
          rw [hnone]
          rfl
      · rw [not_or] at hbroken
        have hnext := ih (i := i + 1) (by omega) h htext hwhole (Nat.le_add_left 1 i) hlt
          (.of_ne hbroken.1) hfilename herror
        rw [Text.quotedToken, hstep, if_neg hclose, if_neg (not_or.mpr hbroken), if_neg hescape]
        have hhere (careful : Bool) : tokenQuotedString careful (bound + 1) i f =
            tokenQuotedString careful bound (i + 1) f := by
          rw [tokenQuotedString, hlook]
          exact (((if_neg hclose).trans (if_neg (not_or.mpr hbroken))).trans
            (if_neg hescape)).trans (if_neg hc)
        simp only [hhere]
        exact hnext
    · have hhere (careful : Bool) : tokenQuotedString careful (bound + 1) window.length f =
          if careful ∧ f.reader.Misplaces then .error .slip
          else if (f.reader.fileReadMore f.reader.place).1 then (do
            let c ← (f.reader.fileReadMore f.reader.place).2.look (window.length - 1)
            if c = CR then
              let d ← (f.reader.fileReadMore f.reader.place).2.look window.length
              tokenQuotedString careful bound (if d = LF then window.length + 1 else window.length)
                { f with reader := (f.reader.fileReadMore f.reader.place).2 }
            else
              tokenQuotedString careful bound window.length
                { f with reader := (f.reader.fileReadMore f.reader.place).2 })
          else if careful ∧ f.reader.data ≠ [] then .error .slip
          else .ok (ConfigFile.failed
            { f with reader := (f.reader.fileReadMore f.reader.place).2 }) := by
        rw [tokenQuotedString, hlook, getD_end]
        rfl
      by_cases hgoes : f.reader.Misplaces
      · exact .inl ⟨(hhere true).trans (if_pos ⟨rfl, hgoes⟩), fun h => absurd (hwhole h).1 hgoes.1⟩
      have hgoes' (careful : Bool) : ¬(careful = true ∧ f.reader.Misplaces) := fun h => hgoes h.2
      simp only [hhere, if_neg (hgoes' _)]
      have hopen : quoted ≠ .escaped := by
        rintro rfl
        exact hquoting.elim (fun h => by cases h.1) fun h => by cases h.1
      by_cases hend : f.reader.data = []
      · obtain ⟨reads, hread⟩ := fileReadMore_end hend
        have hsettled (careful : Bool) : ¬(careful = true ∧ f.reader.data ≠ []) := fun h => h.2 hend
        have hnone : text.drop window.length = [] := by
          rw [htext, hend, append_nil, List.drop_length]
        have hspec :
            Text.quotedToken g text quoted window.length f.line = .ok (g.ended .ERROR) := by
          rw [Text.quotedToken, hnone, Text.quotedEnd, if_neg hopen]
          rfl
        simp only [hread, Bool.false_eq_true, if_false, if_neg (hsettled _)]
        rw [hspec]
        exact .ok (fun _ => rfl) (.inl ⟨rfl, rfl⟩)
      · have hfull : f.reader.Full := by
          by_contra hfull
          exact hgoes ⟨hend, hfull⟩
        cases hstatus : (f.reader.fileReadMore f.reader.place).1 with
        | false =>
          exact .inl ⟨(if_neg Bool.false_ne_true).trans (if_pos ⟨rfl, hend⟩),
            fun h => absurd (hwhole h).1 hend⟩
        | true =>
          obtain ⟨more, reader, hread, hmore, hwindow, hdata⟩ :=
            fileReadMore_grows h hfull hend hstatus
          have hpos := List.length_pos_of_ne_nil hmore
          have hshort := congrArg List.length hdata
          rw [length_append] at hshort
          have hlonger : (window ++ more).length = window.length + more.length := length_append
          have htext' : text = (window ++ more) ++ reader.data := by
            rw [htext, hdata, List.append_assoc]
          have hwhole' : whole → reader.Settled := fun h => absurd (hwhole h).1 hend
          have hfront :
              (window ++ more).getD (window.length - 1) 0 = window.getD (window.length - 1) 0 :=
            getD_front (by omega) more
          have hbefore :
              reader.look (window.length - 1) = .ok (window.getD (window.length - 1) 0) := by
            rw [hwindow.look_eq (by omega), hfront]
          have hafter := hwindow.look_eq (i := window.length) (by omega)
          simp only [hread, if_true, hbefore, hafter, bind, Except.bind]
          obtain ⟨rfl, hplain⟩ | ⟨rfl, hcr, -⟩ := hquoting
          · simp only [if_neg hplain]
            exact ih (f := { f with reader := reader }) (i := window.length)
              (by dsimp only; omega) hwindow htext' hwhole' hstart (by omega)
              (.of_ne (hfront ▸ hplain)) hfilename herror
          simp only [if_pos hcr]
          by_cases hlf : (window ++ more).getD window.length 0 = LF
          · have hdrop :=
              drop_window (show window.length < (window ++ more).length by omega) reader.data
            rw [← htext', hlf] at hdrop
            simp only [if_pos hlf]
            rw [Text.quotedToken, hdrop, quotedEnd_lf]
            exact ih (f := { f with reader := reader }) (i := window.length + 1)
              (by dsimp only; omega) hwindow htext' hwhole'
              (by omega) (by omega) (.of_ne (by rw [Nat.add_sub_cancel, hlf]; decide))
                hfilename herror
          · simp only [if_neg hlf]
            exact ih (f := { f with reader := reader }) (i := window.length)
              (by dsimp only; omega) hwindow htext' hwhole' hstart (by omega)
              (.of_cr (hfront ▸ hcr) fun _ => hlf) hfilename herror

end Strings

section Tokens

variable {whole : Prop} {f : ConfigFile Reader} {g : ConfigFile Text} {text window : Octets}

theorem tokenHere_agrees {c : UInt8} {rest : Octets} (h : Window f.reader (c :: rest))
    (hwhole : whole → f.reader.Settled)
    (hfilename : g.filename = f.filename) (herror : g.error = f.error) (hline : g.line = f.line) :
    Agrees .slip whole (fun careful => tokenHere careful f)
      (Text.tokenHere g c (rest ++ f.reader.data)) (Related whole) := by
  have hlook : f.reader.look 0 = .ok c := h.look_eq (Nat.zero_le _)
  have hlength := h.length_eq
  rw [List.length_cons] at hlength
  rw [Text.tokenHere]
  cases hsimple : simpleType c with
  | some type =>
    refine .ok (a := tokenSimple f type) (fun careful => ?_)
      (.inr (.inr ⟨_, ?_, rest, h.advance (n := 1) (Nat.succ_le_succ (Nat.zero_le _)),
        rfl, hwhole⟩))
    · rw [tokenHere, hlook]
      dsimp only [bind, Except.bind]
      rw [hsimple]
    · rw [ConfigFile.found, ConfigFile.over, tokenSimple, hfilename, herror, hline]
      rfl
  | none =>
    have hhere (careful : Bool) : tokenHere careful f =
        if c = CR ∨ c = LF then tokenNewline careful f
        else if c = 34 then tokenQuotedString careful f.reader.steps 1 f
        else tokenString careful f.reader.steps 0 false f := by
      rw [tokenHere, hlook]
      dsimp only [bind, Except.bind]
      rw [hsimple]
    simp only [hhere]
    by_cases hnewline : c = CR ∨ c = LF
    · simp only [if_pos hnewline]
      rw [hline]
      exact tokenNewline_agrees h hwhole hnewline hfilename herror
    simp only [if_neg hnewline]
    have hbound (i : Nat) :
        (c :: (rest ++ f.reader.data)).length - i + f.reader.data.length < f.reader.steps := by
      rw [List.length_cons, length_append, Reader.steps]
      omega
    by_cases hquote : c = 34
    · simp only [if_pos hquote]
      rw [hline]
      refine tokenQuotedString_agrees (hbound 1) h rfl hwhole (Nat.le_refl _)
        (Nat.succ_le_succ (Nat.zero_le _)) (.inl ⟨rfl, ?_⟩)
        hfilename herror
      rw [hquote]
      exact show (34 : UInt8) ≠ CR by decide
    · simp only [if_neg hquote]
      exact tokenString_agrees (hbound 0) h rfl hwhole (Nat.zero_le _) hfilename herror hline

structure Fresh (whole : Prop) (r : Reader) : Prop where
  current : r.current = none
  room : 2 ≤ r.bufsize
  grows : 0 < r.BUFSIZ
  plain : 0 ∉ (r.read (r.bufsize - 1)).1
  whole : whole → (r.read (r.bufsize - 1)).2.data = [] ∧
    (r.read (r.bufsize - 1)).1.length + 1 < r.bufsize

theorem fileRead_fresh (h : Fresh whole f.reader) :
    Agrees .slip whole (fun careful => fileRead careful f) (.ok f.reader.data)
      (Skipped whole f) :=
  fileRead_reads h.room h.grows (fun hnul => absurd hnul h.plain) fun _ => h.whole

def Before (whole : Prop) (f : ConfigFile Reader) (g : ConfigFile Text) : Prop :=
  (∃ text, g = f.over ⟨text, true⟩ ∧ Ahead whole f.reader text) ∨
    g = f.over ⟨f.reader.data, false⟩ ∧ Fresh whole f.reader

def afterBlanks (g : ConfigFile Text) : Octets → Except Fault (ConfigFile Text)
  | [] => .ok (g.ended .EOF)
  | c :: text =>
    if c = 0 then .ok (g.ended .ERROR)
    else if g.reader.started = false ∧ c = 35 then .ok (Text.newlines g .comment text g.line)
    else Text.tokenHere g c text

theorem tokenNext_agrees (h : Before whole f g) :
    Agrees .slip whole (fun careful => tokenNext careful f) (Text.tokenNext g) (Related whole) := by
  obtain ⟨text, rfl, window, hwindow, htext, hwhole⟩ | ⟨rfl, hfresh⟩ := h
  · obtain ⟨before, -, hcurrent⟩ := hwindow.buffer
    have hhere (careful : Bool) : tokenNext careful f = (do
        let read ← tokenSkipWhitespace careful f
        if read.1 then tokenHere careful read.2 else .ok read.2) := by
      rw [tokenNext, if_neg (by rw [hcurrent]; simp)]
    simp only [hhere]
    refine (tokenSkipWhitespace_agrees hwindow htext hwhole).bind
      (k := afterBlanks (f.over ⟨text, true⟩)) ?_
    rintro ⟨status, next⟩ t -
      (⟨rfl, rfl, hend'⟩ | ⟨-, rfl, reader, rfl, window', hne, hwindow', rfl, hwhole'⟩)
    · exact .ok (fun _ => rfl) (.inr (.inl ⟨hend'.1, rfl, hend'.2.symm⟩))
    obtain ⟨c, rest, rfl⟩ := List.exists_cons_of_ne_nil hne
    have hc : c ≠ 0 := fun hc => hwindow'.plain (hc ▸ List.mem_cons_self)
    simp only [if_true, List.cons_append, afterBlanks, if_neg hc]
    rw [if_neg fun h => by cases h.1]
    exact tokenHere_agrees (f := { f with reader := reader }) hwindow' hwhole' rfl rfl rfl
  · have hhere (careful : Bool) : tokenNext careful f = (do
        let read ← fileRead careful f
        if read.1 then
          let read ← tokenSkipWhitespace careful read.2
          if read.1 then
            let c ← read.2.reader.look 0
            if c = 35 then tokenNewline careful read.2 else tokenHere careful read.2
          else .ok read.2
        else .ok read.2) := by
      rw [tokenNext, if_pos hfresh.current]
    simp only [hhere]
    refine (fileRead_fresh hfresh).bind (k := fun data => Text.tokenNext (f.over ⟨data, false⟩)) ?_
    rintro ⟨status, next⟩ data -
      (⟨rfl, rfl, hend'⟩ | ⟨-, rfl, reader, rfl, window, -, hwindow, rfl, hwhole⟩)
    · exact .ok (fun _ => rfl) (.inr (.inl ⟨hend'.1, rfl, hend'.2.symm⟩))
    simp only [if_true]
    refine (tokenSkipWhitespace_agrees (f := { f with reader := reader }) hwindow rfl hwhole).bind
      (k := afterBlanks (f.over ⟨window ++ reader.data, false⟩)) ?_
    rintro ⟨status, next⟩ t -
      (⟨rfl, rfl, hend'⟩ | ⟨-, rfl, reader', rfl, window', hne, hwindow', rfl, hwhole'⟩)
    · exact .ok (fun _ => rfl) (.inr (.inl ⟨hend'.1, rfl, hend'.2.symm⟩))
    obtain ⟨c, rest, rfl⟩ := List.exists_cons_of_ne_nil hne
    have hc : c ≠ 0 := fun hc => hwindow'.plain (hc ▸ List.mem_cons_self)
    have hlook : reader'.look 0 = .ok c := hwindow'.look_eq (Nat.zero_le _)
    simp only [if_true, List.cons_append, afterBlanks, if_neg hc, hlook, bind, Except.bind]
    by_cases hcomment : c = 35
    · rw [if_pos ⟨rfl, hcomment⟩]
      simp only [if_pos hcomment]
      subst hcomment
      exact tokenNewline_comment (f := { f with reader := reader' }) hwindow' hwhole' rfl rfl
    · rw [if_neg fun h => hcomment h.2]
      simp only [if_neg hcomment]
      exact tokenHere_agrees (f := { f with reader := reader' }) hwindow' hwhole' rfl rfl rfl

end Tokens

end Inn.Confparse
