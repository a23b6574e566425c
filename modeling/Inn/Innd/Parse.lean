import Inn.Innd.Channel

/-!
# Parsing an article that arrives in pieces

A turn of the parser that does not wait is the same when more has arrived, so
the state that is reached does not depend on how the article is split. It ends
with the first terminator.
-/

namespace Inn.Innd

open Foundation.Scanning

section Slices

variable {data more : Octets} {position n : Nat}

theorem slice_append (hinside : position + n ≤ data.length ∨ n = 0) :
    slice (data ++ more) position n = slice data position n := by
  rcases hinside with hinside | rfl
  · rw [slice, slice, List.drop_append_of_le_length (by omega), List.take_append_of_le_length]
    rw [List.length_drop]
    omega
  · rw [slice, slice, List.take_zero, List.take_zero]

theorem getElem?_append (hinside : position < data.length) :
    (data ++ more)[position]? = data[position]? := List.getElem?_append_left hinside

end Slices

section Turns

variable {xrefslave : Bool} {data : Octets} {cp cp' : Channel}

theorem endHeader_append (more : Octets) {i : Nat} (hinside : i ≤ data.length) :
    endHeader xrefslave (data ++ more) cp i = endHeader xrefslave data cp i := by
  rw [endHeader, endHeader, slice_append (by omega)]

theorem headerLine_append (more : Octets) (hinside : cp.Next + 5 ≤ data.length) :
    headerLine xrefslave (data ++ more) cp = headerLine xrefslave data cp := by
  rw [headerLine, headerLine]
  by_cases hstart : cp.Next = cp.Start
  · simp only [if_pos hstart]
    rw [slice_append (Or.inl (by omega))]
  · simp only [if_neg hstart]
    rw [getElem?_append (by omega), endHeader_append more (by omega),
      slice_append (Or.inl (by omega))]

theorem isEmpty_append (more : Octets) {n start : Nat} (hinside : n + 2 ≤ data.length) :
    (n = start + 1 ∧ (data ++ more).length - n > 1 ∧ slice (data ++ more) (n - 1) 3 = dotLine) ↔
      n = start + 1 ∧ data.length - n > 1 ∧ slice data (n - 1) 3 = dotLine := by
  refine and_congr_right fun hstart => ?_
  rw [slice_append (Or.inl (by omega)), List.length_append]
  exact and_congr_left fun _ => by omega

theorem headerTurn_append (more : Octets) (hturn : headerTurn xrefslave data cp = some cp') :
    headerTurn xrefslave (data ++ more) cp = some cp' := by
  rw [headerTurn] at hturn ⊢
  by_cases hstate : cp.State ≠ .CSgetheader
  · rw [if_pos hstate] at hturn
    cases hturn
  rw [if_neg hstate] at hturn ⊢
  cases hoctet : data[cp.Next]? with
  | none => simp [hoctet] at hturn
  | some c =>
    have hinside := (List.getElem?_eq_some_iff.mp hoctet).1
    rw [getElem?_append hinside, hoctet]
    simp only [hoctet] at hturn
    by_cases hcr : c ≠ CR
    · simpa only [if_pos hcr] using hturn
    simp only [if_neg hcr] at hturn ⊢
    by_cases hempty : cp.Next = cp.Start + 1 ∧ data.length - cp.Next > 1 ∧
        slice data (cp.Next - 1) 3 = dotLine
    · rw [if_pos hempty] at hturn
      rw [if_pos ((isEmpty_append more (by omega)).mpr hempty), hturn]
    rw [if_neg hempty] at hturn
    by_cases hless : data.length - cp.Next < 5
    · rw [if_pos hless] at hturn
      cases hturn
    · have hless' : ¬(data ++ more).length - cp.Next < 5 := by
        rw [List.length_append]
        omega
      rw [if_neg hless] at hturn
      rwa [if_neg (mt (isEmpty_append more (by omega)).mp hempty), if_neg hless',
        slice_append (Or.inl (by omega)),
        getElem?_append (by omega), headerLine_append more (by omega)]

theorem bodyTurn_append (more : Octets) (hturn : bodyTurn data cp = some cp') :
    bodyTurn (data ++ more) cp = some cp' := by
  rw [bodyTurn] at hturn ⊢
  by_cases hstate : cp.State ≠ .CSgetbody ∧ cp.State ≠ .CSeatarticle
  · rw [if_pos hstate] at hturn
    cases hturn
  rw [if_neg hstate] at hturn ⊢
  cases hoctet : data[cp.Next]? with
  | none => simp [hoctet] at hturn
  | some c =>
    have hinside := (List.getElem?_eq_some_iff.mp hoctet).1
    rw [getElem?_append hinside, hoctet]
    simp only [hoctet] at hturn
    by_cases hcr : c ≠ CR
    · simpa only [if_pos hcr] using hturn
    simp only [if_neg hcr] at hturn ⊢
    by_cases hempty : cp.Next = cp.Body + 1 ∧ data.length - cp.Next > 1 ∧
        slice data (cp.Next - 1) 3 = dotLine
    · rw [if_pos hempty] at hturn
      rw [if_pos ((isEmpty_append more (by omega)).mpr hempty), hturn]
    rw [if_neg hempty] at hturn
    by_cases hless : data.length - cp.Next < 5
    · rw [if_pos hless] at hturn
      cases hturn
    · have hless' : ¬(data ++ more).length - cp.Next < 5 := by
        rw [List.length_append]
        omega
      rw [if_neg hless] at hturn
      rwa [if_neg (mt (isEmpty_append more (by omega)).mp hempty), if_neg hless',
        slice_append (Or.inl (by omega)),
        getElem?_append (by omega), getElem?_append (by omega)]

@[simp]
theorem advance_State (cp : Channel) (state : ChannelState) (next : Nat) :
    (cp.advance state next).State = state := rfl

@[simp]
theorem advance_Next (cp : Channel) (state : ChannelState) (next : Nat) :
    (cp.advance state next).Next = next := rfl

@[simp]
theorem advance_Start (cp : Channel) (state : ChannelState) (next : Nat) :
    (cp.advance state next).Start = cp.Start := rfl

@[simp]
theorem advance_Body (cp : Channel) (state : ChannelState) (next : Nat) :
    (cp.advance state next).Body = cp.Body := rfl

structure Notes (cp cp' : Channel) : Prop where
  State : cp'.State = cp.State
  Start : cp'.Start = cp.Start
  Next : cp'.Next = cp.Next
  Body : cp'.Body = cp.Body

theorem Notes.trans {cp cp' cp'' : Channel} (h : Notes cp cp') (h' : Notes cp' cp'') :
    Notes cp cp'' :=
  ⟨h'.State.trans h.State, h'.Start.trans h.Start, h'.Next.trans h.Next, h'.Body.trans h.Body⟩

theorem notes_ARTerror (cp : Channel) (text : Octets) : Notes cp (ARTerror cp text) :=
    ⟨rfl, rfl, rfl, rfl⟩

theorem notes_setHeader (cp : Channel) (i : Nat) (hc : HDRCONTENT) : Notes cp (cp.setHeader i hc) :=
  ⟨rfl, rfl, rfl, rfl⟩

theorem notes_noteOctet (place : String) (c : UInt8) (cp : Channel) :
    Notes cp (noteOctet place c cp) := by
  rw [noteOctet]
  split <;> split <;> exact ⟨rfl, rfl, rfl, rfl⟩

theorem notes_noteBytes (i : Nat) (cp : Channel) : Notes cp (noteBytes i cp) := by
  rw [noteBytes]
  split <;> exact ⟨rfl, rfl, rfl, rfl⟩

theorem notes_recordHeader (xrefslave : Bool) (cp : Channel) (i colon : Nat) (header : Octets) :
    Notes cp (recordHeader xrefslave cp i colon header) := by
  rw [recordHeader]
  split
  · split
    · exact notes_setHeader ..
    · exact ⟨rfl, rfl, rfl, rfl⟩
  · exact notes_setHeader ..

theorem notes_ARTcheckheader (xrefslave : Bool) (cp : Channel) (header : Octets) :
    Notes cp (ARTcheckheader xrefslave cp header) := by
  rw [ARTcheckheader]
  split
  · exact notes_ARTerror cp _
  · split
    · exact notes_ARTerror cp _
    · split
      · split
        · exact ⟨rfl, rfl, rfl, rfl⟩
        · exact notes_ARTerror cp _
      next i _ => exact (notes_noteBytes i cp).trans (notes_recordHeader ..)

/-- A line end leads on to the next line, or into the body. -/
structure EndsLine (data : Octets) (cp cp' : Channel) : Prop where
  Start : cp'.Start = cp.Start
  /-- The header ends at an empty line, or if the article starts with one. -/
  state : ∃ i, (if cp.Next = cp.Start then cp.Next else cp.Next + 2) = i ∧
    (slice data i 2 = [CR, LF] ∧ cp'.State = .CSgetbody ∧ cp'.Next = i + 2 ∧ cp'.Body = i + 2 ∨
      slice data i 2 ≠ [CR, LF] ∧ cp'.State = .CSgetheader ∧ cp'.Next = i + 1)

theorem endsLine_headerLine : EndsLine data cp (headerLine xrefslave data cp) := by
  have hfield :
      ∀ i, Notes cp (endHeader xrefslave data { cp with HeaderLines := cp.HeaderLines + 1 } i) := by
    intro i
    have hchecked := notes_ARTcheckheader xrefslave { cp with HeaderLines := cp.HeaderLines + 1 }
      (slice data cp.CurHeader (i - cp.CurHeader))
    exact { hchecked with }
  rw [headerLine]
  by_cases hstart : cp.Next = cp.Start
  · simp only [if_pos hstart]
    split
    next hempty => exact ⟨rfl, _, if_pos hstart, Or.inl ⟨hempty, rfl, rfl, rfl⟩⟩
    next hline => exact ⟨rfl, _, if_pos hstart, Or.inr ⟨hline, rfl, rfl⟩⟩
  · simp only [if_neg hstart]
    split
    next hempty =>
      refine ⟨?_, _, if_neg hstart, Or.inl ⟨hempty, rfl, rfl, rfl⟩⟩
      split
      · rfl
      · exact (hfield _).Start
    next hline =>
      refine ⟨?_, _, if_neg hstart, Or.inr ⟨hline, rfl, rfl⟩⟩
      rw [advance_Start]
      split
      · rfl
      · exact (hfield _).Start

inductive HeaderTurn (data : Octets) (cp cp' : Channel) : Prop
  | octet {c} : data[cp.Next]? = some c → c ≠ CR → cp'.State = .CSgetheader →
      cp'.Next = cp.Next + 1 → HeaderTurn data cp cp'
  | empty : cp.Next = cp.Start + 1 → slice data cp.Start 3 = dotLine → cp'.State = .CSnoarticle →
      cp'.Next = cp.Next + 2 → HeaderTurn data cp cp'
  | ends : data[cp.Next]? = some CR → slice data cp.Next 5 = terminator →
      cp'.State = .CSnoarticle ∨ cp'.State = .CSgotarticle → cp'.Next = cp.Next + 5 →
      HeaderTurn data cp cp'
  | line : data[cp.Next]? = some CR → cp.Next + 5 ≤ data.length →
      slice data cp.Next 5 ≠ terminator →
      data[cp.Next + 1]? = some LF → EndsLine data cp cp' → HeaderTurn data cp cp'
  | bare : data[cp.Next]? = some CR → slice data cp.Next 5 ≠ terminator →
      cp'.State = .CSgetheader → cp'.Next = cp.Next + 1 → HeaderTurn data cp cp'

theorem headerTurn_cases (hturn : headerTurn xrefslave data cp = some cp') :
    cp.State = .CSgetheader ∧ cp'.Start = cp.Start ∧ HeaderTurn data cp cp' ∧
      (cp.Next = cp.Start + 1 → slice data cp.Start 3 = dotLine → data[cp.Next]? = some CR →
        cp'.State = .CSnoarticle ∧ cp'.Next = cp.Next + 2) := by
  rw [headerTurn] at hturn
  by_cases hstate : cp.State ≠ .CSgetheader
  · rw [if_pos hstate] at hturn
    cases hturn
  rw [if_neg hstate] at hturn
  rw [not_not] at hstate
  cases hoctet : data[cp.Next]? with
  | none => simp [hoctet] at hturn
  | some c =>
    have hinside := (List.getElem?_eq_some_iff.mp hoctet).1
    simp only [hoctet] at hturn
    by_cases hcr : c ≠ CR
    · rw [if_pos hcr] at hturn
      cases hturn
      refine ⟨hstate, (notes_noteOctet ..).Start, .octet hoctet hcr rfl rfl, fun _ _ h => ?_⟩
      exact absurd (Option.some.inj h) hcr
    rw [if_neg hcr] at hturn
    rw [not_not] at hcr
    subst hcr
    by_cases hempty : cp.Next = cp.Start + 1 ∧ data.length - cp.Next > 1 ∧
        slice data (cp.Next - 1) 3 = dotLine
    · rw [if_pos hempty] at hturn
      cases hturn
      obtain ⟨hnext, -, hdot⟩ := hempty
      have hdot' : slice data cp.Start 3 = dotLine := by rwa [hnext, Nat.add_sub_cancel] at hdot
      exact ⟨hstate, rfl, .empty hnext hdot' rfl rfl, fun _ _ _ => ⟨rfl, rfl⟩⟩
    rw [if_neg hempty] at hturn
    by_cases hless : data.length - cp.Next < 5
    · rw [if_pos hless] at hturn
      cases hturn
    rw [if_neg hless] at hturn
    have hskip : cp.Next = cp.Start + 1 → slice data cp.Start 3 = dotLine → some CR = some CR →
        cp'.State = .CSnoarticle ∧ cp'.Next = cp.Next + 2 := by
      intro hnext hdot
      rw [hnext, Nat.add_sub_cancel] at hempty
      exact absurd ⟨rfl, by omega, hdot⟩ hempty
    by_cases hends : slice data cp.Next 5 = terminator
    · rw [if_pos hends] at hturn
      split at hturn <;> obtain rfl := Option.some.inj hturn
      · exact ⟨hstate, rfl, .ends hoctet hends (Or.inl rfl) rfl, hskip⟩
      · exact ⟨hstate, rfl, .ends hoctet hends (Or.inr rfl) rfl, hskip⟩
    rw [if_neg hends] at hturn
    split at hturn <;> obtain rfl := Option.some.inj hturn
    next hline =>
      exact ⟨hstate, endsLine_headerLine.Start,
        .line hoctet (by omega) hends hline endsLine_headerLine,
        hskip⟩
    · exact ⟨hstate, rfl, .bare hoctet hends hstate rfl, hskip⟩

inductive BodyTurn (data : Octets) (cp cp' : Channel) : Prop
  | octet {c} : data[cp.Next]? = some c → c ≠ CR → cp'.State = .CSgetbody →
      cp'.Next = cp.Next + 1 → BodyTurn data cp cp'
  | empty : cp.Next = cp.Body + 1 → slice data cp.Body 3 = dotLine → cp'.State = .CSgotarticle →
      cp'.Next = cp.Next + 2 → BodyTurn data cp cp'
  | ends : data[cp.Next]? = some CR → slice data cp.Next 5 = terminator →
      cp'.State = .CSgotarticle → cp'.Next = cp.Next + 5 → BodyTurn data cp cp'
  | line : data[cp.Next]? = some CR → cp.Next + 5 ≤ data.length →
      slice data cp.Next 5 ≠ terminator →
      data[cp.Next + 1]? = some LF → cp'.State = .CSgetbody → cp'.Next = cp.Next + 2 →
      BodyTurn data cp cp'
  | bare : data[cp.Next]? = some CR → slice data cp.Next 5 ≠ terminator →
      cp'.State = .CSgetbody → cp'.Next = cp.Next + 1 → BodyTurn data cp cp'

theorem bodyTurn_cases (hstate : cp.State = .CSgetbody) (hturn : bodyTurn data cp = some cp') :
    cp'.Start = cp.Start ∧ cp'.Body = cp.Body ∧ BodyTurn data cp cp' ∧
      (cp.Next = cp.Body + 1 → slice data cp.Body 3 = dotLine → data[cp.Next]? = some CR →
        cp'.State = .CSgotarticle ∧ cp'.Next = cp.Next + 2) := by
  have heat : ¬cp.State = .CSeatarticle := by simp [hstate]
  rw [bodyTurn, if_neg fun h => h.1 hstate] at hturn
  simp only [if_neg heat] at hturn
  cases hoctet : data[cp.Next]? with
  | none => simp [hoctet] at hturn
  | some c =>
    have hinside := (List.getElem?_eq_some_iff.mp hoctet).1
    simp only [hoctet] at hturn
    by_cases hcr : c ≠ CR
    · rw [if_pos hcr] at hturn
      cases hturn
      have hnotes := notes_noteOctet "body" c cp
      refine ⟨hnotes.Start, hnotes.Body, .octet hoctet hcr hstate rfl, fun _ _ h => ?_⟩
      exact absurd (Option.some.inj h) hcr
    rw [if_neg hcr] at hturn
    rw [not_not] at hcr
    subst hcr
    by_cases hempty : cp.Next = cp.Body + 1 ∧ data.length - cp.Next > 1 ∧
        slice data (cp.Next - 1) 3 = dotLine
    · rw [if_pos hempty] at hturn
      cases hturn
      obtain ⟨hnext, -, hdot⟩ := hempty
      have hdot' : slice data cp.Body 3 = dotLine := by rwa [hnext, Nat.add_sub_cancel] at hdot
      exact ⟨rfl, rfl, .empty hnext hdot' rfl rfl, fun _ _ _ => ⟨rfl, rfl⟩⟩
    rw [if_neg hempty] at hturn
    by_cases hless : data.length - cp.Next < 5
    · rw [if_pos hless] at hturn
      cases hturn
    rw [if_neg hless] at hturn
    have hskip : cp.Next = cp.Body + 1 → slice data cp.Body 3 = dotLine → some CR = some CR →
        cp'.State = .CSgotarticle ∧ cp'.Next = cp.Next + 2 := by
      intro hnext hdot
      rw [hnext, Nat.add_sub_cancel] at hempty
      exact absurd ⟨rfl, by omega, hdot⟩ hempty
    by_cases hends : slice data cp.Next 5 = terminator
    · rw [if_pos hends] at hturn
      cases hturn
      exact ⟨rfl, rfl, .ends hoctet hends rfl rfl, hskip⟩
    rw [if_neg hends] at hturn
    split at hturn <;> obtain rfl := Option.some.inj hturn
    next hline => exact ⟨rfl, rfl, .line hoctet (by omega) hends hline hstate rfl, hskip⟩
    · exact ⟨rfl, rfl, .bare hoctet hends hstate rfl, hskip⟩

end Turns

end Inn.Innd
