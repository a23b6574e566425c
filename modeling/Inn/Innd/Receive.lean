import Inn.Innd.Parse

/-!
# Where a received article ends

However an article is split into reads, the parser reaches the state it reaches
when the whole stream is there at once. The article ends with the first CRLF.CRLF,
unless it starts with .CRLF, and nothing after its end has a say.
-/

namespace Inn.Innd

open Foundation.Scanning Relation

def articleTurn (xrefslave : Bool) (data : Octets) (cp : Channel) : Option Channel :=
  if cp.State = .CSgetheader then headerTurn xrefslave data cp else bodyTurn data cp

def ARTreceive (xrefslave : Bool) (before : Octets) (cp : Channel) : List Octets → Channel
  | [] => cp
  | portion :: portions =>
    ARTreceive xrefslave (before ++ portion) (ARTparse xrefslave (before ++ portion) cp) portions

section Slices

variable {data : Octets} {j : Nat}

theorem slice_eq_iff {text : Octets} {n : Nat} (hlength : text.length = n) :
    slice data j n = text ↔ ∀ i, i < n → data[j + i]? = text[i]? := by
  rw [slice]
  constructor
  · rintro rfl i hi
    rw [List.getElem?_take_of_lt hi, List.getElem?_drop]
  · intro heach
    apply List.ext_getElem?
    intro i
    by_cases hi : i < n
    · rw [List.getElem?_take_of_lt hi, List.getElem?_drop, heach i hi]
    · rw [List.getElem?_take_eq_none (by omega), List.getElem?_eq_none (by omega)]

theorem terminator_iff : slice data j 5 = terminator ↔
    data[j]? = some CR ∧ data[j + 1]? = some LF ∧ data[j + 2]? = some 46 ∧ data[j + 3]? = some CR ∧
      data[j + 4]? = some LF := by
  rw [@slice_eq_iff data j terminator 5 rfl]
  constructor
  · intro heach
    exact ⟨heach 0 (by decide), heach 1 (by decide), heach 2 (by decide), heach 3 (by decide),
      heach 4 (by decide)⟩
  · rintro ⟨h0, h1, h2, h3, h4⟩ i hi
    interval_cases i <;> assumption

theorem dotLine_iff : slice data j 3 = dotLine ↔
    data[j]? = some 46 ∧ data[j + 1]? = some CR ∧ data[j + 2]? = some LF := by
  rw [@slice_eq_iff data j dotLine 3 rfl]
  constructor
  · intro heach
    exact ⟨heach 0 (by decide), heach 1 (by decide), heach 2 (by decide)⟩
  · rintro ⟨h0, h1, h2⟩ i hi
    interval_cases i <;> assumption

theorem crlf_iff : slice data j 2 = [CR, LF] ↔ data[j]? = some CR ∧ data[j + 1]? = some LF := by
  rw [@slice_eq_iff data j [CR, LF] 2 rfl]
  constructor
  · intro heach
    exact ⟨heach 0 (by decide), heach 1 (by decide)⟩
  · rintro ⟨h0, h1⟩ i hi
    interval_cases i <;> assumption

theorem inside_of_getElem? {c : UInt8} (hoctet : data[j]? = some c) : j < data.length :=
  (List.getElem?_eq_some_iff.mp hoctet).1

theorem terminator_inside (hends : slice data j 5 = terminator) : j + 5 ≤ data.length := by
  have := inside_of_getElem? (terminator_iff.mp hends).2.2.2.2
  omega

theorem dotLine_inside (hdot : slice data j 3 = dotLine) : j + 3 ≤ data.length := by
  have := inside_of_getElem? (dotLine_iff.mp hdot).2.2
  omega

theorem LF_ne_CR : (some LF : Option UInt8) ≠ some CR := by decide

theorem dot_ne_CR : (some 46 : Option UInt8) ≠ some CR := by decide

theorem not_terminator_of_getElem? {c : UInt8} (hoctet : data[j]? = some c) (hcr : c ≠ CR) :
    slice data j 5 ≠ terminator := by
  intro hends
  exact hcr (Option.some.inj (hoctet.symm.trans (terminator_iff.mp hends).1))

end Slices

section Parser

variable {xrefslave : Bool} {data : Octets} {cp cp' : Channel}

theorem bodyTurn_advances (hturn : bodyTurn data cp = some cp') :
    cp.Next < data.length ∧ cp.Next < cp'.Next ∧ cp'.State ≠ .CSgetheader := by
  rw [bodyTurn] at hturn
  split at hturn
  · cases hturn
  next hstate =>
    have hheader : cp.State ≠ .CSgetheader := by
      intro h
      simp [h] at hstate
    cases hoctet : data[cp.Next]? with
    | none => simp [hoctet] at hturn
    | some c =>
      refine ⟨inside_of_getElem? hoctet, ?_⟩
      simp only [hoctet] at hturn
      repeat' split at hturn
      all_goals
        cases hturn
        try exact ⟨by simp, by simp [hheader]⟩

theorem headerTurn_advances (hturn : headerTurn xrefslave data cp = some cp') :
    cp.Next < data.length ∧ cp.Next < cp'.Next := by
  obtain ⟨-, -, hcases, -⟩ := headerTurn_cases hturn
  cases hcases with
  | octet hoctet _ _ hnext => exact ⟨inside_of_getElem? hoctet, by omega⟩
  | empty hstart hdot _ hnext =>
    have := dotLine_inside hdot
    omega
  | ends hoctet _ _ hnext => exact ⟨inside_of_getElem? hoctet, by omega⟩
  | line hoctet _ _ _ hline =>
    obtain ⟨i, rfl, ⟨_, _, hnext, _⟩ | ⟨_, _, hnext⟩⟩ := hline.state
    all_goals
      refine ⟨inside_of_getElem? hoctet, ?_⟩
      split at hnext <;> omega
  | bare hoctet _ _ hnext => exact ⟨inside_of_getElem? hoctet, by omega⟩

theorem headerTurn_not_eats (hturn : headerTurn xrefslave data cp = some cp') :
    cp'.State ≠ .CSeatarticle := by
  obtain ⟨-, -, hcases, -⟩ := headerTurn_cases hturn
  intro hstate
  cases hcases with
  | octet _ _ h _ => simp [h] at hstate
  | empty _ _ h _ => simp [h] at hstate
  | ends _ _ h _ => rcases h with h | h <;> simp [h] at hstate
  | line _ _ _ _ hline => obtain ⟨_, _, ⟨_, h, _⟩ | ⟨_, h, _⟩⟩ := hline.state <;> simp [h] at hstate
  | bare _ _ h _ => simp [h] at hstate

theorem articleTurn_of_headerTurn (hturn : headerTurn xrefslave data cp = some cp') :
    articleTurn xrefslave data cp = some cp' := by
  rw [articleTurn, if_pos (headerTurn_cases hturn).1, hturn]

theorem articleTurn_of_bodyTurn (hturn : bodyTurn data cp = some cp') :
    articleTurn xrefslave data cp = some cp' := by
  rw [articleTurn, if_neg, hturn]
  intro hstate
  rw [bodyTurn, if_pos ⟨by simp [hstate], by simp [hstate]⟩] at hturn
  cases hturn

end Parser

def articleParser (xrefslave : Bool) : Scanner Channel UInt8 where
  turn := articleTurn xrefslave
  rest data cp := data.length - cp.Next
  decreasing := by
    intro data cp cp' hturn
    have hadvances : cp.Next < data.length ∧ cp.Next < cp'.Next := by
      rw [articleTurn] at hturn
      split at hturn
      · exact headerTurn_advances hturn
      · exact ⟨(bodyTurn_advances hturn).1, (bodyTurn_advances hturn).2.1⟩
    omega
  extends_turn := by
    intro data cp cp' more hturn
    rw [articleTurn] at hturn ⊢
    split
    next hstate => exact headerTurn_append more (by simpa only [if_pos hstate] using hturn)
    next hstate => exact bodyTurn_append more (by simpa only [if_neg hstate] using hturn)

section Parsed

variable {xrefslave : Bool} {data : Octets} {cp : Channel}

theorem ARTparse_eq (xrefslave : Bool) (data : Octets) (cp : Channel) :
    ARTparse xrefslave data cp = (articleParser xrefslave).scan data cp := by
  have hreached : ∀ state, ReflTransGen (Turns (articleTurn xrefslave data)) cp state →
      articleTurn xrefslave data state = none → state = (articleParser xrefslave).scan data cp :=
    fun state hreaches hwaits =>
      unique_of_waits hreaches ((articleParser xrefslave).reaches_scan data cp)
      hwaits ((articleParser xrefslave).scan_waits data cp)
  have hbody : ∀ state, state.State ≠ .CSgetheader →
      ReflTransGen (Turns (articleTurn xrefslave data)) state (ARTparsebody data state) ∧
        articleTurn xrefslave data (ARTparsebody data state) = none := by
    intro state hstate
    have hreaches := @reaches_drive _ (bodyTurn data) (data.length - state.Next) state
    refine ⟨reaches_mono articleTurn_of_bodyTurn hreaches, ?_⟩
    have hout : (ARTparsebody data state).State ≠ .CSgetheader :=
      invariant_of_reaches (P := fun cp => cp.State ≠ .CSgetheader)
        (fun _ hturn => (bodyTurn_advances hturn).2.2) hreaches hstate
    rw [articleTurn, if_neg hout]
    refine @drive_waits _ _ _ (fun cp => data.length - cp.Next) (fun hturn => ?_) _ (Nat.le_refl _)
    have := bodyTurn_advances hturn
    omega
  rw [ARTparse]
  split
  next hstate =>
    rw [ARTparseheader]
    have hheader := @reaches_drive _ (headerTurn xrefslave data) (data.length - cp.Next) cp
    have hwaits : headerTurn xrefslave data
        (drive (headerTurn xrefslave data) (data.length - cp.Next) cp) = none := by
      refine @drive_waits _ _ _ (fun cp => data.length - cp.Next) (fun hturn => ?_) _
        (Nat.le_refl _)
      have := headerTurn_advances hturn
      omega
    have hout := invariant_of_reaches (P := fun cp => cp.State ≠ .CSeatarticle)
      (fun _ hturn => headerTurn_not_eats hturn) hheader (by simp [hstate])
    have hreaches := reaches_mono articleTurn_of_headerTurn hheader
    revert hwaits hout hreaches
    generalize drive (headerTurn xrefslave data) (data.length - cp.Next) cp = header
    intro hwaits hout hreaches
    split
    next hbegins =>
      obtain ⟨hbody', hwaits'⟩ := hbody header (by simp [hbegins])
      exact hreached _ (hreaches.trans hbody') hwaits'
    next hbegins =>
      refine hreached _ hreaches ?_
      rw [articleTurn]
      split
      · exact hwaits
      · rw [bodyTurn, if_pos ⟨hbegins, hout⟩]
  next hstate =>
    obtain ⟨hbody', hwaits⟩ := hbody cp (by simp [hstate])
    exact hreached _ hbody' hwaits
  next hstate =>
    obtain ⟨hbody', hwaits⟩ := hbody cp (by simp [hstate])
    exact hreached _ hbody' hwaits
  next hheader hbody' heats =>
    refine hreached _ .refl ?_
    rw [articleTurn, if_neg hheader, bodyTurn, if_pos ⟨hbody', heats⟩]

theorem ARTreceive_eq (before : Octets) (portions : List Octets) :
    ARTreceive xrefslave before cp portions =
      (articleParser xrefslave).read before cp portions := by
  induction portions generalizing before cp with
  | nil => rfl
  | cons portion portions ih => rw [ARTreceive, Scanner.read, ARTparse_eq, ih]

end Parsed

/-- The article ends at its first terminator. -/
def Ends (data : Octets) (Start e : Nat) : Prop :=
  slice data Start 3 = dotLine ∧ e = Start + 3 ∨
    slice data Start 3 ≠ dotLine ∧ ∃ j, Start ≤ j ∧ slice data j 5 = terminator ∧ e = j + 5 ∧
      ∀ k, Start ≤ k → k < j → slice data k 5 ≠ terminator

def Finished (cp : Channel) : Prop := cp.State = .CSnoarticle ∨ cp.State = .CSgotarticle

/-- There is no terminator in what has been parsed. -/
inductive Scanned (data : Octets) (Start : Nat) (cp : Channel) : Prop
  | header : cp.State = .CSgetheader → cp.Start = Start → Start ≤ cp.Next →
      (slice data Start 3 = dotLine → cp.Next ≤ Start + 1) →
      (∀ j, Start ≤ j → j < cp.Next → slice data j 5 ≠ terminator) → Scanned data Start cp
  | body : cp.State = .CSgetbody → slice data Start 3 ≠ dotLine → Start + 2 ≤ cp.Body →
      cp.Body ≤ cp.Next → slice data (cp.Body - 2) 2 = [CR, LF] →
      (∀ j, Start ≤ j → j < cp.Next → slice data j 5 = terminator →
        j + 2 = cp.Body ∧ cp.Next ≤ cp.Body + 1) → Scanned data Start cp
  | finished : Finished cp → Ends data Start cp.Next → Scanned data Start cp

section Invariant

variable {xrefslave : Bool} {data : Octets} {cp cp' : Channel} {Start : Nat}

theorem Ends.unique {e e' : Nat} (h : Ends data Start e) (h' : Ends data Start e') : e = e' := by
  rcases h with ⟨hdot, rfl⟩ | ⟨hdot, j, hj, hends, rfl, hfirst⟩ <;>
    rcases h' with ⟨hdot', rfl⟩ | ⟨hdot', j', hj', hends', rfl, hfirst'⟩
  · rfl
  · exact absurd hdot hdot'
  · exact absurd hdot' hdot
  · rcases Nat.lt_trichotomy j j' with hless | rfl | hless
    · exact absurd hends (hfirst' j hj hless)
    · rfl
    · exact absurd hends' (hfirst j' hj' hless)

theorem Ends.inside {e : Nat} (h : Ends data Start e) : e ≤ data.length := by
  rcases h with ⟨hdot, rfl⟩ | ⟨-, j, -, hends, rfl, -⟩
  · exact dotLine_inside hdot
  · exact terminator_inside hends

theorem Ends.take {e : Nat} (h : Ends data Start e) : Ends (data.take e) Start e := by
  have hslice :
      ∀ position n, position + n ≤ e → slice (data.take e) position n = slice data position n := by
    intro position n hinside
    rw [slice, slice, List.drop_take, List.take_take, Nat.min_eq_left (by omega)]
  rcases h with ⟨hdot, rfl⟩ | ⟨hdot, j, hj, hends, rfl, hfirst⟩
  · exact Or.inl ⟨by rwa [hslice _ _ (Nat.le_refl _)], rfl⟩
  · refine Or.inr ⟨?_, j, hj, by rwa [hslice _ _ (Nat.le_refl _)], rfl, fun k hk hless => ?_⟩
    · rwa [hslice _ _ (by omega)]
    · rw [hslice _ _ (by omega)]
      exact hfirst k hk hless

theorem scanned_ARTprepare (data : Octets) (Start : Nat) (ihave : Bool) :
    Scanned data Start (ARTprepare Start ihave) :=
  .header rfl rfl (Nat.le_refl _) (fun _ => Nat.le_succ _) fun _ hstart hless =>
    absurd hless (Nat.not_lt.mpr hstart)

theorem not_terminator_line {position : Nat} (hends : slice data position 5 ≠ terminator)
    (hline : data[position + 1]? = some LF) {j : Nat} (hj : position ≤ j)
    (hless : j < position + 2) :
    slice data j 5 ≠ terminator := by
  rcases Nat.eq_or_lt_of_le hj with rfl | hafter
  · exact hends
  · obtain rfl : j = position + 1 := by omega
    exact not_terminator_of_getElem? hline (by decide)

theorem scanned_headerTurn (hstart : cp.Start = Start)
    (hnext : Start ≤ cp.Next) (hdot : slice data Start 3 = dotLine → cp.Next ≤ Start + 1)
    (hnone : ∀ j, Start ≤ j → j < cp.Next → slice data j 5 ≠ terminator)
    (hturn : headerTurn xrefslave data cp = some cp') : Scanned data Start cp' := by
  obtain ⟨-, hstart', hcases, hskip⟩ := headerTurn_cases hturn
  subst hstart
  -- The dot of a leading .CRLF is taken as any octet, and then it ends.
  have hleads : data[cp.Next]? = some CR → slice data cp.Start 3 = dotLine →
      cp'.State = .CSnoarticle ∧ cp'.Next = cp.Next + 2 := by
    intro hcr hleads
    rcases Nat.eq_or_lt_of_le (hdot hleads) with hsecond | hfirst
    · exact hskip hsecond hleads hcr
    · obtain hsame : cp.Next = cp.Start := by omega
      rw [hsame] at hcr
      exact absurd ((dotLine_iff.mp hleads).1.symm.trans hcr) dot_ne_CR
  cases hcases with
  | octet hoctet hcr hstate' hmoved =>
    refine .header hstate' hstart' (by omega) (fun hdots => ?_) fun j hj hless => ?_
    · rcases Nat.eq_or_lt_of_le (hdot hdots) with hsecond | hfirst
      · rw [hsecond] at hoctet
        exact absurd (Option.some.inj (hoctet.symm.trans (dotLine_iff.mp hdots).2.1)) hcr
      · omega
    · rcases Nat.lt_or_ge j cp.Next with hbefore | hat
      · exact hnone j hj hbefore
      · obtain rfl : j = cp.Next := by omega
        exact not_terminator_of_getElem? hoctet hcr
  | empty hsecond hdots hstate' hmoved =>
    exact .finished (Or.inl hstate') (Or.inl ⟨hdots, by omega⟩)
  | ends hoctet hends hstate' hmoved =>
    have hdots : slice data cp.Start 3 ≠ dotLine := by
      intro hdots
      have := (hleads hoctet hdots).2
      omega
    exact .finished hstate' (Or.inr ⟨hdots, cp.Next, hnext, hends, hmoved, hnone⟩)
  | bare hoctet hends hstate' hmoved =>
    refine .header hstate' hstart' (by omega) (fun hdots => ?_) fun j hj hless => ?_
    · have := (hleads hoctet hdots).2
      omega
    · rcases Nat.lt_or_ge j cp.Next with hbefore | hat
      · exact hnone j hj hbefore
      · obtain rfl : j = cp.Next := by omega
        exact hends
  | line hoctet hroom hends hlf hline =>
    obtain ⟨i, hi, hline⟩ := hline.state
    have hdots : slice data cp.Start 3 ≠ dotLine := by
      intro hdots
      have hstate' := (hleads hoctet hdots).1
      rcases hline with ⟨_, h, _⟩ | ⟨_, h, _⟩ <;> simp [h] at hstate'
    -- The empty line may start a terminator, but nothing before it does.
    have hbefore : ∀ j, cp.Start ≤ j → j < i → slice data j 5 ≠ terminator := by
      intro j hj hless
      rcases Nat.lt_or_ge j cp.Next with hold | hnew
      · exact hnone j hj hold
      · refine not_terminator_line hends hlf hnew ?_
        split at hi <;> omega
    have hle : cp.Next ≤ i ∧ i ≤ cp.Next + 2 := by split at hi <;> omega
    rcases hline with ⟨hempty, hstate', hmoved, hbody⟩ | ⟨hfield, hstate', hmoved⟩
    · refine .body hstate' hdots (by omega) (by omega) (by rwa [hbody, Nat.add_sub_cancel]) ?_
      intro j hj hless hterminates
      have hat : j = i := by
        rcases Nat.lt_trichotomy j i with hold | hsame | hnew
        · exact absurd hterminates (hbefore j hj hold)
        · exact hsame
        · obtain rfl : j = i + 1 := by omega
          exact absurd hterminates (not_terminator_of_getElem? (crlf_iff.mp hempty).2 (by decide))
      omega
    · refine .header hstate' hstart' (by omega) (fun h => absurd h hdots) fun j hj hless => ?_
      rcases Nat.lt_or_ge j i with hold | hnew
      · exact hbefore j hj hold
      · obtain rfl : j = i := by omega
        intro hterminates
        have hoctets := terminator_iff.mp hterminates
        exact hfield (crlf_iff.mpr ⟨hoctets.1, hoctets.2.1⟩)

theorem scanned_bodyTurn (hstate : cp.State = .CSgetbody) (hdots : slice data Start 3 ≠ dotLine)
    (hbody : Start + 2 ≤ cp.Body) (hnext : cp.Body ≤ cp.Next)
    (hcrlf : slice data (cp.Body - 2) 2 = [CR, LF])
    (hnone : ∀ j, Start ≤ j → j < cp.Next → slice data j 5 = terminator →
      j + 2 = cp.Body ∧ cp.Next ≤ cp.Body + 1)
    (hturn : bodyTurn data cp = some cp') : Scanned data Start cp' := by
  obtain ⟨-, hbody', hcases, hskip⟩ := bodyTurn_cases hstate hturn
  -- What follows a terminator directly after the header is the dot and then the CR that ends it.
  have hpast : data[cp.Next]? = some CR → cp'.Next ≠ cp.Next + 2 ∨ cp'.State ≠ .CSgotarticle →
      ∀ j, Start ≤ j → j < cp.Next → slice data j 5 ≠ terminator := by
    intro hcr hmoved j hj hless hends
    obtain ⟨hat, hle⟩ := hnone j hj hless hends
    have hoctets := terminator_iff.mp hends
    rw [hat, show j + 3 = cp.Body + 1 by omega, show j + 4 = cp.Body + 2 by omega] at hoctets
    rcases Nat.eq_or_lt_of_le hle with hsecond | hfirst
    · have hended := hskip hsecond (dotLine_iff.mpr hoctets.2.2) hcr
      rcases hmoved with hmoved | hmoved
      · exact hmoved hended.2
      · exact hmoved hended.1
    · rw [show cp.Next = cp.Body by omega] at hcr
      exact dot_ne_CR (hoctets.2.2.1.symm.trans hcr)
  cases hcases with
  | octet hoctet hcr hstate' hmoved =>
    refine .body hstate' hdots (by omega) (by omega) (by rwa [hbody']) fun j hj hless hends => ?_
    rcases Nat.lt_or_ge j cp.Next with hbefore | hat
    · obtain ⟨hstarts, hle⟩ := hnone j hj hbefore hends
      refine ⟨by omega, ?_⟩
      rcases Nat.eq_or_lt_of_le hle with hsecond | hfirst
      · have hfourth := (terminator_iff.mp hends).2.2.2.1
        rw [show j + 3 = cp.Next by omega, hoctet] at hfourth
        exact absurd (Option.some.inj hfourth) hcr
      · omega
    · obtain rfl : j = cp.Next := by omega
      exact absurd hends (not_terminator_of_getElem? hoctet hcr)
  | empty hsecond hdot hstate' hmoved =>
    have hends : slice data (cp.Body - 2) 5 = terminator := by
      have hfirst := crlf_iff.mp hcrlf
      have hlast := dotLine_iff.mp hdot
      rw [show cp.Body - 2 + 1 = cp.Body - 1 by omega] at hfirst
      rw [terminator_iff, show cp.Body - 2 + 1 = cp.Body - 1 by omega,
        show cp.Body - 2 + 2 = cp.Body by omega, show cp.Body - 2 + 3 = cp.Body + 1 by omega,
        show cp.Body - 2 + 4 = cp.Body + 2 by omega]
      exact ⟨hfirst.1, hfirst.2, hlast⟩
    refine .finished (Or.inr hstate') (Or.inr ⟨hdots, cp.Body - 2, by omega, hends, by omega, ?_⟩)
    intro k hk hless hterminates
    have := hnone k hk (by omega) hterminates
    omega
  | ends hoctet hends hstate' hmoved =>
    exact .finished (Or.inr hstate')
      (Or.inr ⟨hdots, cp.Next, by omega, hends, hmoved, hpast hoctet (Or.inl (by omega))⟩)
  | line hoctet hroom hends hlf hstate' hmoved =>
    refine .body hstate' hdots (by omega) (by omega) (by rwa [hbody']) fun j hj hless hterminates =>
      ?_
    rcases Nat.lt_or_ge j cp.Next with hbefore | hat
    · exact absurd hterminates (hpast hoctet (Or.inr (by simp [hstate'])) j hj hbefore)
    · exact absurd hterminates (not_terminator_line hends hlf hat (by omega))
  | bare hoctet hends hstate' hmoved =>
    refine .body hstate' hdots (by omega) (by omega) (by rwa [hbody']) fun j hj hless hterminates =>
      ?_
    rcases Nat.lt_or_ge j cp.Next with hbefore | hat
    · exact absurd hterminates (hpast hoctet (Or.inl (by omega)) j hj hbefore)
    · obtain rfl : j = cp.Next := by omega
      exact absurd hterminates hends

theorem scanned_articleTurn (hscanned : Scanned data Start cp)
    (hturn : articleTurn xrefslave data cp = some cp') : Scanned data Start cp' := by
  rw [articleTurn] at hturn
  cases hscanned with
  | header hstate hstart hnext hdot hnone =>
    rw [if_pos hstate] at hturn
    exact scanned_headerTurn hstart hnext hdot hnone hturn
  | body hstate hdots hbody hnext hcrlf hnone =>
    rw [if_neg (by simp [hstate])] at hturn
    exact scanned_bodyTurn hstate hdots hbody hnext hcrlf hnone hturn
  | finished hfinished _ =>
    rw [if_neg, bodyTurn, if_pos] at hturn
    · cases hturn
    · rcases hfinished with h | h <;> simp [h]
    · rcases hfinished with h | h <;> simp [h]

theorem headerTurn_waits (hstate : cp.State = .CSgetheader)
    (hwaits : headerTurn xrefslave data cp = none) :
    data.length < cp.Next + 5 ∧ ∀ c, data[cp.Next]? = some c →
      c = CR ∧ ¬(cp.Next = cp.Start + 1 ∧ slice data cp.Start 3 = dotLine) := by
  rw [headerTurn, if_neg (not_not.mpr hstate)] at hwaits
  cases hoctet : data[cp.Next]? with
  | none => exact ⟨by have := List.getElem?_eq_none_iff.mp hoctet; omega, by rintro _ ⟨⟩⟩
  | some c =>
    simp only [hoctet] at hwaits
    split at hwaits
    · cases hwaits
    next hcr =>
      split at hwaits
      · cases hwaits
      next hempty =>
        split at hwaits
        next hless =>
          refine ⟨by omega, fun c' hc => ⟨by grind, fun hpair => hempty ⟨hpair.1, ?_, ?_⟩⟩⟩
          · have := dotLine_inside hpair.2
            omega
          · rw [hpair.1, Nat.add_sub_cancel]
            exact hpair.2
        · split at hwaits
          · split at hwaits <;> cases hwaits
          · split at hwaits <;> cases hwaits

theorem bodyTurn_waits (hstate : cp.State = .CSgetbody) (hwaits : bodyTurn data cp = none) :
    data.length < cp.Next + 5 ∧ ∀ c, data[cp.Next]? = some c →
      c = CR ∧ ¬(cp.Next = cp.Body + 1 ∧ slice data cp.Body 3 = dotLine) := by
  rw [bodyTurn, if_neg fun h => h.1 hstate] at hwaits
  cases hoctet : data[cp.Next]? with
  | none => exact ⟨by have := List.getElem?_eq_none_iff.mp hoctet; omega, by rintro _ ⟨⟩⟩
  | some c =>
    simp only [hoctet] at hwaits
    split at hwaits
    · cases hwaits
    next hcr =>
      split at hwaits
      · cases hwaits
      next hempty =>
        split at hwaits
        next hless =>
          refine ⟨by omega, fun c' hc => ⟨by grind, fun hpair => hempty ⟨hpair.1, ?_, ?_⟩⟩⟩
          · have := dotLine_inside hpair.2
            omega
          · rw [hpair.1, Nat.add_sub_cancel]
            exact hpair.2
        · split at hwaits
          · cases hwaits
          · split at hwaits <;> cases hwaits

theorem finished_of_ends {e : Nat} (hscanned : Scanned data Start cp)
    (hwaits : articleTurn xrefslave data cp = none) (hend : Ends data Start e) : Finished cp := by
  rw [articleTurn] at hwaits
  cases hscanned with
  | finished hfinished _ => exact hfinished
  | header hstate hstart hnext hdot hnone =>
    rw [if_pos hstate] at hwaits
    obtain ⟨hroom, hcr⟩ := headerTurn_waits hstate hwaits
    exfalso
    rcases hend with ⟨hleads, -⟩ | ⟨-, j, hj, hends, -, -⟩
    · have hoctets := dotLine_iff.mp hleads
      rcases Nat.eq_or_lt_of_le (hdot hleads) with hsecond | hfirst
      · rw [hsecond, ← hstart] at hcr
        exact (hcr _ (hstart ▸ hoctets.2.1)).2 ⟨rfl, hstart ▸ hleads⟩
      · rw [show cp.Next = Start by omega] at hcr
        exact absurd (hcr _ hoctets.1).1 (by decide)
    · have hinside := terminator_inside hends
      have hlater : cp.Next ≤ j := Nat.le_of_not_lt fun hless => hnone j hj hless hends
      omega
  | body hstate hdots hbody hnext hcrlf hnone =>
    rw [if_neg (by simp [hstate])] at hwaits
    obtain ⟨hroom, hcr⟩ := bodyTurn_waits hstate hwaits
    exfalso
    rcases hend with ⟨hleads, -⟩ | ⟨-, j, hj, hends, -, -⟩
    · exact hdots hleads
    · have hinside := terminator_inside hends
      rcases Nat.lt_or_ge j cp.Next with hbefore | hlater
      · obtain ⟨hat, hle⟩ := hnone j hj hbefore hends
        have hoctets := terminator_iff.mp hends
        rw [hat, show j + 3 = cp.Body + 1 by omega, show j + 4 = cp.Body + 2 by omega] at hoctets
        rcases Nat.eq_or_lt_of_le hle with hsecond | hfirst
        · rw [hsecond] at hcr
          exact (hcr _ hoctets.2.2.2.1).2 ⟨rfl, dotLine_iff.mpr hoctets.2.2⟩
        · rw [show cp.Next = cp.Body by omega] at hcr
          exact absurd (hcr _ hoctets.2.2.1).1 (by decide)
      · omega

theorem scanned_ARTparse (xrefslave : Bool) (data : Octets) (Start : Nat) (ihave : Bool) :
    Scanned data Start (ARTparse xrefslave data (ARTprepare Start ihave)) := by
  rw [ARTparse_eq]
  exact invariant_of_reaches (P := Scanned data Start) scanned_articleTurn
    ((articleParser xrefslave).reaches_scan data _) (scanned_ARTprepare data Start ihave)

theorem ends_of_finished (hscanned : Scanned data Start cp) (hfinished : Finished cp) :
    Ends data Start cp.Next := by
  cases hscanned with
  | header hstate => rcases hfinished with h | h <;> simp [hstate] at h
  | body hstate => rcases hfinished with h | h <;> simp [hstate] at h
  | finished _ hends => exact hends

theorem finished_iff (xrefslave : Bool) (data : Octets) (Start : Nat) (ihave : Bool) :
    Finished (ARTparse xrefslave data (ARTprepare Start ihave)) ↔ ∃ e, Ends data Start e := by
  have hscanned := scanned_ARTparse xrefslave data Start ihave
  constructor
  · exact fun hfinished => ⟨_, ends_of_finished hscanned hfinished⟩
  · rintro ⟨e, hend⟩
    refine @finished_of_ends xrefslave _ _ _ _ hscanned ?_ hend
    rw [ARTparse_eq]
    exact (articleParser xrefslave).scan_waits data _

theorem articleTurn_finished (hfinished : Finished cp) : articleTurn xrefslave data cp = none := by
  rw [articleTurn, if_neg, bodyTurn, if_pos]
  · rcases hfinished with h | h <;> simp [h]
  · rcases hfinished with h | h <;> simp [h]

theorem ARTparse_take {e : Nat} (ihave : Bool) (hend : Ends data Start e) :
    ARTparse xrefslave (data.take e) (ARTprepare Start ihave) =
      ARTparse xrefslave data (ARTprepare Start ihave) := by
  have hfinished := (finished_iff xrefslave (data.take e) Start ihave).mpr ⟨e, hend.take⟩
  have hagain :
      ARTparse xrefslave data (ARTparse xrefslave (data.take e) (ARTprepare Start ihave)) =
      ARTparse xrefslave data (ARTprepare Start ihave) := by
    have := (articleParser xrefslave).scan_append (data.take e) (data.drop e)
      (ARTprepare Start ihave)
    simpa only [List.take_append_drop, ← ARTparse_eq] using this
  rw [← hagain, ARTparse_eq xrefslave data (ARTparse xrefslave (data.take e) _), Scanner.scan]
  exact (drive_of_waits (articleTurn_finished hfinished)).symm

/-- However an article is split into reads, the parser ends up in the state that it reaches on the
whole stream, which is finished exactly if the article ends. It stands at the end then, and
what comes after the end does not matter. -/
theorem ARTreceive_whole (xrefslave ihave : Bool) (before : Octets) (portions : List Octets) :
    ARTreceive xrefslave before (ARTprepare before.length ihave) portions =
        ARTparse xrefslave (before ++ portions.flatten) (ARTprepare before.length ihave) ∧
      (Finished (ARTparse xrefslave (before ++ portions.flatten) (ARTprepare before.length ihave)) ↔
        ∃ e, Ends (before ++ portions.flatten) before.length e) ∧
      ∀ e, Ends (before ++ portions.flatten) before.length e →
        (ARTparse xrefslave (before ++ portions.flatten) (ARTprepare before.length ihave)).Next =
          e ∧
          ARTparse xrefslave ((before ++ portions.flatten).take e)
            (ARTprepare before.length ihave) =
            ARTparse xrefslave (before ++ portions.flatten) (ARTprepare before.length ihave) := by
  refine ⟨?_, finished_iff .., fun e hend => ⟨?_, ARTparse_take ihave hend⟩⟩
  · rw [ARTreceive_eq, Scanner.read_eq, ARTparse_eq]
    show articleTurn xrefslave before (ARTprepare before.length ihave) = none
    simp [articleTurn, headerTurn, ARTprepare]
  · have hfinished := (finished_iff xrefslave _ before.length ihave).mpr ⟨e, hend⟩
    exact (ends_of_finished (scanned_ARTparse ..) hfinished).unique hend

/-- An article that starts with .CRLF ends there, at neither kind of end of a body. -/
theorem ARTparse_ends_early :
    let data := octets ".\r\nX\r\n.\r\n"
    let cp := ARTparse false data (ARTprepare 0 false)
    Finished cp ∧ slice data 4 5 = terminator ∧
      ¬(∃ j, slice data j 5 = terminator ∧ cp.Next = j + 5) ∧
      ¬∃ j, slice data j 4 = [CR, LF, CR, LF] ∧ slice data (j + 4) 3 = dotLine ∧
        cp.Next = j + 7 := by
  intro data cp
  have hnext : cp.Next = 3 := by decide
  refine ⟨Or.inl (by decide), by decide, ?_, ?_⟩
  · rintro ⟨j, -, h⟩
    omega
  · rintro ⟨j, -, -, h⟩
    omega

end Invariant

end Inn.Innd
