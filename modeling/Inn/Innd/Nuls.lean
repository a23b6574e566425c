import Inn.Innd.Fields

/-!
# Nuls in an article

An article with a nul in it is to be rejected. The parser looks at each octet in turn, but at the
end of a header line it goes on behind the first octet of the next line.
-/

namespace Inn.Innd

open Foundation.Scanning Relation

def LineStart (data : Octets) (Start e : Nat) : Prop :=
    e = Start ∨ Start + 2 ≤ e ∧ slice data (e - 2) 2 = [CR, LF]

def HeaderOver (data : Octets) (Start k : Nat) : Prop :=
  ∃ e, LineStart data Start e ∧ slice data e 2 = [CR, LF] ∧ e + 2 ≤ k

def FirstColumn (data : Octets) (Start k : Nat) : Prop :=
  Start + 2 ≤ k ∧ slice data (k - 2) 2 = [CR, LF] ∧ ¬HeaderOver data Start k

theorem HeaderOver.mono {data : Octets} {Start k k' : Nat} (h : HeaderOver data Start k)
    (hle : k ≤ k') :
    HeaderOver data Start k' := by
  obtain ⟨e, hline, hempty, hbefore⟩ := h
  exact ⟨e, hline, hempty, Nat.le_trans hbefore hle⟩

theorem no_nul {data text : Octets} {j n k : Nat} (hslice : slice data j n = text)
    (hnone : 0 ∉ text) (hle : j ≤ k) (hless : k < j + n) : data[k]? ≠ some 0 := by
  intro hnul
  have htext : text[k - j]? = some 0 := by
    rw [← hslice, slice, List.getElem?_take_of_lt (by omega), List.getElem?_drop,
      Nat.add_sub_cancel' hle]
    exact hnul
  exact hnone (List.mem_of_getElem? htext)

section Turns

variable {xrefslave : Bool} {data : Octets} {cp cp' : Channel}

theorem articleTurn_nul (hturn : articleTurn xrefslave data cp = some cp')
    (hnul : data[cp.Next]? = some 0) :
    cp'.Error ≠ [] := by
  have hnoted : ∀ place, (noteOctet place 0 cp).Error ≠ [] := fun place => ARTerror_Error cp _
  rw [articleTurn] at hturn
  split_ifs at hturn with hheader
  · rw [headerTurn, if_neg (not_not.mpr hheader), hnul] at hturn
    cases hturn
    exact hnoted "header"
  · rw [bodyTurn] at hturn
    by_cases hbody : cp.State ≠ .CSgetbody ∧ cp.State ≠ .CSeatarticle
    · rw [if_pos hbody] at hturn
      cases hturn
    rw [if_neg hbody, hnul] at hturn
    cases hturn
    exact hnoted "body"

theorem headerTurn_crlf (hturn : headerTurn xrefslave data cp = some cp')
    (hcrlf : slice data cp.Next 2 = [CR, LF]) :
    cp.Next + 2 ≤ cp'.Next := by
  obtain ⟨hcr, hlf⟩ := crlf_iff.mp hcrlf
  rw [headerTurn, hcr] at hturn
  dsimp only at hturn
  rw [if_neg (not_not.mpr rfl), if_pos hlf] at hturn
  split_ifs at hturn
  all_goals obtain rfl := Option.some.inj hturn
  · exact Nat.le_refl _
  · exact Nat.add_le_add_left (by decide) _
  · exact Nat.add_le_add_left (by decide) _
  · obtain ⟨-, i, hi, ⟨-, -, hnext, -⟩ | ⟨hline, -, hnext⟩⟩ :=
      @endsLine_headerLine xrefslave data cp
    · split_ifs at hi <;> omega
    · split_ifs at hi with hstart
      · exact absurd (hi ▸ hcrlf) hline
      · omega

end Turns

section Watching

variable {xrefslave ihave : Bool} {data : Octets} {Start : Nat} {cp cp' : Channel}

def Reached (xrefslave : Bool) (data : Octets) (Start : Nat) (ihave : Bool) (cp : Channel) : Prop :=
  ReflTransGen (Turns (articleTurn xrefslave data)) (ARTprepare Start ihave) cp

/-- The parser sees something wrong when it comes to `k`. -/
def Noticed (xrefslave : Bool) (data : Octets) (Start : Nat) (ihave : Bool) (k : Nat) : Prop :=
  ∃ cp cp', Reached xrefslave data Start ihave cp ∧ cp.Next = k ∧
    articleTurn xrefslave data cp = some cp' ∧ cp'.Error ≠ []

structure Watched (xrefslave : Bool) (data : Octets) (Start : Nat) (ihave : Bool)
    (cp : Channel) : Prop where
  reached : Reached xrefslave data Start ihave cp
  starts : cp.Start = Start
  le : Start ≤ cp.Next
  eats : cp.State ≠ .CSeatarticle
  inLine : cp.State = .CSgetheader → Start < cp.Next → slice data (cp.Next - 1) 2 ≠ [CR, LF]
  behindLine : cp.State = .CSgetheader → Start + 2 ≤ cp.Next → slice data (cp.Next - 2) 2 ≠ [CR, LF]
  noEmpty : cp.State = .CSgetheader → ∀ e < cp.Next, LineStart data Start e →
    slice data e 2 ≠ [CR, LF]
  body : cp.State = .CSgetbody → HeaderOver data Start cp.Next
  noticed : ∀ k, Start ≤ k → k < cp.Next → data[k]? = some 0 → ¬FirstColumn data Start k →
    Noticed xrefslave data Start ihave k ∧ cp.Error ≠ []

theorem watched_ARTprepare : Watched xrefslave data Start ihave (ARTprepare Start ihave) where
  reached := .refl
  starts := rfl
  le := Nat.le_refl _
  eats := nofun
  inLine _ h := absurd h (Nat.lt_irrefl _)
  behindLine _ h := absurd h (by simp [ARTprepare])
  noEmpty _ e he hline := absurd hline (by
    rintro (rfl | ⟨hle, -⟩)
    · exact Nat.lt_irrefl _ he
    · exact absurd he (Nat.not_lt.mpr (Nat.le_trans (Nat.le_add_right _ _) hle)))
  body := nofun
  noticed k hk hless := absurd hless (Nat.not_lt.mpr hk)

section Watching

variable (hwatched : Watched xrefslave data Start ihave cp)

include hwatched

theorem Watched.noticed_turn (hturn : articleTurn xrefslave data cp = some cp')
    (hrest : ∀ k, cp.Next < k → k < cp'.Next → data[k]? = some 0 → FirstColumn data Start k) :
    ∀ k, Start ≤ k → k < cp'.Next → data[k]? = some 0 → ¬FirstColumn data Start k →
      Noticed xrefslave data Start ihave k ∧ cp'.Error ≠ [] := by
  intro k hk hless hnul hcolumn
  rcases Nat.lt_trichotomy k cp.Next with hbefore | rfl | hafter
  · obtain ⟨hnoticed, herror⟩ := hwatched.noticed k hk hbefore hnul hcolumn
    exact ⟨hnoticed, articleTurn_error hturn herror⟩
  · have herror := articleTurn_nul hturn hnul
    exact ⟨⟨cp, cp', hwatched.reached, rfl, hturn, herror⟩, herror⟩
  · exact absurd (hrest k hafter hless hnul) hcolumn

theorem Watched.next_octet
    (hturn : articleTurn xrefslave data cp = some cp') (hstate : cp.State = .CSgetheader)
    (hstarts : cp'.Start = cp.Start)
    (hstate' : cp'.State = .CSgetheader) (hnext : cp'.Next = cp.Next + 1)
    (hline : slice data cp.Next 2 ≠ [CR, LF]) :
    Watched xrefslave data Start ihave cp' where
  reached := hwatched.reached.tail hturn
  starts := hstarts.trans hwatched.starts
  le := by
    have := hwatched.le
    omega
  eats := by rw [hstate']; nofun
  inLine _ _ := by rwa [hnext, Nat.add_sub_cancel]
  behindLine _ hle := by
    rw [hnext] at hle ⊢
    exact hwatched.inLine hstate (by omega)
  noEmpty _ e he hstart := by
    rcases Nat.lt_succ_iff_lt_or_eq.mp (hnext ▸ he) with hbefore | rfl
    · exact hwatched.noEmpty hstate e hbefore hstart
    · exact hline
  body hbody := absurd (hstate'.symm.trans hbody) nofun
  noticed := hwatched.noticed_turn hturn fun k hk hless => by omega

theorem Watched.header_line (hstate : cp.State = .CSgetheader)
    (hmoved : cp.Next ≠ cp.Start) : ¬HeaderOver data Start (cp.Next + 2) := by
  rintro ⟨e, hline, hempty, hle⟩
  rcases Nat.lt_or_ge e cp.Next with hbefore | hat
  · exact hwatched.noEmpty hstate e hbefore hline hempty
  · obtain rfl : e = cp.Next := by omega
    rcases hline with hstart | ⟨hle, hcrlf⟩
    · exact hmoved (hstart.trans hwatched.starts.symm)
    · exact hwatched.behindLine hstate hle hcrlf

theorem watched_headerTurn
    (hturn : headerTurn xrefslave data cp = some cp') : Watched xrefslave data Start ihave cp' := by
  have harticle := articleTurn_of_headerTurn hturn
  have hreached := hwatched.reached.tail harticle
  obtain ⟨hstate, hstarts, hcases, -⟩ := headerTurn_cases hturn
  have hle := hwatched.le
  cases hcases with
  | octet hoctet hcr hstate' hnext =>
    refine hwatched.next_octet harticle hstate hstarts hstate' hnext fun hcrlf => hcr ?_
    exact Option.some.inj (hoctet.symm.trans (crlf_iff.mp hcrlf).1)
  | bare hcr hends hstate' hnext =>
    refine hwatched.next_octet harticle hstate hstarts hstate' hnext fun hcrlf => ?_
    have := headerTurn_crlf hturn hcrlf
    omega
  | empty hsecond hdot hstate' hnext =>
    refine ⟨hreached, hstarts.trans hwatched.starts, by omega, ?_, ?_, ?_, ?_, ?_,
      hwatched.noticed_turn harticle fun k hk hless hnul => ?_⟩
    all_goals try exact fun h => absurd (hstate'.symm.trans h) nofun
    exact absurd hnul (no_nul hdot (by decide) (by omega) (by omega))
  | ends hcr hends hstate' hnext =>
    refine ⟨hreached, hstarts.trans hwatched.starts, by omega, ?_, ?_, ?_, ?_, ?_,
      hwatched.noticed_turn harticle fun k hk hless hnul => ?_⟩
    all_goals try exact fun h => by rcases hstate' with hstate' | hstate' <;> exact absurd (hstate'.symm.trans h) nofun
    exact absurd hnul (no_nul hends (by decide) (by omega) (by omega))
  | line hcr hroom hends hlf hline =>
    have hcrlf : slice data cp.Next 2 = [CR, LF] := crlf_iff.mpr ⟨hcr, hlf⟩
    obtain ⟨-, i, hi, ⟨hempty, hstate', hnext, -⟩ | ⟨hnonempty, hstate', hnext⟩⟩ := hline
    · have hover : HeaderOver data Start cp'.Next := by
        refine ⟨i, ?_, hempty, Nat.le_of_eq hnext.symm⟩
        split_ifs at hi with hstart
        · exact .inl (hi.symm.trans (hstart.trans hwatched.starts))
        · exact .inr ⟨by omega, by rw [← hi, Nat.add_sub_cancel]; exact hcrlf⟩
      refine ⟨hreached, hstarts.trans hwatched.starts,
        by split_ifs at hi <;> omega, ?_, ?_, ?_, ?_, fun _ => hover,
        hwatched.noticed_turn harticle fun k hk hless hnul => ?_⟩
      all_goals try exact fun h => absurd (hstate'.symm.trans h) nofun
      rcases Nat.lt_or_ge k i with hbefore | hat
      · refine absurd hnul (no_nul hcrlf (by decide) (Nat.le_of_lt hk) ?_)
        split_ifs at hi <;> omega
      · exact absurd hnul (no_nul hempty (by decide) hat (by omega))
    · have hmoved : cp.Next ≠ cp.Start := by
        intro hstart
        rw [if_pos hstart] at hi
        exact hnonempty (hi ▸ hcrlf)
      rw [if_neg hmoved] at hi
      subst hi
      have hover := hwatched.header_line hstate hmoved
      refine ⟨hreached, hstarts.trans hwatched.starts,
        by omega, by rw [hstate']; nofun, fun _ _ => ?_, fun _ _ hcrlf' => ?_,
        fun _ e he hstart hempty => ?_, fun h => absurd (hstate'.symm.trans h) nofun,
        hwatched.noticed_turn harticle fun k hk hless hnul => ?_⟩
      · rwa [hnext, Nat.add_sub_cancel]
      · rw [hnext, show cp.Next + 2 + 1 - 2 = cp.Next + 1 by omega] at hcrlf'
        exact absurd (hlf.symm.trans (crlf_iff.mp hcrlf').1) (by decide)
      · obtain hbefore | rfl | rfl : e + 2 ≤ cp.Next + 2 ∨ e = cp.Next + 1 ∨ e = cp.Next + 2 := by
          omega
        · exact hover ⟨e, hstart, hempty, hbefore⟩
        · exact absurd (hlf.symm.trans (crlf_iff.mp hempty).1) (by decide)
        · exact hnonempty hempty
      · obtain rfl | rfl : k = cp.Next + 1 ∨ k = cp.Next + 2 := by omega
        · exact absurd (hlf.symm.trans hnul) (by decide)
        · exact ⟨by omega, by rw [Nat.add_sub_cancel]; exact hcrlf, hover⟩

theorem watched_bodyTurn (hstate : cp.State = .CSgetbody)
    (hturn : bodyTurn data cp = some cp') : Watched xrefslave data Start ihave cp' := by
  have harticle := @articleTurn_of_bodyTurn xrefslave data cp cp' hturn
  have hreached := hwatched.reached.tail harticle
  obtain ⟨hstarts, -, hcases, -⟩ := bodyTurn_cases hstate hturn
  have hle := hwatched.le
  have hadvances := (bodyTurn_advances hturn).2
  have hover : HeaderOver data Start cp'.Next := (hwatched.body hstate).mono (by omega)
  have hdone : ∀ {state : ChannelState}, cp'.State = state → state ≠ .CSgetheader →
      state ≠ .CSeatarticle →
      (∀ k, cp.Next < k → k < cp'.Next → data[k]? ≠ some 0) →
        Watched xrefslave data Start ihave cp' := by
    rintro state rfl hheader heats hnone
    exact ⟨hreached, hstarts.trans hwatched.starts,
      by omega, heats, fun h => absurd h hheader, fun h => absurd h hheader,
      fun h => absurd h hheader, fun _ => hover,
      hwatched.noticed_turn harticle fun k hk hless hnul => absurd hnul (hnone k hk hless)⟩
  cases hcases with
  | octet _ _ hstate' hnext => exact hdone hstate' nofun nofun fun k hk hless => by omega
  | bare _ _ hstate' hnext => exact hdone hstate' nofun nofun fun k hk hless => by omega
  | empty hsecond hdot hstate' hnext =>
    exact hdone hstate' nofun nofun fun k hk hless => no_nul hdot (by decide) (by omega) (by omega)
  | ends _ hends hstate' hnext =>
    exact hdone hstate' nofun nofun fun k hk hless => no_nul hends (by decide) (by omega) (by omega)
  | line hcr _ _ hlf hstate' hnext =>
    exact hdone hstate' nofun nofun fun k hk hless =>
      no_nul (crlf_iff.mpr ⟨hcr, hlf⟩) (by decide) (by omega) (by omega)

theorem watched_articleTurn (hturn : articleTurn xrefslave data cp = some cp') :
    Watched xrefslave data Start ihave cp' := by
  have hturn' := hturn
  rw [articleTurn] at hturn'
  split_ifs at hturn' with hheader
  · exact watched_headerTurn hwatched hturn'
  · refine watched_bodyTurn hwatched ?_ hturn'
    by_contra hbody
    rw [bodyTurn, if_pos ⟨hbody, hwatched.eats⟩] at hturn'
    cases hturn'

end Watching

theorem watched_of_reached (hreached : Reached xrefslave data Start ihave cp) :
    Watched xrefslave data Start ihave cp :=
  invariant_of_reaches watched_articleTurn hreached watched_ARTprepare

end Watching

section Noticing

variable {xrefslave ihave : Bool} {data : Octets} {Start : Nat}

theorem not_noticed {k : Nat} (hcolumn : FirstColumn data Start k) :
    ¬Noticed xrefslave data Start ihave k := by
  rintro ⟨cp, cp', hreached, rfl, hturn, -⟩
  have hwatched := watched_of_reached hreached
  rw [articleTurn] at hturn
  split_ifs at hturn with hheader
  · exact hwatched.behindLine hheader hcolumn.1 hcolumn.2.1
  · refine hcolumn.2.2 (hwatched.body ?_)
    by_contra hbody
    rw [bodyTurn, if_pos ⟨hbody, hwatched.eats⟩] at hturn
    cases hturn

/-- Each NUL is noticed, and an article with one is rejected. -/
structure NulsNoticed (xrefslave ihave : Bool) (before : Octets) (portions : List Octets)
    (e : Nat) : Prop where
  noticed : ∀ k, before.length ≤ k → k < e → (before ++ portions.flatten)[k]? = some 0 →
    Noticed xrefslave (before ++ portions.flatten) before.length ihave k
  rejected : (∃ k, before.length ≤ k ∧ k < e ∧ (before ++ portions.flatten)[k]? = some 0) →
    (ARTreceive xrefslave before (ARTprepare before.length ihave) portions).Error ≠ []

/-- All nuls are noticed but those in the first column of a header line. -/
theorem nulsNoticed_iff (xrefslave ihave : Bool) {before : Octets}
    {portions : List Octets} {e : Nat} (hend : Ends (before ++ portions.flatten) before.length e) :
    NulsNoticed xrefslave ihave before portions e ↔
      ∀ k, before.length ≤ k → k < e → (before ++ portions.flatten)[k]? = some 0 →
        ¬FirstColumn (before ++ portions.flatten) before.length k := by
  obtain ⟨hwhole, -, hends⟩ := ARTreceive_whole xrefslave ihave before portions
  have hnext := (hends e hend).1
  have hwatched : Watched xrefslave (before ++ portions.flatten) before.length ihave
      (ARTparse xrefslave (before ++ portions.flatten) (ARTprepare before.length ihave)) := by
    rw [ARTparse_eq]
    exact watched_of_reached ((articleParser xrefslave).reaches_scan _ _)
  constructor
  · intro hnoticed k hk hless hnul hcolumn
    exact not_noticed hcolumn (hnoticed.noticed k hk hless hnul)
  · intro hcolumns
    have hall :=
      fun k hk hless hnul => hwatched.noticed k hk (hnext ▸ hless) hnul (hcolumns k hk hless hnul)
    refine ⟨fun k hk hless hnul => (hall k hk hless hnul).1, ?_⟩
    rintro ⟨k, hk, hless, hnul⟩
    rw [hwhole]
    exact (hall k hk hless hnul).2

def nulBody : Octets := octets "A: b\r\n\r\nx\r\n" ++ [0] ++ octets "y\r\n.\r\n"

theorem nulsNoticed_nulBody : NulsNoticed false true [] [nulBody] 18 := by
  have hend : Ends ([] ++ [nulBody].flatten) ([] : Octets).length 18 := by
    refine .inr ⟨by decide +kernel, 13, Nat.zero_le _, by decide +kernel, rfl, fun k _ hless => ?_⟩
    have hnone : ∀ k < 13, slice ([] ++ [nulBody].flatten) k 5 ≠ terminator := by decide +kernel
    exact hnone k hless
  refine (nulsNoticed_iff false true hend).mpr fun k _ hless hnul hcolumn =>
    hcolumn.2.2 ⟨6, ?_, by decide +kernel, ?_⟩
  · exact .inr ⟨by decide, by decide +kernel⟩
  · have honly : ∀ k < 18, nulBody[k]? = some 0 → 8 ≤ k := by decide +kernel
    exact honly k hless hnul

def nulColumn : Octets := octets "A: b\r\n" ++ [0] ++ octets "C: d\r\n\r\nx\r\n.\r\n"

theorem not_nulsNoticed :
    ¬∀ (xrefslave ihave : Bool) (before : Octets) (portions : List Octets) (e : Nat),
      Ends (before ++ portions.flatten) before.length e →
        NulsNoticed xrefslave ihave before portions e := by
  intro hall
  have hend : Ends ([] ++ [nulColumn].flatten) ([] : Octets).length 21 := by
    refine .inr ⟨by decide +kernel, 16, Nat.zero_le _, by decide +kernel, rfl, fun k _ hless => ?_⟩
    have hnone : ∀ k < 16, slice ([] ++ [nulColumn].flatten) k 5 ≠ terminator := by decide +kernel
    exact hnone k hless
  have hrejected :=
    (hall false true [] [nulColumn] 21 hend).rejected ⟨6, by decide, by decide, by decide +kernel⟩
  exact hrejected (by decide +kernel)

end Noticing

end Inn.Innd
