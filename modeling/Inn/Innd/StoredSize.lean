import Inn.Foundation.Stuffing
import Inn.Innd.Stored

/-!
# The size of a stored article

The server takes the octets that are stored, less the terminator and a dot for each line of the body
that starts with one. It does not look at the lines up to the first one of the body.
-/

namespace Inn.Innd

open Foundation.Scanning Foundation.Splicing Foundation.Stuffing Foundation.Terminated
open List (drop_drop append_assoc length_append)

def BytesValue (site : Site) (data Xref : Octets) (cp : Channel) : Int :=
  (ARTstore site data Xref cp).length - (3 + cp.DotStuffedLines)

section Turns

variable {xrefslave : Bool} {data : Octets} {cp cp' : Channel}

theorem noteOctet_DotStuffedLines (place : String) (c : UInt8) (cp : Channel) :
    (noteOctet place c cp).DotStuffedLines = cp.DotStuffedLines := by
  rw [noteOctet]
  split <;> split <;> rfl

theorem ARTcheckheader_DotStuffedLines (xrefslave : Bool) (cp : Channel) (header : Octets) :
    (ARTcheckheader xrefslave cp header).DotStuffedLines = cp.DotStuffedLines := by
  rw [ARTcheckheader]
  split
  · rfl
  split
  · rfl
  split
  · split
    · rfl
    · rfl
  next i _ =>
    have hnoted : (noteBytes i cp).DotStuffedLines = cp.DotStuffedLines := by
      rw [noteBytes]
      split
      · rfl
      · rfl
    rw [recordHeader]
    split
    · split
      · exact hnoted
      · exact hnoted
    · exact hnoted

theorem headerLine_DotStuffedLines (xrefslave : Bool) (data : Octets) (cp : Channel) :
    (headerLine xrefslave data cp).DotStuffedLines = cp.DotStuffedLines := by
  have hfield :
      ∀ i, (endHeader xrefslave data { cp with HeaderLines := cp.HeaderLines + 1 }
        i).DotStuffedLines =
      cp.DotStuffedLines := fun i => ARTcheckheader_DotStuffedLines ..
  rw [headerLine]
  by_cases hstart : cp.Next = cp.Start
  · simp only [if_pos hstart]
    split
    · rfl
    · rfl
  · simp only [if_neg hstart]
    split <;> (dsimp only [Channel.advance]; split)
    · rfl
    · exact hfield _
    · rfl
    · exact hfield _

theorem headerTurn_DotStuffedLines (hturn : headerTurn xrefslave data cp = some cp') :
    cp'.DotStuffedLines = cp.DotStuffedLines := by
  rw [headerTurn] at hturn
  split at hturn
  · cases hturn
  cases hoctet : data[cp.Next]? with
  | none => simp [hoctet] at hturn
  | some c =>
    simp only [hoctet] at hturn
    split at hturn
    · cases hturn
      exact noteOctet_DotStuffedLines ..
    split at hturn
    · cases hturn
      rfl
    split at hturn
    · cases hturn
    split at hturn
    · split at hturn
      · cases hturn
        rfl
      · cases hturn
        rfl
    split at hturn
    · cases hturn
      exact headerLine_DotStuffedLines ..
    · cases hturn
      rfl

def toCount (data : Octets) (place : Nat) : Nat := stuffs CR LF 46 (data.drop place)

theorem toCount_succ {place : Nat} (hline : slice data place 3 ≠ [CR, LF, 46]) :
    toCount data place = toCount data (place + 1) := by
  rw [toCount, toCount]
  cases hrest : data.drop place with
  | nil => rw [← drop_drop, hrest, List.drop_nil]
  | cons c rest =>
    have hskip : ¬(c = CR ∧ rest.take 2 = [LF, 46]) := by
      rintro ⟨rfl, htake⟩
      rw [slice, hrest, List.take_succ_cons, htake] at hline
      exact hline rfl
    rw [stuffs, if_neg hskip, Nat.zero_add, ← drop_drop, hrest]
    rfl

theorem slice_dot {place : Nat} : slice data place 3 = [CR, LF, 46] ↔
    data[place]? = some CR ∧ data[place + 1]? = some LF ∧ data[place + 2]? = some 46 := by
  rw [@slice_eq_iff data place [CR, LF, 46] 3 rfl]
  constructor
  · intro hall
    exact ⟨hall 0 (by decide), hall 1 (by decide), hall 2 (by decide)⟩
  · rintro ⟨h0, h1, h2⟩ i hi
    interval_cases i <;> assumption

theorem toCount_crlf {place : Nat} (hcr : data[place]? = some CR)
    (hlf : data[place + 1]? = some LF) :
    toCount data place = (if data[place + 2]? = some 46 then 1 else 0) +
      toCount data (place + 2) := by
  have hnext : toCount data (place + 1) = toCount data (place + 2) := by
    refine toCount_succ fun hdot => ?_
    exact LF_ne_CR (hlf.symm.trans (slice_dot.mp hdot).1)
  split
  next hdot =>
    obtain ⟨hinside, hget⟩ := List.getElem?_eq_some_iff.mp hcr
    have htake : (data.drop (place + 1)).take 2 = [LF, 46] := by
      have := slice_dot.mpr ⟨hcr, hlf, hdot⟩
      rw [slice, List.drop_eq_getElem_cons hinside, List.take_succ_cons] at this
      exact (List.cons.inj this).2
    rw [← hnext, toCount, List.drop_eq_getElem_cons hinside, stuffs, if_pos ⟨hget, htake⟩]
    rfl
  next hdot =>
    rw [Nat.zero_add, ← hnext]
    exact toCount_succ fun hline => hdot (slice_dot.mp hline).2.2

inductive Counted (data : Octets) (cp : Channel) : Prop
  | wrong : cp.Error ≠ [] → Counted data cp
  | header : cp.State = .CSgetheader → cp.DotStuffedLines = 0 → Counted data cp
  | body : cp.State = .CSgetbody → cp.Body ≤ cp.Next →
      cp.DotStuffedLines + toCount data cp.Next = toCount data cp.Body → Counted data cp
  | empty : cp.State = .CSgotarticle → slice data cp.Body 3 = dotLine → cp.Next = cp.Body + 3 →
      cp.DotStuffedLines = 0 → Counted data cp
  | ended (j : Nat) : cp.State = .CSgotarticle → cp.Body ≤ j → slice data j 5 = terminator →
      cp.Next = j + 5 →
      cp.DotStuffedLines + toCount data j = toCount data cp.Body → Counted data cp

theorem counted_headerTurn (hcount : cp.DotStuffedLines = 0)
    (hturn : headerTurn xrefslave data cp = some cp') :
    Counted data cp' := by
  have hsame := headerTurn_DotStuffedLines hturn
  by_cases hclean : cp'.Error = []
  swap
  · exact .wrong hclean
  cases headerTurn_clean hturn hclean with
  | octet _ _ hstate _ => exact .header hstate (hsame.trans hcount)
  | folded _ _ _ _ hstate _ => exact .header hstate (hsame.trans hcount)
  | field _ _ _ _ _ _ hends =>
    rcases hends with ⟨-, hstate, hnext, hbody⟩ | ⟨-, hstate, -⟩
    · rw [← hbody] at hnext
      exact .body hstate (Nat.le_of_eq hnext.symm) (by rw [hsame, hcount, Nat.zero_add, hnext])
    · exact .header hstate (hsame.trans hcount)

theorem counted_bodyTurn (hstate : cp.State = .CSgetbody) (hle : cp.Body ≤ cp.Next)
    (hcount : cp.DotStuffedLines + toCount data cp.Next = toCount data cp.Body)
    (hturn : bodyTurn data cp = some cp') : Counted data cp' := by
  have heat : ¬cp.State = .CSeatarticle := by simp [hstate]
  rw [bodyTurn, if_neg fun h => h.1 hstate] at hturn
  simp only [if_neg heat] at hturn
  cases hoctet : data[cp.Next]? with
  | none => simp [hoctet] at hturn
  | some c =>
    simp only [hoctet] at hturn
    by_cases hcr : c ≠ CR
    · rw [if_pos hcr] at hturn
      cases hturn
      have hbody := (notes_noteOctet "body" c cp).Body
      refine .body hstate (Nat.le_succ_of_le (hbody.le.trans hle)) ?_
      have hskip : toCount data cp.Next = toCount data (cp.Next + 1) :=
        toCount_succ fun hdot => hcr (Option.some.inj (hoctet.symm.trans (slice_dot.mp hdot).1))
      rw [advance_Next, advance_Body, hbody, ← hskip, ← hcount]
      exact congrArg (· + _) (noteOctet_DotStuffedLines ..)
    rw [if_neg hcr] at hturn
    rw [not_not] at hcr
    subst hcr
    split at hturn
    next hempty =>
      cases hturn
      obtain ⟨hnext, -, hdot⟩ := hempty
      have hdot' : slice data cp.Body 3 = dotLine := by rwa [hnext, Nat.add_sub_cancel] at hdot
      have hskip : toCount data cp.Body = toCount data (cp.Body + 1) :=
        toCount_succ fun hline =>
          dot_ne_CR ((dotLine_iff.mp hdot').1.symm.trans (slice_dot.mp hline).1)
      rw [hskip, hnext] at hcount
      exact .empty rfl hdot' (by rw [advance_Next, hnext, advance_Body])
        (Nat.add_eq_right.mp hcount)
    split at hturn
    · cases hturn
    split at hturn
    next hends =>
      cases hturn
      exact .ended cp.Next rfl hle hends rfl hcount
    split at hturn
    next hlf =>
      cases hturn
      refine .body hstate (Nat.le_add_right_of_le hle) ?_
      rw [← hcount, toCount_crlf hoctet hlf]
      exact Nat.add_assoc ..
    next hlf =>
      cases hturn
      refine .body hstate (Nat.le_succ_of_le hle) ?_
      rw [← hcount]
      exact congrArg _ (toCount_succ fun hdot => hlf (slice_dot.mp hdot).2.1).symm

theorem counted_articleTurn (hcounted : Counted data cp)
    (hturn : articleTurn xrefslave data cp = some cp') :
    Counted data cp' := by
  cases hcounted with
  | wrong herror => exact .wrong (articleTurn_error hturn herror)
  | header hstate hcount =>
    rw [articleTurn, if_pos hstate] at hturn
    exact counted_headerTurn hcount hturn
  | body hstate hle hcount =>
    rw [articleTurn, if_neg (by rw [hstate]; decide)] at hturn
    exact counted_bodyTurn hstate hle hcount hturn
  | empty hstate => exact absurd hturn (by rw [articleTurn_finished (.inr hstate)]; nofun)
  | ended _ hstate => exact absurd hturn (by rw [articleTurn_finished (.inr hstate)]; nofun)

theorem counted_ARTparse (xrefslave : Bool) (data : Octets) (Start : Nat) (ihave : Bool) :
    Counted data (ARTparse xrefslave data (ARTprepare Start ihave)) := by
  rw [ARTparse_eq]
  exact invariant_of_reaches counted_articleTurn ((articleParser xrefslave).reaches_scan _ _)
    (.header rfl rfl)

end Turns

section Accepting

variable {site : Site} {data Xref : Octets} {cp : Channel} {Start : Nat}

theorem Counted.body_lines (hcounted : Counted data cp) (hstate : cp.State = .CSgotarticle)
    (herror : cp.Error = []) (hinside : cp.Next ≤ data.length) :
    ∃ front, between data cp.Body cp.Next = front ++ dotLine ∧ (front = [] ∨ [CR, LF] <:+ front) ∧
      cp.DotStuffedLines = stuffs CR LF 46 front := by
  cases hcounted with
  | wrong h => exact absurd herror h
  | header h => exact absurd (h.symm.trans hstate) (by decide)
  | body h => exact absurd (h.symm.trans hstate) (by decide)
  | empty _ hdot hnext hcount =>
    refine ⟨[], ?_, .inl rfl, hcount⟩
    rw [hnext, between, Nat.add_sub_cancel_left]
    exact hdot
  | ended j _ hle hends hnext hcount =>
    have hrest : data.drop cp.Body = between data cp.Body j ++ data.drop j := by
      rw [between]
      conv_lhs => rw [← List.take_append_drop (j - cp.Body) (data.drop cp.Body)]
      rw [drop_drop, Nat.add_sub_cancel' hle]
    have hlast : data.drop j = terminator ++ data.drop (j + 5) := by
      conv_lhs => rw [← List.take_append_drop 5 (data.drop j)]
      rw [drop_drop]
      exact congrArg (· ++ _) hends
    have hlength : (between data cp.Body j).length = j - cp.Body := by
      rw [between, List.length_take, List.length_drop]
      omega
    refine ⟨between data cp.Body j ++ [CR, LF], ?_, .inr (List.suffix_append ..), ?_⟩
    · rw [between, hrest, hlast, ← append_assoc, List.take_left', append_assoc]
      · rfl
      · rw [length_append, hlength, hnext]
        exact Nat.sub_add_comm hle ▸ rfl
    · rw [toCount, toCount, hrest, hlast] at hcount
      have hdivided :=
        @stuffs_append _ _ CR LF 46 (between data cp.Body j) (46 :: CR :: LF :: data.drop (j + 5))
      exact Nat.add_right_cancel (hcount.trans hdivided)

theorem Ends.not_mem_lines {e : Nat} {front : Octets} (hends : Ends data Start e)
    (hline : [CR, LF] <:+ front)
    (hfront : between data Start e = front ++ dotLine) : [46] ∉ lines CR LF front := by
  intro hmem
  have hinside := hends.inside
  have hlength := congrArg List.length hfront
  rw [between, List.length_take, List.length_drop, length_append] at hlength
  have htext : ∀ place n, place + n ≤ e - Start →
      slice data (Start + place) n = slice (front ++ dotLine) place n := by
    intro place n hle
    rw [← hfront, slice, slice, between, List.drop_take, List.take_take, drop_drop,
      Nat.min_eq_left (by omega)]
  obtain ⟨before, after, hbefore, hstart⟩ := mem_lines (by decide) (.inr hline) hmem
  have hplace := congrArg List.length hbefore
  simp only [length_append, List.length_cons, List.length_nil] at hplace
  have hdot : slice data (Start + before.length) 3 = dotLine := by
    rw [htext _ _ (by omega), hbefore, slice]
    simp only [append_assoc, List.drop_left]
    rfl
  rcases hends with ⟨-, he⟩ | ⟨hnone, j, hle, hends, rfl, hfirst⟩
  · have hfew := hline.length_le
    simp only [dotLine, List.length_cons, List.length_nil] at hlength hfew
    omega
  · rcases hstart with rfl | ⟨first, rfl⟩
    · exact hnone hdot
    · refine hfirst (Start + first.length) (Nat.le_add_right ..) ?_ ?_
      · simp only [dotLine, length_append, List.length_cons, List.length_nil] at hlength hplace
        omega
      · rw [htext _ _ (by simp only [length_append, List.length_cons,
          List.length_nil] at hplace; omega), hbefore, slice]
        simp only [append_assoc, List.drop_left]
        rfl

/-- No line of the header starts with a dot, nor does a body. -/
structure FirstLinesPlain (fields : List Octets) (body : Octets) : Prop where
  header : ∀ line ∈ lines CR LF (fields.flatten ++ [CR, LF]), dotted 46 line = false
  body : body.head? = some 46 → body = dotLine

/-- The size is that of the article as it is stored, less what the dots in front of its lines and
the terminator take up. -/
theorem BytesValue_eq (site : Site) (Xref : Octets) (ihave : Bool) (before : Octets)
    (portions : List Octets) (haccepted : Accepted site
      (ARTreceive site.xrefslave before (ARTprepare before.length ihave) portions)) :
    let data := before ++ portions.flatten
    let cp := ARTreceive site.xrefslave before (ARTprepare before.length ihave) portions
    let received := between data before.length cp.Next
    ∀ fields body, HeaderFields fields → received = fields.flatten ++ [CR, LF] ++ body →
      FirstLinesPlain fields body →
      BytesValue site data Xref cp =
        (ARTstore site data Xref cp).length -
          ((received.length : Int) - (unstuffed CR LF 46 received).length) := by
  have hwhole := (ARTreceive_whole site.xrefslave ihave before portions).1
  dsimp only
  rw [hwhole] at haccepted ⊢
  have hscanned := scanned_ARTparse site.xrefslave (before ++ portions.flatten) before.length ihave
  have hends := ends_of_finished hscanned (.inr haccepted.State)
  have hknown := known_ARTparse site.xrefslave (before ++ portions.flatten) before.length ihave
  have hcounted := counted_ARTparse site.xrefslave (before ++ portions.flatten) before.length ihave
  generalize ARTparse site.xrefslave (before ++ portions.flatten) (ARTprepare before.length ihave) =
    cp at *
  intro fields body hfields hsplit hplain
  cases hknown with
  | wrong herror => exact absurd haccepted.Error herror
  | header _ hstate => exact absurd (hstate.symm.trans haccepted.State) (by decide)
  | body fields' _ hcollected hbody hempty hle =>
    obtain ⟨hdata, hnext⟩ := hcollected.received hbody hempty hle hends.inside
    have hreceived : between (before ++ portions.flatten) before.length cp.Next =
        fields'.flatten ++ [CR, LF] ++ between (before ++ portions.flatten) cp.Body cp.Next := by
      rw [between, hdata, List.take_left' (by omega)]
    obtain ⟨rfl, rfl⟩ := hfields.unique hcollected.header (hsplit.symm.trans hreceived)
    obtain ⟨front, hfront, hline, hcount⟩ :=
      hcounted.body_lines haccepted.State haccepted.Error hends.inside
    have hheader : [CR, LF] <:+ fields.flatten ++ [CR, LF] := List.suffix_append ..
    have hlines : lines CR LF (fields.flatten ++ [CR, LF] ++ front) =
        lines CR LF (fields.flatten ++ [CR, LF]) ++ lines CR LF front :=
          lines_append (by decide) (.inr hheader) front
    have hfirst : ¬front.head? = some 46 := by
      intro hdot
      have hbody := hplain.body (by rw [hfront, List.head?_append, hdot]; rfl)
      rw [hfront] at hbody
      rw [List.append_left_eq_self.mp hbody] at hdot
      cases hdot
    have hdots : (lines CR LF (fields.flatten ++ [CR, LF] ++ front)).countP (dotted 46) =
        cp.DotStuffedLines := by
      have hnone : (lines CR LF (fields.flatten ++ [CR, LF])).countP (dotted 46) = 0 :=
        List.countP_eq_zero.mpr fun line hmem => Bool.eq_false_iff.mp (hplain.header line hmem)
      rw [hlines, List.countP_append, hnone, countP_lines (by decide) (by decide), if_neg hfirst,
        hcount, Nat.zero_add,
        Nat.zero_add]
    have hlast : [CR, LF] <:+ fields.flatten ++ [CR, LF] ++ front := by
      rcases hline with rfl | hline
      · rwa [List.append_nil]
      · exact hline.trans (List.suffix_append ..)
    rw [hfront, ← append_assoc] at hsplit
    have hsize := length_unstuffed (by decide) (.inr hlast) (hends.not_mem_lines hlast hsplit)
    rw [hdots] at hsize
    rw [BytesValue, hsplit]
    have hwithout : ((fields.flatten ++ [CR, LF] ++ front ++ dotLine).length : Int) =
        (fields.flatten ++ [CR, LF] ++ front).length + 3 := by
      rw [length_append]
      rfl
    have hdotLine : dotLine = [46, CR, LF] := rfl
    rw [hwithout, hdotLine]
    omega

end Accepting

def dottedArticle : Octets := testFields.flatten ++ octets "\r\nbody\r\n..\r\n.\r\n"

theorem BytesValue_dottedArticle :
    BytesValue (newsSite false) dottedArticle (Numbering.master newsHost oneGroup [miscTest]).Xref
        (ARTreceive false [] (ARTprepare 0 true) [dottedArticle]) = 147 := by
  have hall : Accepted (newsSite false) (ARTreceive false [] (ARTprepare 0 true) [dottedArticle]) ∧
      (between ([] ++ [dottedArticle].flatten) ([] : Octets).length
        (ARTreceive (newsSite false).xrefslave [] (ARTprepare ([] : Octets).length true)
          [dottedArticle]).Next =
          testFields.flatten ++ [CR, LF] ++ octets "body\r\n..\r\n.\r\n") ∧
      (∀ line ∈ lines CR LF (testFields.flatten ++ [CR, LF]), dotted 46 line = false) ∧
      (octets "body\r\n..\r\n.\r\n").head? ≠ some 46 := by
    decide +kernel
  obtain ⟨haccepted, hsplit, hheader, hbody⟩ := hall
  refine (BytesValue_eq (newsSite false) (Numbering.master newsHost oneGroup [miscTest]).Xref true
    [] [dottedArticle]
    haccepted testFields (octets "body\r\n..\r\n.\r\n") testFields_regular.1 hsplit
    ⟨hheader, fun hdot => absurd hdot hbody⟩).trans ?_
  decide +kernel

/-- The article that is stored has another Path and no Bytes, and so another size than the one
received. -/
theorem not_size_received :
    ¬∀ (site : Site) (host : Numbering.Host) (active : Numbering.Active)
      (groups : List Numbering.Name) (ihave : Bool)
      (data : Octets), Accepted site (ARTreceive site.xrefslave [] (ARTprepare 0 ihave) [data]) →
      let cp := ARTreceive site.xrefslave [] (ARTprepare 0 ihave) [data]
      BytesValue site data (Numbering.master host active groups).Xref cp =
        (unstuffed CR LF 46 (between data 0 cp.Next)).length := by
  intro hall
  have hsize :=
    hall (newsSite true) newsHost oneGroup [miscTest] true testArticle (testArticle_accepted true)
  revert hsize
  decide +kernel

end Inn.Innd
