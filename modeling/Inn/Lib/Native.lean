import Inn.Octets

/-!
# Wire format and native format

Two functions turn an article into the other format. Each goes over the article twice: it
counts the octets of the new article first, and makes it when there is memory for them.
-/

namespace Inn.Lib.Native

structure Converted where
  octets : Octets
  newlen : Nat
  deriving DecidableEq

def fromNative : Bool → Octets → Octets
  | _, [] => []
  | atStart, c :: rest =>
    if c = 10 then 13 :: 10 :: fromNative true rest
    else if atStart ∧ c = 46 then 46 :: c :: fromNative false rest
    else c :: fromNative false rest

def fromNativeBytes : Bool → Octets → Nat
  | _, [] => 0
  | atStart, c :: rest =>
    (if atStart ∧ c = 46 then 1 else 0) + 1 + (if c = 10 then 1 else 0) +
      fromNativeBytes (c = 10) rest

def wireFromNative (article : Octets) : Converted :=
  ⟨fromNative true article ++ [46, 13, 10], fromNativeBytes true article + 3⟩

def toNative : Bool → Octets → Octets
  | _, [] => []
  | _, [c] => [c]
  | atStart, c :: d :: rest =>
    if c :: d :: rest = [46, 13, 10] then []
    else if atStart ∧ c = 46 ∧ d = 46 then 46 :: toNative false rest
    else if c = 13 ∧ d = 10 then 10 :: toNative true rest
    else c :: toNative false (d :: rest)

def toNativeBytes : Bool → Octets → Nat
  | _, [] => 0
  | _, [_] => 1
  | atStart, c :: d :: rest =>
    if c :: d :: rest = [46, 13, 10] then 0
    else if atStart ∧ c = 46 ∧ d = 46 then 1 + toNativeBytes false rest
    else if c = 13 ∧ d = 10 then 1 + toNativeBytes true rest
    else 1 + toNativeBytes false (d :: rest)

def xstrndup (s : Octets) (size : Nat) : Octets := (s.take size).takeWhile (· ≠ 0)

def wireToNative (article : Octets) : Converted :=
  if article.length < 3 then ⟨xstrndup article article.length, article.length⟩
  else ⟨toNative true article, toNativeBytes true article⟩

section Stuffing

inductive Stuffs : Bool → Octets → Octets → Prop
  | done (atStart : Bool) : Stuffs atStart [] [46, 13, 10]
  | line {atStart : Bool} {native wire : Octets} (rest : Stuffs true native wire) :
      Stuffs atStart (10 :: native) (13 :: 10 :: wire)
  | dot {native wire : Octets} (rest : Stuffs false native wire) :
      Stuffs true (46 :: native) (46 :: 46 :: wire)
  | octet {atStart : Bool} {c : UInt8} {native wire : Octets} (feed : c ≠ 10)
      (plain : ¬(atStart = true ∧ c = 46))
      (rest : Stuffs false native wire) : Stuffs atStart (c :: native) (c :: wire)

theorem stuffs_fromNative (atStart : Bool) (native : Octets) :
    Stuffs atStart native (fromNative atStart native ++ [46, 13, 10]) := by
  induction native generalizing atStart with
  | nil => exact .done atStart
  | cons c native ih =>
    rw [fromNative]
    split_ifs with hfeed hdot
    · subst hfeed
      exact .line (ih true)
    · obtain ⟨rfl, rfl⟩ := hdot
      exact .dot (ih false)
    · exact .octet hfeed hdot (ih false)

variable {atStart : Bool} {native wire : Octets}

theorem Stuffs.wire_eq (h : Stuffs atStart native wire) :
    fromNative atStart native ++ [46, 13, 10] = wire := by
  induction h with
  | done => rfl
  | line _ ih => rw [fromNative, if_pos rfl, List.cons_append, List.cons_append, ih]
  | dot _ ih =>
    rw [fromNative, if_neg (by decide), if_pos ⟨rfl, rfl⟩, List.cons_append, List.cons_append, ih]
  | octet hfeed hplain _ ih => rw [fromNative, if_neg hfeed, if_neg hplain, List.cons_append, ih]

theorem Stuffs.starts (h : Stuffs atStart native wire) :
    3 ≤ wire.length ∧ wire.head? ≠ some 10 := by
  induction h with
  | done => decide
  | line _ ih => exact ⟨Nat.le_add_right_of_le (Nat.le_add_right_of_le ih.1), by simp⟩
  | dot _ ih => exact ⟨Nat.le_add_right_of_le (Nat.le_add_right_of_le ih.1), by simp⟩
  | octet hfeed _ _ ih => exact ⟨Nat.le_add_right_of_le ih.1, fun h => hfeed (Option.some.inj h)⟩

theorem Stuffs.native_eq (h : Stuffs atStart native wire) : toNative atStart wire = native := by
  induction h with
  | done => rfl
  | line _ ih => rw [toNative, if_neg (by simp), if_neg (by simp), if_pos ⟨rfl, rfl⟩, ih]
  | dot _ ih => rw [toNative, if_neg (by simp), if_pos ⟨rfl, rfl, rfl⟩, ih]
  | @octet atStart c native wire hfeed hplain hrest ih =>
    obtain ⟨hlength, hhead⟩ := hrest.starts
    cases wire with
    | nil => exact absurd hlength (by decide)
    | cons d wire =>
      have hlong : c :: d :: wire ≠ [46, 13, 10] := by
        rintro heq
        rw [(List.cons.inj heq).2] at hlength
        exact absurd hlength (by decide)
      have hline : ¬(c = 13 ∧ d = 10) := fun h => hhead (congrArg some h.2)
      rw [toNative, if_neg hlong, if_neg (fun h => hplain ⟨h.1, h.2.1⟩), if_neg hline, ih]

end Stuffing

structure Lines (before : UInt8) (text : Octets) : Prop where
  feeds : ∀ i : Nat, text[i]? = some 10 → (before :: text)[i]? = some 13
  dots : ∀ i : Nat, (before :: text)[i]? = some 10 → text[i]? = some 46 → text[i + 1]? = some 46

/-- CRLF line ends, stuffed dots, and a dot at the end. -/
def WireFormat (article : Octets) : Prop := ∃ text, article = text ++ [46, 13, 10] ∧ Lines 10 text

theorem Lines.tail {before c : UInt8} {text : Octets} (h : Lines before (c :: text)) :
    Lines c text :=
  ⟨fun i => h.feeds (i + 1), fun i => h.dots (i + 1)⟩

theorem Lines.head {before : UInt8} {text : Octets} (h : Lines before text)
    (hbefore : before ≠ 13) :
    text.head? ≠ some 10 := by
  intro hhead
  have hfeed := h.feeds 0 (by rw [← List.head?_eq_getElem?, hhead])
  exact hbefore (Option.some.inj hfeed)

theorem Lines.stuffs {before : UInt8} {text : Octets} (h : Lines before text)
    (hhead : text.head? ≠ some 10) :
    ∃ native, Stuffs (before = 10) native (text ++ [46, 13, 10]) := by
  induction hlength : text.length using Nat.strongRecOn generalizing before text with
  | ind n ih =>
    cases text with
    | nil => exact ⟨[], .done _⟩
    | cons c text =>
      have hfeed : c ≠ 10 := fun hc => hhead (congrArg some hc)
      by_cases hdot : before = 10 ∧ c = 46
      · obtain ⟨rfl, rfl⟩ := hdot
        have hsecond := h.dots 0 rfl rfl
        obtain ⟨rest, rfl⟩ : ∃ rest, text = 46 :: rest := by
          cases text with
          | nil => cases hsecond
          | cons d rest => exact ⟨rest, by rw [Option.some.inj hsecond]⟩
        obtain ⟨native, hnative⟩ :=
          ih rest.length (by rw [← hlength]; exact Nat.lt_add_right 1 (Nat.lt_succ_self _))
          h.tail.tail
          (h.tail.tail.head (by decide)) rfl
        exact ⟨46 :: native, .dot hnative⟩
      · by_cases hline : c = 13 ∧ text.head? = some 10
        · obtain ⟨rfl, hnext⟩ := hline
          obtain ⟨rest, rfl⟩ := List.head?_eq_some_iff.mp hnext
          obtain ⟨native, hnative⟩ :=
            ih rest.length (by rw [← hlength]; exact Nat.lt_add_right 1 (Nat.lt_succ_self _))
            h.tail.tail
            (h.tail.tail.head (by decide)) rfl
          exact ⟨10 :: native, .line hnative⟩
        · have hnext : text.head? ≠ some 10 := by
            intro hten
            have hcr := h.feeds 1 (by rw [List.getElem?_cons_succ, ← List.head?_eq_getElem?, hten])
            exact hline ⟨Option.some.inj hcr, hten⟩
          obtain ⟨native, hnative⟩ := ih text.length (by rw [← hlength]; simp) h.tail hnext rfl
          rw [decide_eq_false hfeed] at hnative
          exact ⟨c :: native, .octet hfeed (fun h => hdot ⟨of_decide_eq_true h.1, h.2⟩) hnative⟩

theorem WireFormat.stuffs (h : WireFormat wire) : ∃ native, Stuffs true native wire := by
  obtain ⟨text, rfl, hlines⟩ := h
  exact hlines.stuffs (hlines.head (by decide))

theorem fromNativeBytes_eq (atStart : Bool) (native : Octets) :
    fromNativeBytes atStart native = (fromNative atStart native).length := by
  induction native generalizing atStart with
  | nil => rfl
  | cons c native ih =>
    rw [fromNativeBytes, fromNative, ih]
    split_ifs with hdot hfeed hfeed
    · exact absurd (hdot.2.symm.trans hfeed) (by decide)
    · simp only [hfeed, decide_false, List.length_cons]
      omega
    · simp only [hfeed, decide_true, List.length_cons]
      omega
    · simp only [hfeed, decide_false, List.length_cons]
      omega

theorem toNativeBytes_eq (atStart : Bool) (wire : Octets) :
    toNativeBytes atStart wire = (toNative atStart wire).length := by
  fun_induction toNativeBytes atStart wire with
  | case1 => rfl
  | case2 => rfl
  | case3 _ c d rest hend => rw [toNative, if_pos hend, List.length_nil]
  | case4 _ c d rest hend hdot ih => rw [toNative, if_neg hend, if_pos hdot, List.length_cons,
      ih, Nat.add_comm]
  | case5 _ c d rest hend hdot hline ih =>
    rw [toNative, if_neg hend, if_neg hdot, if_pos hline, List.length_cons, ih, Nat.add_comm]
  | case6 _ c d rest hend hdot hline ih =>
    rw [toNative, if_neg hend, if_neg hdot, if_neg hline, List.length_cons, ih, Nat.add_comm]

theorem xstrndup_length_iff (article : Octets) :
    article.length = (xstrndup article article.length).length ↔ 0 ∉ article := by
  rw [xstrndup, List.take_length]
  constructor
  · intro hlength hnul
    have hwhole := (List.takeWhile_prefix (l := article) (· ≠ 0)).eq_of_length hlength.symm
    exact of_decide_eq_true (List.takeWhile_eq_self_iff.mp hwhole 0 hnul) rfl
  · intro hnul
    have hwhole : article.takeWhile (· ≠ 0) = article :=
      List.takeWhile_eq_self_iff.mpr fun c hc => decide_eq_true fun heq => hnul (heq ▸ hc)
    rw [hwhole]

/-- The two conversions undo each other, and tell the lengths. -/
structure Faithful (article : Octets) : Prop where
  native : (wireToNative (wireFromNative article).octets).octets = article
  wire : WireFormat article → (wireFromNative (wireToNative article).octets).octets = article
  fromLength : (wireFromNative article).newlen = (wireFromNative article).octets.length
  toLength : (wireToNative article).newlen = (wireToNative article).octets.length

theorem wireToNative_long {article : Octets} (hlong : 3 ≤ article.length) :
    wireToNative article = ⟨toNative true article, toNativeBytes true article⟩ :=
      if_neg (Nat.not_lt.mpr hlong)

theorem native_round_trip (article : Octets) :
    (wireToNative (wireFromNative article).octets).octets = article := by
  have hstuffs := stuffs_fromNative true article
  rw [wireFromNative, wireToNative_long hstuffs.starts.1]
  exact hstuffs.native_eq

theorem wire_round_trip {article : Octets} (hwire : WireFormat article) :
    (wireFromNative (wireToNative article).octets).octets = article := by
  obtain ⟨native, hstuffs⟩ := hwire.stuffs
  rw [wireToNative_long hstuffs.starts.1, hstuffs.native_eq]
  exact hstuffs.wire_eq

theorem wireFromNative_length (article : Octets) :
    (wireFromNative article).newlen = (wireFromNative article).octets.length := by
  rw [wireFromNative, fromNativeBytes_eq, List.length_append]
  rfl

theorem wireToNative_length_iff (article : Octets) :
    (wireToNative article).newlen = (wireToNative article).octets.length ↔
      3 ≤ article.length ∨ 0 ∉ article := by
  by_cases hlong : 3 ≤ article.length
  · rw [wireToNative_long hlong]
    exact ⟨fun _ => .inl hlong, fun _ => toNativeBytes_eq true article⟩
  · rw [wireToNative, if_pos (Nat.not_le.mp hlong), or_iff_right hlong]
    exact xstrndup_length_iff article

/-- A copy of an article that is shorter than the last line ends at a nul in it. -/
theorem faithful_iff (article : Octets) : Faithful article ↔ 3 ≤ article.length ∨ 0 ∉ article := by
  rw [← wireToNative_length_iff]
  exact ⟨Faithful.toLength, fun hlength =>
    ⟨native_round_trip article, wire_round_trip, wireFromNative_length article, hlength⟩⟩

/-- The nul of an article of two octets ends the copy, and the length is still two. -/
theorem not_faithful : ¬∀ article, Faithful article := by
  intro h
  exact absurd (h [0, 97]).toLength (by decide)

end Inn.Lib.Native
