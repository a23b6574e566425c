import Inn.Innfeed.ConnectionRuns

/-!
# The responses of a stream

The lines of a stream are handled in their order, each of them once, however the
stream is split into reads, unless a line is empty or begins with a carriage return
behind a line feed, or has a null byte in it. Where it ends depends on the connection:
it stops at a line without a code, and when it leaves the states in which it reads.
-/

namespace Inn.Innfeed

open Foundation.Lines
open List (append_assoc cons_append length_cons drop_left append_nil length_append)

def stripCR (raw : Octets) : Octets := if raw.getLast? = some CR then raw.dropLast else raw

theorem stripCR_concat (raw : Octets) (last : UInt8) :
    stripCR (raw ++ [last]) = if last = CR then raw else raw ++ [last] := by
  rw [stripCR, List.getLast?_concat, List.dropLast_concat]
  simp only [Option.some.injEq]

variable {Cxn : Type}

/-- A line of the stream as a response with its code, if it has one. -/
def responseOf (raw : Octets) : Option (Nat × Octets) :=
  (getNntpResponse (stripCR raw)).map fun found => (found.1, stripCR raw)

/-- The first lines are handled, each of them once and in their order: all of them while the
connection reads on, and else up to a line without a code, or to where the connection does not read
any more. -/
def Delivered (h : Handlers Cxn) (lines : List Octets) (r : Reading Cxn)
    (out : List (Nat × Octets)) : Prop :=
  ∃ rest, lines.map responseOf = out.map some ++ rest ∧ (r.reading = true → rest = []) ∧
    (r.reading = false → h.reads r.cxn = false ∨ rest.head? = some none)

def Clean : Bool → List Octets → Octets → Prop
  | first, [], tail => first = true ∨ tail.head? ≠ some 0 ∧ tail.head? ≠ some CR
  | first, raw :: rest, tail =>
    raw ≠ [] ∧ 0 ∉ raw ∧ (first = true ∨ raw.head? ≠ some CR) ∧
      ((getNntpResponse (stripCR raw)).isSome = true → Clean false rest tail)

instance : ∀ first raws tail, Decidable (Clean first raws tail)
  | _, [], _ => inferInstanceAs (Decidable (_ ∨ _))
  | _, _ :: rest, tail =>
    have := instDecidableClean false rest tail
    inferInstanceAs (Decidable (_ ∧ _ ∧ _ ∧ _))

def CleanStream (first : Bool) (stream : Octets) : Prop :=
    Clean first (pieces LF stream).1 (pieces LF stream).2

instance (first : Bool) (stream : Octets) : Decidable (CleanStream first stream) :=
  inferInstanceAs (Decidable (Clean _ _ _))

theorem CleanStream.mono {first : Bool} {stream : Octets} (hclean : CleanStream first stream) :
    CleanStream true stream := by
  unfold CleanStream at *
  cases hraws : (pieces LF stream).1 with
  | nil => exact .inl rfl
  | cons raw rest =>
    rw [hraws] at hclean
    exact ⟨hclean.1, hclean.2.1, .inl rfl, hclean.2.2.2⟩

theorem cleanStream_last {first : Bool} {s : Octets} (hs : LF ∉ s) :
    CleanStream first s ↔ first = true ∨ s.head? ≠ some 0 ∧ s.head? ≠ some CR := by
  rw [CleanStream, pieces_of_notMem hs]
  rfl

theorem cleanStream_first {first : Bool} {raw : Octets} (hraw : LF ∉ raw) (rest : Octets) :
    CleanStream first (raw ++ LF :: rest) ↔
      raw ≠ [] ∧ 0 ∉ raw ∧ (first = true ∨ raw.head? ≠ some CR) ∧
        ((getNntpResponse (stripCR raw)).isSome = true → CleanStream false rest) := by
  rw [CleanStream, pieces_first hraw]
  rfl

theorem head?_append_of_ne_nil {s : Octets} (hs : s ≠ []) (more : Octets) :
    (s ++ more).head? = s.head? := by
  cases s with
  | nil => exact absurd rfl hs
  | cons c s => rfl

theorem CleanStream.head {s : Octets} (hclean : CleanStream false s) :
    s.head? ≠ some 0 ∧ s.head? ≠ some CR := by
  induction s using pieces_induction LF with
  | last s hs => exact ((cleanStream_last hs).mp hclean).resolve_left Bool.false_ne_true
  | first raw rest hraw _ =>
    obtain ⟨hne, hnull, hcr, _⟩ := (cleanStream_first hraw rest).mp hclean
    rw [head?_append_of_ne_nil hne]
    refine ⟨fun hhead => hnull ?_, hcr.resolve_left Bool.false_ne_true⟩
    exact List.mem_of_head? hhead

theorem CleanStream.front {s more : Octets} {first : Bool}
    (hclean : CleanStream first (s ++ more)) :
    CleanStream first s := by
  induction s using pieces_induction LF generalizing first with
  | last s hs =>
    rw [cleanStream_last hs]
    cases first with
    | true => exact .inl rfl
    | false =>
      right
      by_cases hnil : s = []
      · rw [hnil]
        exact ⟨nofun, nofun⟩
      · rw [← head?_append_of_ne_nil hnil more]
        exact hclean.head
  | first raw rest hraw ih =>
    rw [append_assoc, cons_append, cleanStream_first hraw] at hclean
    rw [cleanStream_first hraw]
    exact ⟨hclean.1, hclean.2.1, hclean.2.2.1, fun hsome => ih (hclean.2.2.2 hsome)⟩

theorem findLF_of_notMem {t : Octets} (ht : LF ∉ t) (rest : Octets) (p : Nat) :
    findLF (t ++ 0 :: rest) p = .ok none := by
  induction t generalizing p with
  | nil => rfl
  | cons c t ih =>
    rw [List.mem_cons, not_or] at ht
    rw [cons_append, findLF, if_neg (Ne.symm ht.1)]
    split
    · rfl
    · exact ih ht.2 (p + 1)

theorem findLF_first {raw : Octets} (hraw : LF ∉ raw) (hnull : 0 ∉ raw) (rest : Octets) (p : Nat) :
    findLF (raw ++ LF :: rest) p = .ok (some (p + raw.length)) := by
  induction raw generalizing p with
  | nil => rfl
  | cons c raw ih =>
    rw [List.mem_cons, not_or] at hraw hnull
    rw [cons_append, findLF, if_neg (Ne.symm hraw.1), if_neg (Ne.symm hnull.1), ih hraw.2 hnull.2,
      length_cons]
    congr 2
    omega

theorem load_append {P : Octets} {c : UInt8} (rest : Octets) :
    load (P ++ c :: rest) P.length = .ok c := by
  rw [load, List.getElem?_append_right (Nat.le_refl _), Nat.sub_self]
  rfl

theorem strchr_append (P mem : Octets) : strchr (P ++ mem) P.length = findLF mem P.length := by
  rw [strchr, drop_left]

theorem cstring_append {text : Octets} (hnull : 0 ∉ text) (P back : Octets) :
    cstring (P ++ (text ++ 0 :: back)) P.length = .ok text := by
  rw [cstring, drop_left, if_pos (List.mem_append_right text List.mem_cons_self)]
  congr 1
  have hall : ∀ c ∈ text, decide (c ≠ 0) = true := by
    intro c hc
    refine decide_eq_true fun hzero => hnull ?_
    rw [← hzero]
    exact hc
  rw [List.takeWhile_append_of_pos hall, List.takeWhile_cons_of_neg (by decide), append_nil]

theorem set_append (P rest : Octets) (c c' : UInt8) :
    (P ++ c :: rest).set P.length c' = P ++ c' :: rest := by
  rw [List.set_append_right _ _ (Nat.le_refl _), Nat.sub_self]
  rfl

theorem cutResponse_eq (P : Octets) {raw : Octets} (rest : Octets) (c : UInt8) (hne : raw ≠ [])
    (hnull : 0 ∉ raw) :
    ∃ P' endr, P'.length = P.length + raw.length + 1 ∧
      cutResponse (P ++ (raw ++ LF :: c :: rest)) P.length (P.length + raw.length) =
        .ok ⟨P' ++ c :: rest, endr, if c = CR then P'.length + 1 else P'.length, stripCR raw⟩ := by
  have hafter : load (P ++ (raw ++ LF :: c :: rest)) (P.length + raw.length + 1) = .ok c := by
    have hload := load_append (P := P ++ raw ++ [LF]) (c := c) rest
    simpa only [length_append, List.length_singleton, append_assoc, List.singleton_append,
      ← Nat.add_assoc] using hload
  obtain ⟨raw₀, last, rfl⟩ : ∃ raw₀ last, raw = raw₀ ++ [last] :=
    ⟨raw.dropLast, raw.getLast hne, (List.dropLast_append_getLast hne).symm⟩
  have hlength : P.length + (raw₀ ++ [last]).length = P.length + raw₀.length + 1 := by
    rw [length_append, List.length_singleton, Nat.add_assoc]
  have hbefore :
      loadBefore (P ++ (raw₀ ++ [last] ++ LF :: c :: rest)) (P.length + raw₀.length + 1) =
      .ok last := by
    have hload := load_append (P := P ++ raw₀) (c := last) (LF :: c :: rest)
    rw [loadBefore, if_neg (Nat.succ_ne_zero _), Nat.add_sub_cancel]
    simpa only [length_append, append_assoc, List.singleton_append] using hload
  rw [hlength] at hafter ⊢
  rw [List.mem_append, not_or] at hnull
  unfold cutResponse
  rw [hafter, hbefore]
  simp only [bind, Except.bind]
  by_cases hcr : last = CR
  · have hset := set_append (P ++ raw₀) (LF :: c :: rest) last 0
    rw [length_append, append_assoc] at hset
    have hstring := cstring_append hnull.1 P (LF :: c :: rest)
    have hlength' : (P ++ (raw₀ ++ [0, LF])).length = P.length + raw₀.length + 2 := by
      simp only [length_append, length_cons, List.length_nil, Nat.add_assoc]
    refine ⟨P ++ (raw₀ ++ [0, LF]), P.length + raw₀.length, hlength', ?_⟩
    rw [if_pos hcr, Nat.add_sub_cancel, stripCR_concat, if_pos hcr, hlength']
    simp only [append_assoc, List.singleton_append, hset, hstring]
    rfl
  · have hset := set_append (P ++ (raw₀ ++ [last])) (c :: rest) LF 0
    rw [length_append, length_append, List.length_singleton, append_assoc, ← Nat.add_assoc] at hset
    have hstring := cstring_append (List.mem_append.not.mpr (not_or.mpr hnull)) P (c :: rest)
    have hlength' : (P ++ (raw₀ ++ [last, 0])).length = P.length + raw₀.length + 2 := by
      simp only [length_append, length_cons, List.length_nil, Nat.add_assoc]
    refine ⟨P ++ (raw₀ ++ [last, 0]), P.length + raw₀.length + 1, hlength', ?_⟩
    rw [if_neg hcr, stripCR_concat, if_neg hcr, hlength', hset]
    simp only [append_assoc, List.singleton_append] at hstring ⊢
    rw [hstring]
    rfl

section Loop

variable {h : Handlers Cxn} {happens : Nat → Cxn → Cxn}

theorem responseOf_some {raw rest : Octets} {code : Nat}
    (hcode : getNntpResponse (stripCR raw) = some (code, rest)) :
    responseOf raw = some (code, stripCR raw) := by
  rw [responseOf, hcode]
  rfl

theorem responseOf_none {raw : Octets} (hcode : getNntpResponse (stripCR raw) = none) :
    responseOf raw = none := by
  rw [responseOf, hcode]
  rfl

theorem delivered_nil {r : Reading Cxn} (hreading : r.reading = true) : Delivered h [] r [] :=
  ⟨[], rfl, fun _ => rfl, fun hdead => absurd (hreading.symm.trans hdead) Bool.true_eq_false.mp⟩

theorem Delivered.cons {raw : Octets} {lines : List Octets} {r : Reading Cxn}
    {out : List (Nat × Octets)}
    {response : Nat × Octets} (hraw : responseOf raw = some response)
    (hdelivered : Delivered h lines r out) :
    Delivered h (raw :: lines) r (response :: out) := by
  obtain ⟨rest, hlines, hall, hstop⟩ := hdelivered
  refine ⟨rest, ?_, hall, hstop⟩
  rw [List.map_cons, hraw, hlines, List.map_cons, cons_append]

/-- When the connection stops, the rest of the lines is not looked at. -/
theorem Delivered.stopped {lines : List Octets} {r : Reading Cxn} (hdead : r.reading = false)
    (hstop : h.reads r.cxn = false ∨ (lines.map responseOf).head? = some none) :
    Delivered h lines r [] :=
  ⟨lines.map responseOf, rfl, fun hgoes => absurd (hdead.symm.trans hgoes) Bool.false_ne_true,
    fun _ => hstop⟩

theorem Delivered.append {lines more : List Octets} {r r' : Reading Cxn}
    {out out' : List (Nat × Octets)}
    (hdelivered : Delivered h lines r out) (hreading : r.reading = true)
    (hmore : Delivered h more r' out') :
    Delivered h (lines ++ more) r' (out ++ out') := by
  obtain ⟨rest, hlines, hall, _⟩ := hdelivered
  obtain ⟨rest', hmore, hall', hstop'⟩ := hmore
  refine ⟨rest', ?_, hall', hstop'⟩
  rw [List.map_append, hlines, hall hreading, append_nil, hmore, List.map_append, append_assoc]

theorem Delivered.dead {lines : List Octets} {r : Reading Cxn} {out : List (Nat × Octets)}
    (hdelivered : Delivered h lines r out) (hdead : r.reading = false) (more : List Octets) :
    Delivered h (lines ++ more) r out := by
  obtain ⟨rest, hlines, _, hstop⟩ := hdelivered
  refine ⟨rest ++ more.map responseOf, ?_,
    fun hgoes => absurd (hdead.symm.trans hgoes) Bool.false_ne_true, fun _ => ?_⟩
  · rw [List.map_append, hlines, append_assoc]
  · refine (hstop hdead).imp_right fun hhead => ?_
    rw [List.head?_append, hhead]
    rfl

theorem Delivered.enter {lines : List Octets} {r r' : Reading Cxn} {out : List (Nat × Octets)}
    (hdelivered : Delivered h lines r out) (hreading : r.reading = true)
    (hreads : r'.reading = h.reads r'.cxn) :
    Delivered h lines r' out := by
  obtain ⟨rest, hlines, hall, _⟩ := hdelivered
  exact ⟨rest, hlines, fun _ => hall hreading, fun hdead => .inl (hreads.symm.trans hdead)⟩

theorem dispatch_of_none {r : Reading Cxn} {response : Octets}
    (hcode : getNntpResponse response = none) :
    r.dispatch h response = { r with cxn := h.malformed r.cxn, reading := false } := by
  rw [Reading.dispatch, hcode]

theorem dispatch_of_some {r : Reading Cxn} {response rest : Octets} {code : Nat}
    (hcode : getNntpResponse response = some (code, rest)) :
    r.dispatch h response =
      { r with
        cxn := h.handle code response r.cxn
        dispatched := r.dispatched ++ [(code, response)]
        reading := h.reads (h.handle code response r.cxn) } := by
  rw [Reading.dispatch, hcode]

structure Processed (h : Handlers Cxn) (first : Bool) (r : Reading Cxn) (B J : Octets)
    (r' : Reading Cxn) (response : Nat) : Prop where
  handled : ∃ out, r'.dispatched = r.dispatched ++ out ∧ Delivered h (pieces LF B).1 r' out
  dataSize : r'.dataSize = r.dataSize
  length : r'.mem.length = r.mem.length
  rest : r'.reading = true →
    ∃ P, r'.mem = P ++ ((pieces LF B).2 ++ 0 :: J) ∧ response = P.length ∧
      (first = true ∧ (pieces LF B).1 = [] ∨ (pieces LF B).2.head? ≠ some 0)

theorem processResponses_eq (J : Octets) {B : Octets} {first : Bool}
    (hclean : CleanStream first B) {fuel : Nat}
    (hfuel : B.length < fuel) {r : Reading Cxn} (hreading : r.reading = true) {P : Octets}
    (hmem : r.mem = P ++ (B ++ 0 :: J)) :
    ∃ r' response, processResponses h fuel r P.length = .ok (r', response) ∧
      Processed h first r B J r' response := by
  obtain ⟨fuel, rfl⟩ : ∃ n, fuel = n + 1 := ⟨fuel - 1, by omega⟩
  induction B using pieces_induction LF generalizing fuel r P first with
  | last s hs =>
    refine ⟨r, P.length, ?_, ⟨[], (append_nil _).symm, ?_⟩, rfl, rfl, fun _ => ⟨P, ?_, rfl, ?_⟩⟩
    · rw [processResponses, hmem, strchr_append, findLF_of_notMem hs]
      rfl
    · rw [pieces_of_notMem hs]
      exact delivered_nil hreading
    · rw [pieces_of_notMem hs]
      exact hmem
    · rw [pieces_of_notMem hs]
      exact ((cleanStream_last hs).mp hclean).imp (fun h => ⟨h, rfl⟩) And.left
  | first raw rest hraw ih =>
    obtain ⟨hne, hnull, _, hrest⟩ := (cleanStream_first hraw rest).mp hclean
    obtain ⟨c, back, hback⟩ : ∃ c back, rest ++ 0 :: J = c :: back :=
      List.exists_cons_of_ne_nil fun h => List.cons_ne_nil 0 J (List.append_eq_nil_iff.mp h).2
    have hline : r.mem = P ++ (raw ++ LF :: c :: back) := by
      rw [hmem, append_assoc, cons_append, hback]
    obtain ⟨P', endr, hlength, hcut⟩ := cutResponse_eq P back c hne hnull
    have hfind : strchr r.mem P.length = .ok (some (P.length + raw.length)) := by
      rw [hline, strchr_append, findLF_first hraw hnull]
    have hmem' : (P' ++ c :: back).length = r.mem.length := by
      rw [hline]
      simp only [length_append, length_cons, hlength]
      omega
    rw [processResponses, hfind]
    simp only [bind, Except.bind]
    rw [hline, hcut]
    simp only
    cases hcode : getNntpResponse (stripCR raw) with
    | none =>
      rw [dispatch_of_none hcode, if_neg Bool.false_ne_true]
      refine ⟨_, _, rfl, ⟨[], (append_nil _).symm, ?_⟩, rfl, hmem',
        fun h => absurd h Bool.false_ne_true⟩
      rw [pieces_first hraw]
      refine Delivered.stopped rfl (.inr ?_)
      rw [List.map_cons, responseOf_none hcode]
      rfl
    | some found =>
      obtain ⟨code, tail⟩ := found
      rw [dispatch_of_some hcode]
      by_cases hreads : h.reads (h.handle code (stripCR raw) r.cxn) = true
      · have hclean' := hrest (by rw [hcode]; rfl)
        have hhead : ¬c = CR := by
          rintro rfl
          cases rest with
          | nil => exact absurd (List.cons.inj hback).1 (by decide)
          | cons c rest => exact hclean'.head.2 (congrArg some (List.cons.inj hback).1)
        obtain ⟨n, rfl⟩ : ∃ n, fuel = n + 1 := by
          rw [length_append, length_cons] at hfuel
          exact ⟨fuel - 1, by omega⟩
        have hfuel' : rest.length < n + 1 := by
          rw [length_append, length_cons] at hfuel
          omega
        rw [← hback] at hmem' ⊢
        have hnext : ({ r with
            mem := P' ++ (rest ++ 0 :: J)
            loggedNoCr := r.loggedNoCr || P'.length - endr != 2
            cxn := h.handle code (stripCR raw) r.cxn
            dispatched := r.dispatched ++ [(code, stripCR raw)]
            reading := h.reads (h.handle code (stripCR raw) r.cxn) } : Reading Cxn).mem =
              P' ++ (rest ++ 0 :: J) := rfl
        obtain ⟨r', response, heq, hdone⟩ := ih hclean' hreads hnext n hfuel'
        simp only [if_neg hhead, if_pos hreads]
        refine ⟨r', response, heq, ?_, hdone.dataSize, hdone.length.trans hmem', fun h => ?_⟩
        · obtain ⟨out, hdispatched, hdelivered⟩ := hdone.handled
          rw [pieces_first hraw]
          refine ⟨(code, stripCR raw) :: out, ?_, hdelivered.cons (responseOf_some hcode)⟩
          rw [hdispatched, append_assoc, List.singleton_append]
        · obtain ⟨P'', hmem'', hresponse, htail⟩ := hdone.rest h
          rw [pieces_first hraw]
          exact ⟨P'', hmem'', hresponse,
            .inr (htail.resolve_left fun h => absurd h.1 Bool.false_ne_true)⟩
      · simp only [if_neg hreads]
        refine ⟨_, _, rfl, ⟨[(code, stripCR raw)], rfl, ?_⟩, rfl, hmem', fun h => absurd h hreads⟩
        have hdead := eq_false_of_ne_true hreads
        rw [pieces_first hraw]
        exact (Delivered.stopped hdead (.inl hdead)).cons (responseOf_some hcode)

structure Holding (t : Octets) (r : Reading Cxn) : Prop where
  mem : ∃ back, r.mem = t ++ back ∧ 2 ≤ back.length
  dataSize : r.dataSize = t.length

theorem Holding.kept {t : Octets} {r : Reading Cxn} (hholding : Holding t r) : r.kept = t := by
  obtain ⟨back, hmem, _⟩ := hholding.mem
  rw [Reading.kept, hholding.dataSize, hmem, List.take_left]

theorem Holding.room {t : Octets} {r : Reading Cxn} (hholding : Holding t r) : 0 < r.room := by
  obtain ⟨back, hmem, hback⟩ := hholding.mem
  rw [Reading.room, hholding.dataSize, hmem, length_append]
  omega

theorem keep_eq {r : Reading Cxn} {P t J : Octets} (hP : P ≠ []) (hmem : r.mem = P ++ (t ++ 0 :: J))
    (hsize : r.dataSize = P.length + t.length) (hhead : t.head? ≠ some 0) :
    ∃ r', r.keep P.length = .ok r' ∧ Holding t r' ∧ r'.dispatched = r.dispatched ∧
      r'.reading = r.reading := by
  have hpos := List.length_pos_of_ne_nil hP
  unfold Reading.keep
  cases t with
  | nil =>
    have hload : load r.mem P.length = .ok 0 := by
      rw [hmem]
      exact load_append J
    rw [hload]
    refine ⟨{ r with dataSize := 0 }, ?_, ⟨⟨r.mem, rfl, ?_⟩, rfl⟩, rfl, rfl⟩
    · simp only [bind, Except.bind, if_true]
      rfl
    · rw [hmem, length_append, List.nil_append, length_cons]
      omega
  | cons c t =>
    have hc : ¬c = 0 := fun hzero => hhead (congrArg some hzero)
    have hleft : r.dataSize - P.length = (c :: t).length := by rw [hsize, Nat.add_sub_cancel_left]
    have hload : load r.mem P.length = .ok c := by
      rw [hmem]
      exact load_append _
    rw [hload]
    simp only [bind, Except.bind, if_neg hc, if_neg (Nat.ne_of_gt hpos), hleft]
    refine ⟨_, rfl, ⟨⟨r.mem.drop (c :: t).length, ?_, ?_⟩, rfl⟩, rfl, rfl⟩
    · rw [hmem, drop_left, List.take_left]
    · rw [List.length_drop, hmem, length_append, length_append, length_cons (a := 0)]
      omega

theorem responseIsRead_eq {t data : Octets} {r : Reading Cxn} (hholding : Holding t r)
    (hreading : r.reading = true)
    (hroom : data.length ≤ r.room) (hclean : CleanStream true (t ++ data)) :
    ∃ r' out, responseIsRead h (doRead r data) = .ok r' ∧ r'.dispatched = r.dispatched ++ out ∧
      Delivered h (pieces LF (t ++ data)).1 r' out ∧
        (r'.reading = true → Holding (pieces LF (t ++ data)).2 r') := by
  obtain ⟨back, hmem, hback⟩ := hholding.mem
  have hfits : data.length < back.length := by
    rw [Reading.room, hholding.dataSize, hmem, length_append] at hroom
    omega
  obtain ⟨c, J, hdrop⟩ : ∃ c J, back.drop data.length = c :: J :=
    List.exists_cons_of_ne_nil (List.drop_eq_nil_iff.not.mpr (Nat.not_le_of_lt hfits))
  have hread : ((doRead r data).mem.set (doRead r data).dataSize 0) = t ++ data ++ 0 :: J := by
    have hdata : (doRead r data).mem = t ++ data ++ c :: J := by
      change r.mem.take r.dataSize ++ data ++ r.mem.drop (r.dataSize + data.length) = _
      rw [hholding.dataSize, hmem, List.take_left, ← List.drop_drop, drop_left, hdrop]
    have hsize : (doRead r data).dataSize = (t ++ data).length := by
      change r.dataSize + data.length = _
      rw [hholding.dataSize, length_append]
    rw [hdata, hsize, set_append]
  unfold responseIsRead
  simp only [hread]
  by_cases hline : LF ∈ t ++ data
  · obtain ⟨raw, rest, hB, hraw⟩ := List.eq_append_cons_of_mem hline
    have hnull : 0 ∉ raw := by
      rw [hB] at hclean
      exact ((cleanStream_first hraw rest).mp hclean).2.1
    have hfind : strchr (t ++ data ++ 0 :: J) 0 = .ok (some raw.length) := by
      rw [strchr, List.drop_zero, hB, append_assoc, cons_append,
        findLF_first hraw hnull, Nat.zero_add]
    have hfuel : (t ++ data).length < (t ++ data ++ 0 :: J).length := by
      have hlength : (t ++ data ++ 0 :: J).length = (t ++ data).length + (J.length + 1) :=
        length_append
      omega
    have hreading' : ({ doRead r data with mem := t ++ data ++ 0 :: J } : Reading Cxn).reading =
        true := hreading
    have hstart : ({ doRead r data with mem := t ++ data ++ 0 :: J } : Reading Cxn).mem =
        [] ++ (t ++ data ++ 0 :: J) := rfl
    obtain ⟨r', response, heq, hdone⟩ :=
      processResponses_eq (h := h) J hclean hfuel hreading' hstart
    obtain ⟨out, hdispatched, hdelivered⟩ := hdone.handled
    have heq' : processResponses h (t ++ data ++ 0 :: J).length
        { doRead r data with mem := t ++ data ++ 0 :: J } 0 = .ok (r', response) := heq
    rw [hfind]
    simp only [bind, Except.bind]
    rw [heq']
    simp only
    by_cases hgoes : r'.reading = true
    · rw [if_pos hgoes]
      obtain ⟨P, hmem', rfl, htail⟩ := hdone.rest hgoes
      have hlength : P.length + (pieces LF (t ++ data)).2.length = (t ++ data).length := by
        have hlength := hdone.length
        rw [hmem'] at hlength
        simp only [length_append, length_cons] at hlength ⊢
        omega
      have hP : P ≠ [] := by
        rintro rfl
        rw [hB, pieces_first hraw, length_append, length_cons] at hlength
        have hle : (pieces LF rest).2.length ≤ rest.length := last_length_le rest
        rw [List.length_nil, Nat.zero_add] at hlength
        exact absurd (hlength ▸ hle) (by omega)
      have hhead : (pieces LF (t ++ data)).2.head? ≠ some 0 := by
        refine htail.resolve_left fun h => ?_
        rw [hB, pieces_first hraw] at h
        exact List.cons_ne_nil _ _ h.2
      obtain ⟨kept, hkeep, hkept, hsame, hgoes'⟩ := keep_eq hP hmem' (by
        rw [hdone.dataSize, hlength, length_append, ← hholding.dataSize]
        rfl) hhead
      have hon : Delivered h (pieces LF (t ++ data)).1 (kept.enter h h.readOn) out :=
        hdelivered.enter hgoes rfl
      refine ⟨kept.enter h h.readOn, out, ?_, hsame.trans hdispatched, hon,
        fun _ => ⟨hkept.mem, hkept.dataSize⟩⟩
      rw [hkeep]
      rfl
    · rw [if_neg hgoes]
      exact ⟨r', out, rfl, hdispatched, hdelivered, fun h => absurd h hgoes⟩
  · have hfind : strchr (t ++ data ++ 0 :: J) 0 = .ok none := by
      rw [strchr, List.drop_zero, findLF_of_notMem hline]
    rw [hfind]
    refine ⟨_, [], rfl, (append_nil _).symm, ?_, fun _ =>
      ⟨⟨0 :: J ++ List.replicate BUFFER_EXPAND_AMOUNT 0, ?_, ?_⟩, ?_⟩⟩
    · rw [pieces_of_notMem hline]
      exact delivered_nil hreading
    · rw [pieces_of_notMem hline]
      exact append_assoc _ _ _
    · rw [length_append, List.length_replicate]
      exact Nat.le_add_left_of_le (by decide)
    · rw [pieces_of_notMem hline, length_append, ← hholding.dataSize]
      rfl

theorem CleanStream.back {stream : Octets} (s : Octets) {first : Bool} {more : Octets}
    (hstream : stream = s ++ more) (hclean : CleanStream first stream)
    (hcodes : ∀ raw ∈ (pieces LF s).1, (responseOf raw).isSome = true) :
    CleanStream true ((pieces LF s).2 ++ more) := by
  subst hstream
  induction s using pieces_induction LF generalizing first with
  | last s hs =>
    rw [pieces_of_notMem hs]
    exact hclean.mono
  | first raw rest hraw ih =>
    rw [append_assoc, cons_append, cleanStream_first hraw] at hclean
    rw [pieces_first hraw] at hcodes ⊢
    have hcode := hcodes raw List.mem_cons_self
    rw [responseOf, Option.isSome_map] at hcode
    exact ih (fun raw hmem => hcodes raw (List.mem_cons_of_mem _ hmem)) (hclean.2.2.2 hcode)

/-- What has been handled, and what the buffer still holds, is the stream. -/
structure Handled (h : Handlers Cxn) (stream : Octets) (r : Reading Cxn) : Prop where
  delivered : Delivered h (pieces LF stream).1 r r.dispatched
  holding : r.reading = true → Holding (pieces LF stream).2 r

theorem Handled.dead {stream : Octets} {r : Reading Cxn} (hhandled : Handled h stream r)
    (hdead : r.reading = false) (more : Octets) : Handled h (stream ++ more) r where
  delivered := by
    rw [pieces_append]
    exact hhandled.delivered.dead hdead _
  holding := fun hgoes => absurd (hdead.symm.trans hgoes) Bool.false_ne_true

theorem Handled.enter {stream : Octets} {r : Reading Cxn} (hhandled : Handled h stream r)
    (hreading : r.reading = true) (f : Cxn → Cxn) : Handled h stream (r.enter h f) where
  delivered := hhandled.delivered.enter hreading rfl
  holding := fun _ =>
    have hholding := hhandled.holding hreading
    ⟨hholding.mem, hholding.dataSize⟩

theorem Handled.read {stream data : Octets} {r : Reading Cxn} (hhandled : Handled h stream r)
    (hreading : r.reading = true) (hroom : data.length ≤ r.room)
    (hclean : CleanStream true (stream ++ data)) :
    ∃ r', responseIsRead h (doRead r data) = .ok r' ∧ Handled h (stream ++ data) r' := by
  have hcodes : ∀ raw ∈ (pieces LF stream).1, (responseOf raw).isSome = true := by
    obtain ⟨rest, hlines, hall, _⟩ := hhandled.delivered
    intro raw hraw
    have hmem : responseOf raw ∈ r.dispatched.map some := by
      rw [← append_nil (r.dispatched.map some), ← hall hreading, ← hlines]
      exact List.mem_map_of_mem hraw
    obtain ⟨response, _, hsome⟩ := List.mem_map.mp hmem
    rw [← hsome]
    rfl
  obtain ⟨r', out, heq, hdispatched, hdelivered, hholding⟩ :=
    responseIsRead_eq (hhandled.holding hreading) hreading hroom
    (hclean.back stream rfl hcodes)
  refine ⟨r', heq, ?_, ?_⟩
  · rw [pieces_append, hdispatched]
    exact hhandled.delivered.append hreading hdelivered
  · rw [pieces_append]
    exact hholding

theorem receive_handled {fuel : Nat} {stream data : Octets} {r : Reading Cxn}
    (hhandled : Handled h stream r)
    (hfuel : data.length ≤ fuel) (hclean : CleanStream true (stream ++ data)) :
    ∃ r', receive h happens fuel r data = .ok r' ∧ Handled h (stream ++ data) r' := by
  induction fuel generalizing stream data r with
  | zero =>
    obtain rfl := List.eq_nil_of_length_eq_zero (Nat.le_zero.mp hfuel)
    exact ⟨r, rfl, by rw [append_nil]; exact hhandled⟩
  | succ fuel ih =>
    rw [receive]
    by_cases hdone : data = [] ∨ r.reading = false
    · rw [if_pos hdone]
      refine ⟨r, rfl, ?_⟩
      rcases hdone with rfl | hdead
      · rw [append_nil]
        exact hhandled
      · exact hhandled.dead hdead data
    · obtain ⟨hne, hlive⟩ := not_or.mp hdone
      have hentered := hhandled.enter (eq_true_of_ne_false hlive) (happens r.count)
      rw [if_neg hdone]
      dsimp only
      by_cases hdead : (r.enter h (happens r.count)).reading = false
      · rw [if_pos hdead]
        exact ⟨_, rfl, hentered.dead hdead data⟩
      · have hreading := eq_true_of_ne_false hdead
        have hroom := (hentered.holding hreading).room
        rw [if_neg hdead, if_neg (Nat.ne_of_gt hroom)]
        rw [← List.take_append_drop (r.enter h (happens r.count)).room data,
          ← append_assoc] at hclean
        obtain ⟨r', heq, hhandled'⟩ := hentered.read hreading (List.length_take_le _ _) hclean.front
        have hless : (data.drop (r.enter h (happens r.count)).room).length ≤ fuel := by
          have hpos := List.length_pos_of_ne_nil hne
          rw [List.length_drop]
          omega
        obtain ⟨last, hlast, hfinal⟩ := ih hhandled' hless hclean
        refine ⟨last, ?_, ?_⟩
        · simp only [bind, Except.bind, heq]
          exact hlast
        · rw [append_assoc, List.take_append_drop] at hfinal
          exact hfinal

theorem receiveAll_handled (portions : List Octets) {stream : Octets} {r : Reading Cxn}
    (hhandled : Handled h stream r) (hclean : CleanStream true (stream ++ portions.flatten)) :
    ∃ r', receiveAll h happens r portions = .ok r' ∧ Handled h (stream ++ portions.flatten) r' := by
  induction portions generalizing stream r with
  | nil => exact ⟨r, rfl, by rw [List.flatten_nil, append_nil]; exact hhandled⟩
  | cons data more ih =>
    rw [List.flatten_cons, ← append_assoc] at hclean ⊢
    obtain ⟨r', heq, hhandled'⟩ := receive_handled hhandled (Nat.le_refl _) hclean.front
    obtain ⟨last, hlast, hfinal⟩ := ih hhandled' hclean
    refine ⟨last, ?_, hfinal⟩
    rw [receiveAll, heq]
    exact hlast

end Loop

section Streams

/-- However the stream is split, no octet outside of the buffer is read, the responses that are
handled are those of the first lines, each of them once, and what is behind the last line feed is
kept. -/
def ReadInOrder (h : Handlers Cxn) (happens : Nat → Cxn → Cxn) (mem : Octets) (cxn : Cxn)
    (stream : Octets) : Prop :=
  ∀ portions, portions.flatten = stream →
    ∃ r, receiveAll h happens (Reading.start mem cxn) portions = .ok r ∧
      Delivered h (pieces LF stream).1 r r.dispatched ∧
        (r.reading = true → r.kept = (pieces LF stream).2)

/-- A stream is read in order if no line that is read is empty, has a null byte in it, or begins
with a carriage return behind a line feed. -/
theorem readInOrder (h : Handlers Cxn) (happens : Nat → Cxn → Cxn) (mem : Octets)
    (hmem : mem.length = BUFFER_SIZE + 1) (cxn : Cxn) (stream : Octets)
    (hclean : CleanStream true stream) :
    ReadInOrder h happens mem cxn stream := by
  rintro portions rfl
  have hstart : Handled h [] (Reading.start mem cxn) :=
    ⟨delivered_nil rfl, fun _ =>
      ⟨⟨mem, rfl, Nat.le_trans (by decide) (Nat.le_of_eq hmem.symm)⟩, rfl⟩⟩
  obtain ⟨r, heq, hhandled⟩ := receiveAll_handled portions hstart hclean
  exact ⟨r, heq, hhandled.delivered, fun hgoes => (hhandled.holding hgoes).kept⟩

end Streams

namespace Connections

open Foundation.Runs

/-- The handlers of a connection. A connection that has failed reads no more. -/
def handlers (cfg : Config) (env : Env) : Handlers (Except Fault Connection) where
  reads
    | .ok cxn => cxn.reads
    | .error _ => false
  handle code response cxn := do
    let cxn ← cxn
    let cxn ← cxn.dispatch cfg env code response
    cxn.VALIDATE cfg
    if cxn.reads then cxn.checked else cxn.readOn cfg env >>= Connection.checked
  malformed cxn := cxn >>= Connection.sleepOrDie cfg >>= Connection.checked
  readOn cxn := cxn >>= Connection.readOn cfg env >>= Connection.checked

def streams : Config := ⟨0, 0, 0, 0, true, 2, false, false⟩

def firstOffer : Article := ⟨1, octets "<a>"⟩

def secondOffer : Article := ⟨2, octets "<b>"⟩

def checking : List Event :=
  [⟨.cxnWait, calm, [], []⟩, ⟨.cxnTakeArticle firstOffer, calm, [], []⟩,
    ⟨.read (.responses [octets "200 hello"]), calm, [], []⟩, ⟨.written true, calm, [], []⟩,
    ⟨.read (.responses [octets "203 ok"]), calm, [], []⟩, ⟨.written true, calm, [], []⟩,
    ⟨.cxnTakeArticle secondOffer, calm, [], []⟩, ⟨.written true, calm, [], []⟩]

def inquiring : Connection :=
  { start with
    state := .cxnFeedingS
    checkRespHead := [firstOffer, secondOffer]
    articleQTotal := 2
    maxCheck := 2
    myEp := some ⟨some .responseIsRead, none, false⟩
    doesStreaming := true
    timeCon := true
    taken := [secondOffer, firstOffer] }

def reading (portions : List Octets) : Except Innfeed.Fault (List (Nat × Octets)) :=
  (receiveAll (handlers streams calm) (fun _ => id)
    (Reading.start (List.replicate 257 0) (.ok inquiring)) portions).map
    Reading.dispatched

theorem readInOrder_check :
    CleanStream true (octets "238 <a>\r\n438 <b> no\r\n23") ∧
      ReadInOrder (handlers streams calm) (fun _ => id) (List.replicate 257 0) (.ok inquiring)
        (octets "238 <a>\r\n438 <b> no\r\n23") := by
  have hclean : CleanStream true (octets "238 <a>\r\n438 <b> no\r\n23") := by decide
  exact ⟨hclean, readInOrder _ _ _ List.length_replicate _ _ hclean⟩

/-- A peer that answers the `TAKETHIS` before it can have it is cut off, unless the read ends in
front of the answer: then the command is written first. So the responses that are handled depend on
the reads. -/
theorem not_dispatched_alike :
    run (step streams) checking start = .ok inquiring ∧
      CleanStream true (octets "238 <a>\r\n239 <a>\r\n438 <b>\r\n") ∧
      reading [octets "238 <a>\r\n239 <a>\r\n438 <b>\r\n"] =
        .ok [(238, octets "238 <a>"), (239, octets "239 <a>")] ∧
      reading [octets "238 <a>\r\n", octets "239 <a>\r\n438 <b>\r\n"] =
        .ok [(238, octets "238 <a>"), (239, octets "239 <a>"), (438, octets "438 <b>")] := by
  refine ⟨?_, ?_, ?_, ?_⟩
  all_goals decide +kernel

-- The response behind an empty line is handled twice.
example : reading [octets "438 <a>\r\n\r\n438 <b>\r\n"] =
    .ok [(438, octets "438 <a>"), (438, octets "\n438 <b>\r\n"), (438, octets "438 <b>")] := by
  decide +kernel

end Connections

end Inn.Innfeed
