import Inn.Innfeed.TapeLines

/-!
# The life of a backlog file

What a checkpoint writes to an input file, and where a process that opens it goes on. A
file is as it was from the position on that it records, and the valid lines in front of
what has been read have been handed out.
-/

namespace Inn.Innfeed

open Foundation.Words (decimal)
open Foundation.Files (overwrite)

def openPlace (file : Octets) : Option Nat :=
  match readMark file with
  | none => some 0
  | some mark =>
    if file.length < mark then some (fgets 63 file 0).length
    else if mark = 0 then some 0
    else (nextLF file (mark - 1)).map (· + 1)

def readFrom (content : Octets) : Nat := (openPlace content).getD content.length

def Life.recordedTo (life : Life) : Nat :=
  life.history.foldl (fun place event =>
    match event with
    | .recorded place => place
    | .handedOut .. => place) 0

def Done (content : Octets) (history : List Happening) (place : Nat) : Prop :=
  ∀ s article, ValidLine content s article → readFrom content ≤ s → s < place →
    .handedOut s article.1 article.2 ∈ history

def Fits (content : Octets) (history : List Happening) : Happening → Prop
  | .handedOut place filename msgid =>
    parseLine (fgets 2048 content place) = some (filename, msgid) ∧ Done content history place ∧
      ∀ recorded, .recorded recorded ∈ history → recorded ≤ place
  | .recorded place => Done content history place

/-- Articles are handed out in the order of the file, and once. -/
def Life.InOrder (life : Life) : Prop :=
  ∀ before event after, life.history = before ++ event :: after → Fits life.content before event

/-- Every valid line was handed out. -/
def Life.Complete (life : Life) : Prop := Done life.content life.history life.content.length

theorem Done.mono {content : Octets} {history : List Happening} {place : Nat}
    (hdone : Done content history place)
    (event : Happening) : Done content (history ++ [event]) place :=
  fun s article hvalid hfrom hs => List.mem_append_left _ (hdone s article hvalid hfrom hs)

theorem Done.le {content : Octets} {history : List Happening} {place place' : Nat}
    (hdone : Done content history place) (hle : place' ≤ place) : Done content history place' :=
  fun s article hvalid hfrom hs => hdone s article hvalid hfrom (Nat.lt_of_lt_of_le hs hle)

theorem Done.extend {content : Octets} {history : List Happening} {place place' : Nat}
    (hdone : Done content history place)
    (hnone : ∀ s article, place ≤ s → s < place' → ¬ValidLine content s article) :
    Done content history place' := by
  intro s article hvalid hfrom hs
  by_cases hlt : s < place
  · exact hdone s article hvalid hfrom hlt
  · exact absurd hvalid (hnone s article (Nat.le_of_not_lt hlt) hs)

theorem Life.inOrder_append {life : Life} {event : Happening} (horder : life.InOrder)
    (hfits : Fits life.content life.history event) :
    Life.InOrder { life with history := life.history ++ [event] } := by
  intro before event' after heq
  change life.history ++ [event] = before ++ event' :: after at heq
  rcases List.eq_nil_or_concat after with rfl | ⟨after', last, rfl⟩
  · obtain ⟨rfl, hlast⟩ := List.append_inj' heq rfl
    rw [← (List.cons.inj hlast).1]
    exact hfits
  · rw [List.concat_eq_append, ← List.cons_append, ← List.append_assoc] at heq
    exact horder before event' after' (List.append_inj' heq rfl).1

structure Markable (content : Octets) : Prop where
  fits : content.length < 2 ^ 63
  marked : ∀ mark, readMark content = some mark → mark ≤ content.length ∧ Marked content mark

/-- The mark in the file is where reading may resume. -/
structure Input.Sound (input : Input) : Prop where
  markable : Markable input.life.content
  length : input.bytes.length = input.life.content.length
  same : ∀ i, input.life.recordedTo ≤ i + 1 → input.bytes[i]? = input.life.content[i]?
  marked : input.life.recordedTo ≠ 0 → Marked input.bytes input.life.recordedTo
  recorded_le : input.life.recordedTo ≤ input.life.content.length
  from_le : input.life.recordedTo ≠ 0 → readFrom input.life.content ≤ input.life.recordedTo
  recorded : ∀ place, .recorded place ∈ input.life.history → place ≤ input.life.recordedTo
  done : Done input.life.content input.life.history input.life.recordedTo
  inOrder : input.life.InOrder

/-- The tape is at this place, and all in front of it is handed out. -/
structure Reads (input : Input) (tape : Tape) (place : Nat) : Prop where
  inFp : tape.inFp = some place
  place_le : place ≤ input.life.content.length
  recorded_le : input.life.recordedTo ≤ place
  from_le : readFrom input.life.content ≤ place
  done : Done input.life.content input.life.history place
  scribbled : tape.scribbled = true ↔
    input.life.recordedTo ≠ 0 ∨ (readMark input.life.content).isSome = true
  resumes : tape.changed = false → BITS64 < place →
    ∀ next, openPlace input.bytes = some next → place ≤ next

theorem sound_fresh {content : Octets} (hmarkable : Markable content) :
    (Input.fresh content).Sound where
  markable := hmarkable
  length := rfl
  same := fun _ _ => rfl
  marked := fun h => absurd rfl h
  recorded_le := Nat.zero_le _
  from_le := fun h => absurd rfl h
  recorded := fun _ h => absurd h List.not_mem_nil
  done := fun _ _ _ _ h => absurd h (Nat.not_lt_zero _)
  inOrder := by
    intro before event after heq
    exact absurd heq.symm (List.append_ne_nil_of_right_ne_nil before (List.cons_ne_nil event after))

theorem Input.Sound.untouched {input : Input} (hsound : input.Sound)
    (hzero : input.life.recordedTo = 0) :
    input.bytes = input.life.content :=
  List.ext_getElem? fun i => hsound.same i (by rw [hzero]; exact Nat.zero_le _)

theorem openPlace_le {file : Octets} {place : Nat} (hopen : openPlace file = some place) :
    place ≤ file.length := by
  rw [openPlace] at hopen
  split at hopen
  · cases hopen
    exact Nat.zero_le _
  · split at hopen
    · cases hopen
      have hle : 0 + (fgets 63 file 0).length ≤ file.length := fgets_le (Nat.zero_le file.length)
      rwa [Nat.zero_add] at hle
    · split at hopen
      · cases hopen
        exact Nat.zero_le _
      · obtain ⟨k, hk, rfl⟩ := Option.map_eq_some_iff.mp hopen
        exact (List.getElem?_eq_some_iff.mp (nextLF_some hk).2.1).1

theorem Input.Sound.readMark_bytes {input : Input} (hsound : input.Sound)
    (hrecorded : input.life.recordedTo ≠ 0) :
    readMark input.bytes = some input.life.recordedTo :=
  readMark_of_marked (Nat.lt_of_le_of_lt hsound.recorded_le hsound.markable.fits)
    (hsound.marked hrecorded)

theorem Input.Sound.openPlace_bytes {input : Input} (hsound : input.Sound)
    (hrecorded : input.life.recordedTo ≠ 0) :
    openPlace input.bytes = (nextLF input.bytes (input.life.recordedTo - 1)).map (· + 1) := by
  have hle : ¬input.bytes.length < input.life.recordedTo := by
    rw [hsound.length]
    exact Nat.not_lt_of_le hsound.recorded_le
  rw [openPlace, hsound.readMark_bytes hrecorded]
  simp only [if_neg hle, if_neg hrecorded]

theorem Input.Sound.lineStart {input : Input} (hsound : input.Sound)
    (hrecorded : input.life.recordedTo ≠ 0) {s : Nat}
    (hs : input.life.recordedTo ≤ s) (hstart : LineStart input.life.content s) :
    input.bytes[s - 1]? = some LF := by
  rw [hsound.same (s - 1) (by omega)]
  exact hstart.resolve_left (by omega)

theorem Input.Sound.done_openPlace {input : Input} (hsound : input.Sound) {place : Nat}
    (hopen : openPlace input.bytes = some place) :
    Done input.life.content input.life.history place ∧ input.life.recordedTo ≤ place ∧
      readFrom input.life.content ≤ place := by
  by_cases hzero : input.life.recordedTo = 0
  · rw [hsound.untouched hzero] at hopen
    have hfrom : readFrom input.life.content = place := by rw [readFrom, hopen]; rfl
    rw [hfrom, hzero]
    exact ⟨fun s article _ hge hlt => absurd hlt (Nat.not_lt_of_le (hfrom ▸ hge)), Nat.zero_le _,
      Nat.le_refl _⟩
  · rw [hsound.openPlace_bytes hzero] at hopen
    obtain ⟨k, hk, rfl⟩ := Option.map_eq_some_iff.mp hopen
    obtain ⟨hle, hLF, hleast⟩ := nextLF_some hk
    refine ⟨hsound.done.extend fun s article hge hlt hvalid => ?_, by omega, ?_⟩
    · exact hleast (s - 1) (by omega) (by omega) (hsound.lineStart hzero hge hvalid.1)
    · exact Nat.le_trans (hsound.from_le hzero) (by omega)

theorem Input.Sound.complete_openPlace {input : Input} (hsound : input.Sound)
    (hopen : openPlace input.bytes = none) :
    input.life.Complete := by
  by_cases hzero : input.life.recordedTo = 0
  · rw [hsound.untouched hzero] at hopen
    have hfrom : readFrom input.life.content = input.life.content.length := by
      rw [readFrom, hopen]; rfl
    exact fun s article _ hge hlt => absurd hlt (Nat.not_lt_of_le (hfrom ▸ hge))
  · rw [hsound.openPlace_bytes hzero] at hopen
    refine hsound.done.extend fun s article hge hlt hvalid => ?_
    exact nextLF_none (Option.map_eq_none_iff.mp hopen) (by omega)
      (hsound.lineStart hzero hge hvalid.1)

theorem Input.Sound.readMark_isSome {input : Input} (hsound : input.Sound) :
    (readMark input.bytes).isSome = true ↔
      input.life.recordedTo ≠ 0 ∨ (readMark input.life.content).isSome = true := by
  by_cases hzero : input.life.recordedTo = 0
  · rw [hsound.untouched hzero]
    exact (or_iff_right fun h => h hzero).symm
  · rw [hsound.readMark_bytes hzero]
    exact iff_of_true rfl (.inl hzero)

theorem recordedTo_happens_recorded (input : Input) (place : Nat) :
    (input.happens (.recorded place)).life.recordedTo = place := by
  rw [Life.recordedTo, Input.happens, List.foldl_append]
  rfl

theorem recordedTo_happens_handedOut (input : Input) (place : Nat) (filename msgid : Octets) :
    (input.happens (.handedOut place filename msgid)).life.recordedTo = input.life.recordedTo := by
  rw [Life.recordedTo, Input.happens, List.foldl_append]
  rfl

theorem Input.Sound.record {input : Input} {tape : Tape} {place : Nat} {bytes : Octets}
    (hsound : input.Sound)
    (hreads : Reads input tape place) (hlength : bytes.length = input.bytes.length)
    (hsame : ∀ i, place ≤ i + 1 → bytes[i]? = input.bytes[i]?) (hmarked : Marked bytes place) :
    ({ input with bytes := bytes }.happens (.recorded place)).Sound where
  markable := hsound.markable
  length := hlength.trans hsound.length
  same := by
    intro i hi
    rw [recordedTo_happens_recorded] at hi
    exact (hsame i hi).trans (hsound.same i (Nat.le_trans hreads.recorded_le hi))
  marked := by
    intro _
    rw [recordedTo_happens_recorded]
    exact hmarked
  recorded_le := by
    rw [recordedTo_happens_recorded]
    exact hreads.place_le
  from_le := by
    intro _
    rw [recordedTo_happens_recorded]
    exact hreads.from_le
  recorded := by
    intro place' hmem
    rw [recordedTo_happens_recorded]
    rcases List.mem_append.mp hmem with hbefore | hlast
    · exact Nat.le_trans (hsound.recorded place' hbefore) hreads.recorded_le
    · exact Nat.le_of_eq (Happening.recorded.inj (List.mem_singleton.mp hlast))
  done := by
    rw [recordedTo_happens_recorded]
    exact hreads.done.mono _
  inOrder := Life.inOrder_append hsound.inOrder hreads.done

theorem Reads.record {input : Input} {tape : Tape} {place : Nat} {bytes : Octets}
    (hreads : Reads input tape place)
    (hsound : ({ input with bytes := bytes }.happens (.recorded place)).Sound)
    (hplace : BITS64 < place) {tape' : Tape}
    (hinFp : tape'.inFp = some place) (hscribbled : tape'.scribbled = true) :
    Reads ({ input with bytes := bytes }.happens (.recorded place)) tape' place where
  inFp := hinFp
  place_le := hreads.place_le
  recorded_le := by rw [recordedTo_happens_recorded]
  from_le := hreads.from_le
  done := hreads.done.mono _
  scribbled := by
    rw [recordedTo_happens_recorded, hscribbled]
    exact iff_of_true rfl (.inl (Nat.ne_of_gt (Nat.lt_of_le_of_lt (Nat.zero_le _) hplace)))
  resumes := by
    intro _ _ next hopen
    have hrecorded := (hsound.done_openPlace hopen).2.1
    rwa [recordedTo_happens_recorded] at hrecorded

theorem mark_le_readFrom {content : Octets} {mark : Nat} (hmark : readMark content = some mark)
    (hle : mark ≤ content.length) : mark ≤ readFrom content := by
  rw [readFrom, openPlace, hmark]
  simp only [if_neg (Nat.not_lt_of_le hle)]
  split
  next hzero => rw [hzero]; exact Nat.zero_le _
  · cases hnext : nextLF content (mark - 1) with
    | none => exact hle
    | some k =>
      have hk := (nextLF_some hnext).1
      change mark ≤ k + 1
      omega

theorem Reads.exists_mark {input : Input} {tape : Tape} {place : Nat}
    (hreads : Reads input tape place) (hsound : input.Sound) (hscribbled : tape.scribbled = true) :
    ∃ mark ≤ place, Marked input.bytes mark := by
  by_cases hzero : input.life.recordedTo = 0
  · obtain ⟨mark, hmark⟩ :=
      Option.isSome_iff_exists.mp ((hreads.scribbled.mp hscribbled).resolve_left fun h => h hzero)
    obtain ⟨hle, hmarked⟩ := hsound.markable.marked mark hmark
    refine ⟨mark, Nat.le_trans (mark_le_readFrom hmark hle) hreads.from_le, ?_⟩
    rw [hsound.untouched hzero]
    exact hmarked
  · exact ⟨_, hreads.recorded_le, hsound.marked hzero⟩

def FirstMark (input : Input) (tape : Tape) (place : Nat) : Prop :=
  tape.changed = true → BITS64 < place → tape.scribbled = false →
    ∃ k < place, BITS64 < k ∧ input.bytes[k]? = some LF

theorem checkpointTape_sound {input : Input} {tape : Tape} {place : Nat} (hsound : input.Sound)
    (hreads : Reads input tape place) (hfirst : FirstMark input tape place) :
    (checkpointTape input place tape).1.Sound ∧
      Reads (checkpointTape input place tape).1 (checkpointTape input place tape).2 place ∧
      (checkpointTape input place tape).2.changed = false := by
  have hfits : place < 2 ^ 63 := Nat.lt_of_le_of_lt hreads.place_le hsound.markable.fits
  have hdigits : (decimal place).length ≤ 19 := History.decimal_length_le (by omega)
  have hlength := hsound.length
  have hle := hreads.place_le
  unfold checkpointTape
  split
  next hchanged => exact ⟨hsound, hreads, hchanged⟩
  next hchanged =>
    simp only
    split
    next hplace =>
      have hroom : BITS64 < place := hplace
      rw [BITS64] at hroom
      split
      next hscribbled =>
        obtain ⟨k, hk, hwide, hLF⟩ := hfirst (eq_true_of_ne_false hchanged) hplace hscribbled
        cases hnext : nextLF input.bytes (BITS64 + 1) with
        | none => exact absurd hLF (nextLF_none hnext hwide)
        | some currloc =>
          obtain ⟨hcurrloc, hLF', hleast⟩ := nextLF_some hnext
          have hbefore : currloc ≤ k := Nat.le_of_not_lt fun hlt => hleast k hwide hlt hLF
          have hblanks :
              (overwrite 0 input.bytes 0 (List.replicate currloc 32)).length = input.bytes.length :=
            length_overwrite_front (by rw [List.length_replicate]; omega)
          have hsame : ∀ i, place ≤ i + 1 →
              (overwrite 0 (overwrite 0 input.bytes 0 (List.replicate currloc 32)) 0
                (decimal place))[i]? =
                input.bytes[i]? := by
            intro i hi
            rw [getElem?_overwrite_front (by omega),
              getElem?_overwrite_front (by rw [List.length_replicate]; omega)]
          have hsound' :=
            hsound.record hreads (by rw [length_overwrite_front (by omega), hblanks]) hsame
            (marked_blanks hcurrloc hLF' hfits)
          exact ⟨hsound', hreads.record hsound' hplace rfl rfl, rfl⟩
      next hscribbled =>
        have hscribbled := eq_true_of_ne_false hscribbled
        obtain ⟨mark, hmark, hmarked⟩ := hreads.exists_mark hsound hscribbled
        have hsound' := hsound.record hreads (length_overwrite_front (by omega))
          (fun i hi => getElem?_overwrite_front (by omega)) (hmarked.overwrite hmark hfits)
        exact ⟨hsound', hreads.record hsound' hplace rfl hscribbled, rfl⟩
    next hplace =>
      exact ⟨hsound, ⟨hreads.inFp, hreads.place_le, hreads.recorded_le, hreads.from_le, hreads.done,
        hreads.scribbled,
        fun _ h => absurd h hplace⟩, rfl⟩

theorem Input.Sound.reads {input : Input} (hsound : input.Sound) {tape : Tape} {place : Nat}
    (hopen : openPlace input.bytes = some place) (hinFp : tape.inFp = some place)
    (hscribbled : tape.scribbled = (readMark input.bytes).isSome) : Reads input tape place := by
  obtain ⟨hdone, hrecorded, hfrom⟩ := hsound.done_openPlace hopen
  refine ⟨hinFp, ?_, hrecorded, hfrom, hdone, ?_, ?_⟩
  · rw [← hsound.length]
    exact openPlace_le hopen
  · rw [hscribbled]
    exact hsound.readMark_isSome
  · intro _ _ next hnext
    exact Nat.le_of_eq (Option.some.inj (hopen.symm.trans hnext))

def OpenedSound (input : Input) : Opened → Prop
  | .ready input' tape => input'.Sound ∧ ∃ place, Reads input' tape place
  | .empty tape | .atEnd tape => input.life.Complete ∧ tape.inFp = none ∧ tape.scribbled = false

theorem openInput_sound {input : Input} (hsound : input.Sound) {tape : Tape}
    (hscribbled : tape.scribbled = false)
    (htellpos : tape.tellpos = 0) : OpenedSound input (openInput input tape) := by
  unfold openInput
  by_cases hempty : fgets 63 input.bytes 0 = []
  · have hlength := (fgets_eq_nil (by decide)).mp hempty
    rw [hsound.length] at hlength
    simp only [hempty, if_true]
    exact ⟨fun s article _ _ hlt => absurd hlt (by omega), rfl, rfl⟩
  · cases hmark : readMark input.bytes with
    | none =>
      have hopen : openPlace input.bytes = some 0 := by rw [openPlace, hmark]
      simp only [hempty, if_false, htellpos, if_neg (Nat.not_lt_zero _), if_true]
      exact ⟨hsound, 0, hsound.reads hopen rfl (by rw [hmark]; exact hscribbled)⟩
    | some mark =>
      simp only [hempty, if_false]
      split
      next hshort =>
        have hopen : openPlace input.bytes = some (fgets 63 input.bytes 0).length := by
          rw [openPlace, hmark]
          exact if_pos hshort
        exact ⟨hsound, _, hsound.reads hopen rfl (by rw [hmark]; rfl)⟩
      next hlong =>
        split
        next hzero =>
          have hopen : openPlace input.bytes = some 0 := by
            rw [openPlace, hmark]
            simp only [if_neg hlong, if_pos hzero]
          exact ⟨hsound, 0, hsound.reads hopen rfl (by rw [hmark]; rfl)⟩
        next hpos =>
          have hopen : openPlace input.bytes = (nextLF input.bytes (mark - 1)).map (· + 1) := by
            rw [openPlace, hmark]
            simp only [if_neg hlong, if_neg hpos]
          cases hnext : nextLF input.bytes (mark - 1) with
          | none =>
            rw [hnext] at hopen
            exact ⟨hsound.complete_openPlace hopen, rfl, rfl⟩
          | some k =>
            rw [hnext] at hopen
            simp only
            split
            next heq =>
              have hplace : openPlace input.bytes = some mark := by
                rw [hopen, heq]
                exact congrArg some (Nat.sub_add_cancel (Nat.pos_of_ne_zero hpos))
              exact ⟨hsound, mark, hsound.reads hplace rfl (by rw [hmark]; rfl)⟩
            · have hreads : Reads input
                  { tape with
                    inFp := some (k + 1), scribbled := true, tellpos := mark,
                    changed := true } (k + 1) :=
                hsound.reads hopen rfl (by rw [hmark]; rfl)
              obtain ⟨hsound', hreads', _⟩ :=
                checkpointTape_sound hsound hreads fun _ _ h => absurd h.symm Bool.false_ne_true
              exact ⟨hsound', k + 1, hreads'⟩

theorem Done.read {content : Octets} {history : List Happening} {place : Nat}
    (hdone : Done content history place) (hnone : parseLine (fgets 2048 content place) = none) :
    Done content history (place + (fgets 2048 content place).length) := by
  refine hdone.extend fun s article hge hlt hvalid => ?_
  have hsome := (hvalid.of_read hge hlt).2
  exact absurd (hnone.symm.trans hsome) nofun

theorem Done.handOut {content : Octets} {history : List Happening} {place : Nat}
    {filename msgid : Octets} (hdone : Done content history place)
    (hsome : parseLine (fgets 2048 content place) = some (filename, msgid)) :
    Done content (history ++ [.handedOut place filename msgid])
      (place + (fgets 2048 content place).length) := by
  intro s article hvalid hfrom hlt
  by_cases hbefore : s < place
  · exact List.mem_append_left _ (hdone s article hvalid hfrom hbefore)
  · obtain ⟨rfl, harticle⟩ := hvalid.of_read (Nat.le_of_not_lt hbefore) hlt
    cases hsome.symm.trans harticle
    exact List.mem_append_right _ List.mem_cons_self

theorem readOn_some {content : Octets} {history : List Happening} {fuel place next s : Nat}
    {filename msgid : Octets} (hle : place ≤ content.length) (hdone : Done content history place)
    (hread : readOn fuel content place = (next, some (s, filename, msgid))) :
    place ≤ s ∧ s ≤ next ∧ next ≤ content.length ∧ Done content history s ∧
      parseLine (fgets 2048 content s) = some (filename, msgid) ∧
      Done content (history ++ [.handedOut s filename msgid]) next := by
  induction fuel generalizing place with
  | zero => exact absurd (congrArg Prod.snd hread) nofun
  | succ fuel ih =>
    rw [readOn] at hread
    split at hread
    · exact absurd (congrArg Prod.snd hread) nofun
    · split at hread
      next hparse =>
        cases hread
        exact ⟨Nat.le_refl s, Nat.le_add_right _ _, fgets_le hle, hdone, hparse,
          hdone.handOut hparse⟩
      next hparse =>
        obtain ⟨hge, hrest⟩ := ih (fgets_le hle) (hdone.read hparse) hread
        exact ⟨Nat.le_trans (Nat.le_add_right _ _) hge, hrest⟩

theorem readOn_none {content : Octets} {history : List Happening} {fuel place next : Nat}
    (hfuel : content.length < place + fuel) (hdone : Done content history place)
    (hread : readOn fuel content place = (next, none)) : Done content history content.length := by
  induction fuel generalizing place with
  | zero => exact hdone.le (by omega)
  | succ fuel ih =>
    rw [readOn] at hread
    split at hread
    next hnil => exact hdone.le ((fgets_eq_nil (by decide)).mp hnil)
    next hne =>
      split at hread
      · exact absurd (congrArg Prod.snd hread) nofun
      next hparse =>
        have hpos := List.length_pos_of_ne_nil hne
        exact ih (by omega) (hdone.read hparse) hread

theorem readOn_congr {file content : Octets} {place : Nat}
    (hdrop : file.drop place = content.drop place) (fuel : Nat) :
    readOn fuel file place = readOn fuel content place := by
  induction fuel generalizing place with
  | zero => rfl
  | succ fuel ih =>
    have hline : fgets 2048 file place = fgets 2048 content place := by rw [fgets, hdrop, fgets]
    have hnext : file.drop (place + (fgets 2048 content place).length) =
        content.drop (place + (fgets 2048 content place).length) := by
      rw [← List.drop_drop, hdrop, List.drop_drop]
    rw [readOn, readOn]
    simp only [hline, ih hnext]

theorem Input.Sound.drop_eq {input : Input} (hsound : input.Sound) {place : Nat}
    (hle : input.life.recordedTo ≤ place) :
    input.bytes.drop place = input.life.content.drop place := by
  refine List.ext_getElem? fun i => ?_
  rw [List.getElem?_drop, List.getElem?_drop]
  exact hsound.same _ (by omega)

theorem Reads.handOut {input : Input} {tape : Tape} {place next s : Nat} {filename msgid : Octets}
    (hreads : Reads input tape place) (hsound : input.Sound)
    (hread : readOn (input.bytes.length + 1) input.bytes place = (next, some (s, filename, msgid)))
    {tape' : Tape}
    (hinFp : tape'.inFp = some next) (hscribbled : tape'.scribbled = tape.scribbled)
    (hchanged : tape'.changed = true) :
    (input.happens (.handedOut s filename msgid)).Sound ∧
      Reads (input.happens (.handedOut s filename msgid)) tape' next := by
  rw [readOn_congr (hsound.drop_eq hreads.recorded_le)] at hread
  obtain ⟨hge, hle, hnext, hdone, hparse, hdone'⟩ := readOn_some hreads.place_le hreads.done hread
  have hrecorded : input.life.recordedTo ≤ s := Nat.le_trans hreads.recorded_le hge
  constructor
  · refine ⟨hsound.markable, hsound.length, ?_, ?_, ?_, ?_, ?_, ?_, ?_⟩
    · rw [recordedTo_happens_handedOut]
      exact hsound.same
    · rw [recordedTo_happens_handedOut]
      exact hsound.marked
    · rw [recordedTo_happens_handedOut]
      exact hsound.recorded_le
    · rw [recordedTo_happens_handedOut]
      exact hsound.from_le
    · rw [recordedTo_happens_handedOut]
      intro place' hmem
      rcases List.mem_append.mp hmem with hbefore | hlast
      · exact hsound.recorded place' hbefore
      · exact absurd (List.mem_singleton.mp hlast) nofun
    · rw [recordedTo_happens_handedOut]
      exact hsound.done.mono _
    · exact Life.inOrder_append hsound.inOrder
        ⟨hparse, hdone, fun place' hmem => Nat.le_trans (hsound.recorded place' hmem) hrecorded⟩
  · refine ⟨hinFp, hnext, ?_, ?_, hdone', ?_, fun h => absurd (hchanged.symm.trans h) nofun⟩
    · rw [recordedTo_happens_handedOut]
      exact Nat.le_trans hrecorded hle
    · exact Nat.le_trans hreads.from_le (Nat.le_trans hge hle)
    · rw [recordedTo_happens_handedOut, hscribbled]
      exact hreads.scribbled

theorem Reads.complete {input : Input} {tape : Tape} {place next : Nat}
    (hreads : Reads input tape place) (hsound : input.Sound)
    (hread : readOn (input.bytes.length + 1) input.bytes place = (next, none)) :
    input.life.Complete := by
  rw [readOn_congr (hsound.drop_eq hreads.recorded_le)] at hread
  refine readOn_none ?_ hreads.done hread
  rw [hsound.length]
  omega

end Inn.Innfeed
