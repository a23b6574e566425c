import Inn.Foundation.Runs
import Inn.Innfeed.TapeInput

/-!
# Every line of a backlog file

The processes that read a backlog file one after the other hand out its valid lines in
their order, and none of them is left out. A line that has been handed out before a
position was recorded is not handed out again.
-/

namespace Inn.Innfeed

open Foundation.Runs

section Processes

/-- Every file that was read to its end has been handed out. -/
structure Spool.Sound (spool : Spool) : Prop where
  hand : ∀ content, spool.hand = some content → Markable content
  output : ∀ content, spool.output = some content → Markable content
  input : ∀ input, spool.input = some input → input.Sound
  past : ∀ life ∈ spool.past, life.InOrder ∧ life.Complete

def Holds (spool : Spool) (tape : Tape) : Prop :=
  match spool.input with
  | none => tape.inFp = none ∧ tape.scribbled = false
  | some input => ∃ place, Reads input tape place

structure Closed (spool : Spool) (tape : Tape) : Prop where
  inFp : tape.inFp = none
  scribbled : tape.scribbled = false
  first : spool.input ≠ none → tape.lastRotated = 0

theorem Holds.reads {spool : Spool} {tape : Tape} {input : Input} (hholds : Holds spool tape)
    (hinput : spool.input = some input) : ∃ place, Reads input tape place := by
  unfold Holds at hholds
  rwa [hinput] at hholds

theorem Holds.congr {spool spool' : Spool} {tape tape' : Tape} (hholds : Holds spool tape)
    (hinput : spool'.input = spool.input) (hinFp : tape'.inFp = tape.inFp)
    (hscribbled : tape'.scribbled = tape.scribbled) (hchanged : tape'.changed = tape.changed) :
    Holds spool' tape' := by
  unfold Holds at *
  rw [hinput]
  cases hcase : spool.input with
  | none =>
    rw [hcase] at hholds
    exact ⟨hinFp.trans hholds.1, hscribbled.trans hholds.2⟩
  | some input =>
    rw [hcase] at hholds
    obtain ⟨place, hreads⟩ := hholds
    exact ⟨place, hinFp.trans hreads.inFp, hreads.place_le, hreads.recorded_le,
      hreads.from_le, hreads.done,
      hscribbled ▸ hreads.scribbled, hchanged ▸ hreads.resumes⟩

theorem Spool.Sound.unlink {spool : Spool} (hsound : spool.Sound) {input : Input}
    (hinput : spool.input = some input) (hcomplete : input.life.Complete) : spool.unlink.Sound := by
  refine ⟨hsound.hand, hsound.output, nofun, ?_⟩
  intro life hmem
  rcases List.mem_append.mp hmem with hpast | hlast
  · exact hsound.past life hpast
  · rw [hinput] at hlast
    obtain rfl := List.mem_singleton.mp hlast
    exact ⟨(hsound.input input hinput).inOrder, hcomplete⟩

theorem Spool.Sound.setInput {spool : Spool} (hsound : spool.Sound) {input : Input}
    (hinput : input.Sound) :
    Spool.Sound { spool with input := some input } where
  hand := hsound.hand
  output := hsound.output
  input := fun _ heq => Option.some.inj heq ▸ hinput
  past := hsound.past

theorem sound_map_fresh {file : Option Octets}
    (hmarkable : ∀ content, file = some content → Markable content)
    (input : Input) (hinput : file.map Input.fresh = some input) : input.Sound := by
  obtain ⟨content, hcontent, rfl⟩ := Option.map_eq_some_iff.mp hinput
  exact sound_fresh (hmarkable content hcontent)

theorem markable_nil : Markable [] :=
    ⟨by decide, fun mark hmark => absurd hmark (by rw [show readMark [] = none from rfl]; nofun)⟩

theorem takeHand_sound {spool : Spool} {tape : Tape} (hsound : spool.Sound)
    (hclosed : Closed spool tape) :
    (takeHand spool tape).2.Sound ∧
      ((takeHand spool tape).1 = false → (takeHand spool tape).2.input = none) := by
  have hexists : (if tape.lastRotated = 0 then spool.input.isSome else tape.inFp.isSome) =
      spool.input.isSome := by
    split
    · rfl
    next hlater =>
      rw [hclosed.inFp]
      cases hinput : spool.input with
      | none => rfl
      | some input => exact absurd (hclosed.first (by rw [hinput]; nofun)) hlater
  unfold takeHand
  simp only [hexists]
  generalize (if (tape.lastRotated = 0 || tape.checkNew) = true then spool.hand.isSome else false) =
    newExists
  split
  · exact ⟨⟨nofun, hsound.output, sound_map_fresh hsound.hand, hsound.past⟩, nofun⟩
  · exact ⟨hsound, fun hnone => Option.isNone_iff_eq_none.mp (Option.isSome_eq_false_iff.mp hnone)⟩

theorem takeOutput_sound {spool : Spool} (tape : Tape) (hsound : spool.Sound) {inpExists : Bool}
    (hexists : inpExists = false → spool.input = none) :
    (takeOutput inpExists spool tape).2.1.Sound ∧
      ((takeOutput inpExists spool tape).1 = false →
        (takeOutput inpExists spool tape).2.1.input = none) := by
  unfold takeOutput
  simp only
  generalize (if tape.lastRotated = 0 then spool.output.isSome else tape.outFp && 0 <
    tape.outputSize) = outExists
  split
  · exact ⟨⟨hsound.hand, nofun, sound_map_fresh hsound.output, hsound.past⟩, nofun⟩
  · exact ⟨hsound, hexists⟩

theorem takeOutput_tape (inpExists : Bool) (spool : Spool) (tape : Tape) :
    (takeOutput inpExists spool tape).2.2.inFp = tape.inFp ∧
      (takeOutput inpExists spool tape).2.2.scribbled = tape.scribbled ∧
      (takeOutput inpExists spool tape).2.2.tellpos = tape.tellpos := by
  unfold takeOutput
  simp only
  generalize (if tape.lastRotated = 0 then spool.output.isSome else tape.outFp && 0 <
    tape.outputSize) = outExists
  split <;> exact ⟨rfl, rfl, rfl⟩

theorem openOutput_sound {spool : Spool} {tape : Tape} (now : Nat) (hsound : spool.Sound)
    (hholds : Holds spool tape) :
    (openOutput now spool tape).1.Sound ∧ Holds (openOutput now spool tape).1
    (openOutput now spool tape).2 := by
  unfold openOutput
  simp only
  split
  · exact ⟨hsound, hholds.congr rfl rfl rfl rfl⟩
  · refine ⟨⟨hsound.hand, ?_, hsound.input, hsound.past⟩, hholds.congr rfl rfl rfl rfl⟩
    intro content heq
    cases heq
    cases houtput : spool.output with
    | none => exact markable_nil
    | some output => exact hsound.output output houtput

theorem holds_of_none {spool : Spool} {tape : Tape} (hinput : spool.input = none)
    (hinFp : tape.inFp = none) (hscribbled : tape.scribbled = false) : Holds spool tape := by
  unfold Holds
  rw [hinput]
  exact ⟨hinFp, hscribbled⟩

theorem holds_of_some {spool : Spool} {tape : Tape} {input : Input}
    (hinput : spool.input = some input) {place : Nat}
    (hreads : Reads input tape place) : Holds spool tape := by
  unfold Holds
  rw [hinput]
  exact ⟨place, hreads⟩

theorem prepareFiles_sound {fuel now : Nat} {spool : Spool} {tape : Tape} (hsound : spool.Sound)
    (hclosed : Closed spool tape) (hfuel : spool.input ≠ none → 0 < fuel) :
    (prepareFiles fuel now spool tape).1.Sound ∧
      Holds (prepareFiles fuel now spool tape).1 (prepareFiles fuel now spool tape).2 := by
  induction fuel generalizing spool tape with
  | zero =>
    have hinput : spool.input = none := by
      by_contra hsome
      exact absurd (hfuel hsome) (Nat.lt_irrefl 0)
    exact ⟨hsound, holds_of_none hinput hclosed.inFp hclosed.scribbled⟩
  | succ fuel ih =>
    rw [prepareFiles]
    have hclosed' : Closed spool { tape with tellpos := 0 } :=
      ⟨hclosed.inFp, hclosed.scribbled, hclosed.first⟩
    obtain ⟨hsound₁, hexists₁⟩ := takeHand_sound hsound hclosed'
    obtain ⟨hsound₂, hexists₂⟩ := takeOutput_sound { tape with tellpos := 0 } hsound₁ hexists₁
    obtain ⟨hinFp, hscribbled, htellpos⟩ :=
      takeOutput_tape (takeHand spool { tape with tellpos := 0 }).1
      (takeHand spool { tape with tellpos := 0 }).2 { tape with tellpos := 0 }
    simp only
    generalize takeOutput (takeHand spool { tape with tellpos := 0 }).1
      (takeHand spool { tape with tellpos := 0 }).2 { tape with tellpos := 0 } = taken at *
    obtain ⟨inpExists, spool', tape'⟩ := taken
    simp only at hsound₂ hexists₂ hinFp hscribbled htellpos
    cases inpExists with
    | false =>
      exact openOutput_sound now hsound₂
        (holds_of_none (hexists₂ rfl) (hinFp.trans hclosed.inFp)
          (hscribbled.trans hclosed.scribbled))
    | true =>
      simp only
      cases hinput : spool'.input with
      | none =>
        exact openOutput_sound now hsound₂
          (holds_of_none hinput (hinFp.trans hclosed.inFp) (hscribbled.trans hclosed.scribbled))
      | some input =>
        simp only
        have hopened :=
          openInput_sound (hsound₂.input input hinput) (hscribbled.trans hclosed.scribbled) htellpos
        cases hcase : openInput input tape' with
        | ready input' tape'' =>
          rw [hcase] at hopened
          obtain ⟨hinput', place, hreads⟩ := hopened
          exact openOutput_sound now (hsound₂.setInput hinput') (holds_of_some rfl hreads)
        | empty tape'' =>
          rw [hcase] at hopened
          obtain ⟨hcomplete, hnone, hblank⟩ := hopened
          exact openOutput_sound now (hsound₂.unlink hinput hcomplete)
            (holds_of_none rfl hnone hblank)
        | atEnd tape'' =>
          rw [hcase] at hopened
          obtain ⟨hcomplete, hnone, hblank⟩ := hopened
          obtain ⟨hsound₃, hholds₃⟩ := ih (hsound₂.unlink hinput hcomplete)
            ⟨hnone, hblank, fun h => absurd rfl h⟩ fun h => absurd rfl h
          exact openOutput_sound now hsound₃ hholds₃

theorem initTape_sound {spool : Spool} (now : Nat) (noRotate : Bool) (hsound : spool.Sound) :
    (initTape now spool noRotate).1.Sound ∧ Holds (initTape now spool noRotate).1
    (initTape now spool noRotate).2 :=
  prepareFiles_sound hsound ⟨rfl, rfl, fun _ => rfl⟩ fun _ => by decide

theorem rotate_sound {spool : Spool} {tape : Tape} (now : Nat) (hsound : spool.Sound)
    (hholds : Holds spool tape) (hinFp : tape.inFp = none) :
    (prepareFiles ROUNDS now spool tape).1.Sound ∧
      Holds (prepareFiles ROUNDS now spool tape).1 (prepareFiles ROUNDS now spool tape).2 := by
  unfold Holds at hholds
  cases hinput : spool.input with
  | none =>
    rw [hinput] at hholds
    exact prepareFiles_sound hsound ⟨hinFp, hholds.2, fun h => absurd hinput h⟩ fun h =>
      absurd hinput h
  | some input =>
    rw [hinput] at hholds
    obtain ⟨place, hreads⟩ := hholds
    exact absurd (hinFp.symm.trans hreads.inFp) nofun

variable {rotatePeriod : Nat}

theorem peel_sound {fuel now : Nat} {spool : Spool} {tape : Tape} (hsound : spool.Sound)
    (hholds : Holds spool tape) :
    (peel rotatePeriod fuel now spool tape).2.1.Sound ∧
      Holds (peel rotatePeriod fuel now spool tape).2.1
        (peel rotatePeriod fuel now spool tape).2.2 := by
  induction fuel generalizing spool tape with
  | zero => exact ⟨hsound, hholds⟩
  | succ fuel ih =>
    rw [peel]
    split
    next place input hinFp hinput =>
      have hinputSound := hsound.input input hinput
      obtain ⟨place', hreads⟩ := hholds.reads hinput
      cases hinFp.symm.trans hreads.inFp
      simp only
      split
      next next s filename msgid hread =>
        have hinFp : ({ tape with changed := true, inFp := some next } : Tape).inFp = some next :=
          rfl
        obtain ⟨hsound', hreads'⟩ := hreads.handOut hinputSound hread hinFp rfl rfl
        exact ⟨hsound.setInput hsound', holds_of_some rfl hreads'⟩
      next next hread =>
        have hunlinked := hsound.unlink hinput (hreads.complete hinputSound hread)
        have hclosed :
            Holds spool.unlink { tape with changed := true, inFp := none, scribbled := false } :=
          holds_of_none rfl rfl rfl
        split
        · obtain ⟨hsound', hholds'⟩ := rotate_sound now hunlinked hclosed rfl
          exact ih hsound' hholds'
        · exact ih hunlinked hclosed
    · exact ⟨hsound, hholds⟩

theorem getArticle_sound (now : Nat) {spool : Spool} {tape : Tape} (hsound : spool.Sound)
    (hholds : Holds spool tape) :
    (getArticle rotatePeriod now spool tape).2.1.Sound ∧
      Holds (getArticle rotatePeriod now spool tape).2.1
        (getArticle rotatePeriod now spool tape).2.2 := by
  unfold getArticle
  by_cases hrotate : (tape.inFp.isNone && rotatePeriod < now - tape.lastRotated) = true
  · rw [if_pos hrotate]
    rw [Bool.and_eq_true] at hrotate
    obtain ⟨hsound', hholds'⟩ :=
      rotate_sound now hsound hholds (Option.isNone_iff_eq_none.mp hrotate.1)
    exact peel_sound hsound' hholds'
  · rw [if_neg hrotate]
    exact peel_sound hsound hholds

theorem checkpoint_sound {spool : Spool} {tape : Tape} (hsound : spool.Sound)
    (hholds : Holds spool tape)
    (hfirst : ∀ input place, spool.input = some input → tape.inFp = some place →
      FirstMark input tape place) :
    (checkpoint spool tape).1.Sound ∧ Holds (checkpoint spool tape).1
    (checkpoint spool tape).2 := by
  unfold checkpoint
  split
  next place input hinFp hinput =>
    obtain ⟨place', hreads⟩ := hholds.reads hinput
    cases hinFp.symm.trans hreads.inFp
    obtain ⟨hsound', hreads', _⟩ :=
      checkpointTape_sound (hsound.input input hinput) hreads (hfirst input place hinput hinFp)
    exact ⟨hsound.setInput hsound', holds_of_some rfl hreads'⟩
  · exact ⟨hsound, hholds⟩

end Processes

structure Backlog.Sound (backlog : Backlog) : Prop where
  spool : backlog.spool.Sound
  tape : ∀ tape, backlog.tape = some tape → Holds backlog.spool tape

def Allowed (backlog : Backlog) : Action → Prop
  | .checkPointTapes | .tapeFlush _ | .delTape =>
    ∀ tape input place, backlog.tape = some tape → backlog.spool.input = some input →
      tape.inFp = some place →
      FirstMark input tape place
  | .crash output => ∀ content, output = some content → Markable content
  | .spooled output => Markable output
  | .dropped hand => Markable hand
  | .newTape .. | .getArticle _ | .tapesSetCheckNew => True

theorem step_sound {rotatePeriod : Nat} {backlog : Backlog} {action : Action}
    (hsound : backlog.Sound)
    (hallowed : Allowed backlog action) : (step rotatePeriod backlog action).Sound := by
  have hspool := hsound.spool
  cases action with
  | newTape now dontRotate =>
    simp only [step]
    split
    · exact hsound
    · obtain ⟨hspool', hholds⟩ := initTape_sound now false hspool
      refine ⟨hspool', fun tape htape => ?_⟩
      cases htape
      exact hholds.congr rfl rfl rfl rfl
  | getArticle now =>
    simp only [step]
    split
    next tape htape =>
      obtain ⟨hspool', hholds⟩ := getArticle_sound now hspool (hsound.tape tape htape)
      exact ⟨hspool', fun tape' htape' => Option.some.inj htape' ▸ hholds⟩
    · exact hsound
  | checkPointTapes =>
    simp only [step]
    split
    next tape htape =>
      obtain ⟨hspool', hholds⟩ :=
        checkpoint_sound hspool (hsound.tape tape htape) fun input place =>
        hallowed tape input place htape
      exact ⟨hspool', fun tape' htape' => Option.some.inj htape' ▸ hholds⟩
    · exact hsound
  | tapesSetCheckNew =>
    refine ⟨hspool, fun tape htape => ?_⟩
    obtain ⟨tape', htape', rfl⟩ := Option.map_eq_some_iff.mp htape
    exact (hsound.tape tape' htape').congr rfl rfl rfl rfl
  | tapeFlush now =>
    simp only [step]
    split
    next tape htape =>
      obtain ⟨hspool', _⟩ := checkpoint_sound hspool (hsound.tape tape htape) fun input place =>
        hallowed tape input place htape
      obtain ⟨hspool'', hholds⟩ :=
        initTape_sound now (checkpoint backlog.spool tape).2.noRotate hspool'
      exact ⟨hspool'', fun tape' htape' => Option.some.inj htape' ▸ hholds⟩
    · exact hsound
  | delTape =>
    simp only [step]
    split
    next tape htape =>
      refine ⟨?_, nofun⟩
      unfold delTape
      split
      · have hspool' : Spool.Sound { backlog.spool with output := none } :=
          ⟨hspool.hand, fun _ heq => absurd heq nofun, hspool.input, hspool.past⟩
        have hholds : Holds { backlog.spool with output := none } tape :=
          (hsound.tape tape htape).congr rfl rfl rfl rfl
        exact (checkpoint_sound hspool' hholds fun input place => hallowed tape input place htape).1
      · exact (checkpoint_sound hspool (hsound.tape tape htape) fun input place =>
          hallowed tape input place htape).1
    · exact hsound
  | crash output =>
    simp only [step]
    split
    · exact ⟨⟨hspool.hand, hallowed, hspool.input, hspool.past⟩, nofun⟩
    · exact hsound
  | spooled output =>
    simp only [step]
    split
    next tape htape =>
      refine ⟨⟨hspool.hand, fun _ heq => Option.some.inj heq ▸ hallowed, hspool.input, hspool.past⟩,
        fun tape' htape' => ?_⟩
      cases htape'
      exact (hsound.tape tape htape).congr rfl rfl rfl rfl
    · exact hsound
  | dropped hand =>
    exact ⟨⟨fun _ heq => Option.some.inj heq ▸ hallowed, hspool.output, hspool.input, hspool.past⟩,
      fun tape htape => (hsound.tape tape htape).congr rfl rfl rfl rfl⟩

theorem sound_start {hand input output : Option Octets}
    (hhand : ∀ content, hand = some content → Markable content)
    (hinput : ∀ content, input = some content → Markable content)
    (houtput : ∀ content, output = some content → Markable content) :
    (Backlog.start hand input output).Sound :=
  ⟨⟨hhand, houtput, sound_map_fresh hinput, nofun⟩, nofun⟩

theorem checkpointTape_content (input : Input) (place : Nat) (tape : Tape) :
    (checkpointTape input place tape).1.life.content = input.life.content := by
  unfold checkpointTape
  split
  · rfl
  · simp only
    split
    · split
      · split <;> rfl
      · rfl
    · rfl

def Resumes (input input' : Input) (place : Nat) : Prop :=
  input'.bytes.length = input.bytes.length ∧ (∀ i, place ≤ i → input'.bytes[i]? = input.bytes[i]?) ∧
    (BITS64 < place → ∀ next, openPlace input'.bytes = some next → place ≤ next)

theorem checkpointTape_resumes {input : Input} {tape : Tape} {place : Nat} (hsound : input.Sound)
    (hreads : Reads input tape place) (hfirst : FirstMark input tape place) :
    Resumes input (checkpointTape input place tape).1 place := by
  obtain ⟨hsound', hreads', hchanged⟩ := checkpointTape_sound hsound hreads hfirst
  have hcontent := checkpointTape_content input place tape
  refine ⟨?_, ?_, hreads'.resumes hchanged⟩
  · rw [hsound'.length, hcontent, hsound.length]
  · intro i hi
    have hrecorded := hreads.recorded_le
    have hrecorded' := hreads'.recorded_le
    rw [hsound'.same i (by omega), hcontent, hsound.same i (by omega)]

theorem checkpoint_resumes {spool : Spool} {tape : Tape} {input : Input} {place : Nat}
    (hsound : spool.Sound)
    (hholds : Holds spool tape) (hinput : spool.input = some input) (hinFp : tape.inFp = some place)
    (hfirst : FirstMark input tape place) :
    ∃ input', (checkpoint spool tape).1.input = some input' ∧ Resumes input input' place := by
  obtain ⟨place', hreads⟩ := hholds.reads hinput
  cases hinFp.symm.trans hreads.inFp
  refine ⟨(checkpointTape input place tape).1, ?_,
    checkpointTape_resumes (hsound.input input hinput) hreads hfirst⟩
  unfold checkpoint
  rw [hinFp, hinput]

def Kept (rotatePeriod : Nat) (backlog : Backlog) (action : Action) : Prop :=
  action = .checkPointTapes ∨ action = .delTape →
    ∀ tape input place, backlog.tape = some tape → backlog.spool.input = some input →
      tape.inFp = some place →
      ∃ input', (step rotatePeriod backlog action).spool.input = some input' ∧
        Resumes input input' place

theorem step_kept {rotatePeriod : Nat} {backlog : Backlog} {action : Action}
    (hsound : backlog.Sound)
    (hallowed : Allowed backlog action) : Kept rotatePeriod backlog action := by
  intro hcheckpoint tape input place htape hinput hinFp
  have hholds := hsound.tape tape htape
  rcases hcheckpoint with rfl | rfl
  · have hresumes :=
      checkpoint_resumes hsound.spool hholds hinput hinFp
      (hallowed tape input place htape hinput hinFp)
    simp only [step, htape]
    exact hresumes
  · simp only [step, htape, delTape]
    split
    · have hspool : Spool.Sound { backlog.spool with output := none } :=
        ⟨hsound.spool.hand, fun _ heq => absurd heq nofun, hsound.spool.input, hsound.spool.past⟩
      have hholds' : Holds { backlog.spool with output := none } tape :=
        hholds.congr rfl rfl rfl rfl
      exact checkpoint_resumes hspool hholds' hinput hinFp
        (hallowed tape input place htape hinput hinFp)
    · exact checkpoint_resumes hsound.spool hholds hinput hinFp
        (hallowed tape input place htape hinput hinFp)

/-- Whatever processes do one after the other, the valid lines of every backlog file are handed
out in their order, and all of them until the file is gone. A line is not handed out when a
position behind it has been recorded. A checkpoint leaves what has not been read as it is, and a
process that starts later goes on from there. -/
theorem backlog_inOrder (rotatePeriod : Nat) {hand input output : Option Octets}
    (hhand : ∀ content, hand = some content → Markable content)
    (hinput : ∀ content, input = some content → Markable content)
    (houtput : ∀ content, output = some content → Markable content) (actions : List Action)
    (hallowed : Throughout (step rotatePeriod) Allowed actions (Backlog.start hand input output)) :
    let spool := (actions.foldl (step rotatePeriod) (Backlog.start hand input output)).spool
    (∀ life ∈ spool.past, life.InOrder ∧ life.Complete) ∧
      (∀ input, spool.input = some input →
        input.life.InOrder ∧ input.bytes.length = input.life.content.length ∧
        ∀ i, input.life.recordedTo ≤ i → input.bytes[i]? = input.life.content[i]?) ∧
      Throughout (step rotatePeriod) (Kept rotatePeriod) actions
        (Backlog.start hand input output) := by
  obtain ⟨hsound, hkept⟩ := throughout_invariant
    (fun _ _ hsound hallowed => ⟨step_sound hsound hallowed, step_kept hsound hallowed⟩) actions
    (sound_start hhand hinput houtput) hallowed
  refine ⟨hsound.spool.past, fun input heq => ?_, hkept⟩
  have hinput := hsound.spool.input input heq
  exact ⟨hinput.inOrder, hinput.length, fun i hi => hinput.same i (by omega)⟩

/-- The second process goes on behind the line that the first one had handed out. -/
theorem backlog_inOrder_restart :
    ((([.newTape 1 false, .getArticle 2, .checkPointTapes, .crash none, .newTape 3 false,
      .getArticle 4] :
        List Action).foldl (step 600)
          (Backlog.start none (some (octets "some/file/name <article1@b>\nfile2 <a2@b>\n"))
            none)).spool.past = [] ∧
      ∀ input, (([.newTape 1 false, .getArticle 2, .checkPointTapes, .crash none, .newTape 3 false,
        .getArticle 4] :
        List Action).foldl (step 600)
          (Backlog.start none (some (octets "some/file/name <article1@b>\nfile2 <a2@b>\n"))
            none)).spool.input =
            some input → input.life.InOrder) := by
  have hmarkable : Markable (octets "some/file/name <article1@b>\nfile2 <a2@b>\n") := by
    refine ⟨by decide, fun mark hmark => absurd hmark ?_⟩
    rw [show readMark (octets "some/file/name <article1@b>\nfile2 <a2@b>\n") = none by decide]
    nofun
  have hstate : (step 600 (step 600
      (Backlog.start none (some (octets "some/file/name <article1@b>\nfile2 <a2@b>\n")) none)
        (.newTape 1 false))
        (.getArticle 2)).spool.input.map Input.bytes =
          some (octets "some/file/name <article1@b>\nfile2 <a2@b>\n") := by
    decide
  have hplace : (step 600 (step 600
      (Backlog.start none (some (octets "some/file/name <article1@b>\nfile2 <a2@b>\n")) none)
        (.newTape 1 false))
        (.getArticle 2)).tape.map Tape.inFp = some (some 28) := by
    decide
  refine ⟨by decide, fun input hinput => ((backlog_inOrder 600 ?_ ?_ ?_ _ ?_).2.1 input hinput).1⟩
  · exact fun _ h => nomatch h
  · rintro content ⟨⟩
    exact hmarkable
  · exact fun _ h => nomatch h
  · refine ⟨trivial, trivial, ?_, (fun _ h => nomatch h), trivial, trivial, trivial⟩
    intro tape input place htape hinput' hinFp _ _ _
    rw [htape] at hplace
    rw [hinput'] at hstate
    obtain rfl := Option.some.inj (hinFp.symm.trans (Option.some.inj hplace))
    refine ⟨27, by decide, by decide, ?_⟩
    rw [Option.some.inj hstate]
    decide

/-- A position that is not far enough into the file is not recorded, so that the line in front of
it is handed out again by a process that starts later. -/
theorem handedOut_again :
    (([.newTape 1 false, .getArticle 2, .checkPointTapes, .crash none, .newTape 3 false,
      .getArticle 4] :
        List Action).foldl (step 600)
          (Backlog.start none (some (octets "f <a@b>\n")) none)).spool.input.map (fun input =>
            input.life.history) =
      some [.handedOut 0 (octets "f") (octets "<a@b>"),
        .handedOut 0 (octets "f") (octets "<a@b>")] := by
  decide

end Inn.Innfeed
