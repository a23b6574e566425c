import Inn.Innd.Sites

/-!
# What is sent to a feed file

A line for a site goes to the output of its channel, or to its buffer while the site is buffered,
and what waits in one of them goes to the other when the site is buffered or is given its file.
`SITEbuffer` empties the buffer of the site. When a site has to stay buffered that was to be given
its file, as there is no descriptor for it, its lines are lost.
-/

namespace Inn.Innd.Feeds

open Foundation.Runs

def SITE.content (sp : SITE) : List UInt8 :=
    sp.written ++ (sp.Channel.elim [] CHANNEL.Out ++ sp.Buffer)

def Call.sent (i : Nat) : Call → List UInt8
  | .SITEwritefromflags j line .. => if j = i then line else []
  | _ => []

def Unbuffers (result : OpenResult) (buffer : List UInt8) : Prop :=
  result = .opened ∨ result = .EMFILE ∧ buffer = []

namespace State

def Lossless (MaxOutgoing i : Nat) (s : State) : Call → Prop
  | .SITEsetup j result => j = i → (s.Sites i).Channel = none ∧ (s.Sites i).Buffer = [] ∧
      result ≠ .failed
  | .SITEflushcheck j result _ =>
    j = i → (s.Sites i).Buffered = true → (s.Sites i).Flushpoint ≤ (s.Sites i).Buffer.length →
      Unbuffers result (s.Sites i).Buffer
  | .SITEbufferoldest _ => True
  | .SITEflush j _ unbuffered restarted _ =>
    j = i → unbuffered ≠ .failed ∧ restarted ≠ .failed ∧
      ((s.Sites i).Name ≠ none → (s.Sites i).Buffered = true →
        unbuffered = .opened ∧ 0 < MaxOutgoing ∨ (s.Sites i).Buffer = [])
  | .SITEdrop j .. => j ≠ i
  | .SITEwritefromflags j line result _ =>
    j = i → ((s.Sites i).Buffered = true ∨ (s.Sites i).Channel ≠ none) ∧
      ((s.Sites i).Buffered = true → (s.Sites i).Flushpoint ≤ ((s.Sites i).Buffer ++ line).length →
        Unbuffers result ((s.Sites i).Buffer ++ line))
  | .write .. => True

end State

/-- A site is buffered or has a channel. -/
structure SITE.Sound (sp : SITE) : Prop where
  channel : sp.Buffered = true → sp.Channel = none
  buffer : sp.Buffered = false → sp.Buffer = []

namespace State

variable {MaxOutgoing : Nat} {s s' : State} {i j : Nat} {sp sp' : SITE} {cp : CHANNEL}
    {content : List UInt8}
  {result unbuffered restarted : OpenResult} {writes : Nat → Nat} {count : Nat}

section Others

/-! What is done with another site leaves the site as it was. -/

variable (hne : i ≠ j)
include hne

theorem SITEsetup_of_ne (s : State) (MaxOutgoing : Nat) (result : OpenResult) :
    (s.SITEsetup MaxOutgoing j result).1.Sites i = s.Sites i := by
  rw [SITEsetup]
  split
  · simp [SITEbuffer, setSite_of_ne _ hne]
  · cases result <;> simp [SITEbuffer, CHANcreate, setSite_of_ne _ hne]

theorem write_of_ne (s : State) (count : Nat) : (s.write j count).Sites i = s.Sites i := by
  rw [write]
  split
  · rfl
  · exact setSite_of_ne s hne _

theorem unbuffer_of_ne (s : State) : (s.unbuffer j).Sites i = s.Sites i := setSite_of_ne s hne _

theorem unbufferToFlush_of_ne (s : State) (MaxOutgoing : Nat) (unbuffered : OpenResult) :
    (s.unbufferToFlush MaxOutgoing j unbuffered).Sites i = s.Sites i := by
  have hsetup := SITEsetup_of_ne hne { s with SITEcount := 0 } MaxOutgoing unbuffered
  rw [unbufferToFlush]
  split
  · dsimp only
    split
    · exact hsetup
    · rw [swapBuffers]
      split
      · exact hsetup
      · rw [setSite_of_ne _ hne]
        exact hsetup
  · rfl

theorem restart_of_ne (s : State) (MaxOutgoing : Nat) (restarted : OpenResult) :
    (s.restart MaxOutgoing j restarted).Sites i = s.Sites i := by
  have hsetup := SITEsetup_of_ne hne s MaxOutgoing restarted
  rw [restart]
  split
  · exact hsetup
  · rw [SITEunlink_Sites]
    split
    · rw [keepPending]
      split
      · split
        · exact hsetup
        · rw [setSite_of_ne _ hne, hsetup]
      · rw [setSite_of_ne _ hne, hsetup]
    · rw [CHANclose, setSite_of_ne _ hne, hsetup]

theorem SITEflush_of_ne (s : State) (MaxOutgoing : Nat) (Restart : Bool)
    (unbuffered restarted : OpenResult) (count : Nat) :
    (s.SITEflush MaxOutgoing j Restart unbuffered restarted count).Sites i = s.Sites i := by
  have hwrite := (write_of_ne hne (s.unbufferToFlush MaxOutgoing j unbuffered) count).trans
    (unbufferToFlush_of_ne hne s MaxOutgoing unbuffered)
  rw [SITEflush]
  split
  · rfl
  · dsimp only
    split
    · rw [restart_of_ne hne, hwrite]
    · rw [shut]
      split
      · exact hwrite
      · split
        · exact hwrite
        · rw [SITEunlink_Sites, setSite_of_ne _ hne, hwrite]

end Others

/-- A site has this content, in its file, its buffer and its channel. -/
structure Holds (i : Nat) (content : List UInt8) (s : State) : Prop where
  sound : (s.Sites i).Sound
  content : (s.Sites i).content = content

section Holding

variable (hholds : s.Holds i content)

include hholds

theorem Holds.of_same (hsame : s'.Sites i = s.Sites i) : s'.Holds i content := by
  refine ⟨?_, ?_⟩ <;> rw [hsame]
  · exact hholds.sound
  · exact hholds.content

theorem Holds.bufferoldest (hbuffer : s.SITEbufferoldest writes = .ok s') :
    s'.Holds i content := by
  rcases SITEbufferoldest_cases hbuffer with ⟨-, rfl⟩ | ⟨j, -,
    ⟨-, rfl⟩ | ⟨hbuffered, cp, hcp, count, rfl⟩⟩
  · exact hholds.of_same rfl
  · exact hholds.of_same rfl
  · by_cases hij : i = j
    · subst hij
      have hcontent := hholds.content
      rw [SITE.content, hcp, hholds.sound.buffer hbuffered] at hcontent
      refine ⟨?_, ?_⟩ <;> rw [setSite_self]
      · exact ⟨fun _ => rfl, nofun⟩
      · rw [SITE.content, ← hcontent]
        simp
    · exact hholds.of_same (setSite_of_ne _ hij _)

omit hholds in
theorem bufferoldest_of_buffered (hbuffered : (s.Sites i).Buffered = true)
    (hbuffer : s.SITEbufferoldest writes = .ok s') : s'.Sites i = s.Sites i := by
  rcases SITEbufferoldest_cases hbuffer with ⟨-, rfl⟩ | ⟨j, -, ⟨-, rfl⟩ | ⟨hnot, cp, -, count, rfl⟩⟩
  · rfl
  · rfl
  · have hij : i ≠ j := by
      rintro rfl
      rw [hbuffered] at hnot
      cases hnot
    exact setSite_of_ne _ hij _

theorem Holds.write (j count : Nat) : (s.write j count).Holds i content := by
  by_cases hij : i = j
  · subst hij
    rw [State.write]
    split
    · exact hholds
    next cp hcp =>
      have hcontent := hholds.content
      rw [SITE.content, hcp] at hcontent
      refine ⟨?_, ?_⟩ <;> rw [setSite_self]
      · refine ⟨fun hbuffered => ?_, hholds.sound.buffer⟩
        rw [hholds.sound.channel hbuffered] at hcp
        cases hcp
      · rw [SITE.content, ← hcontent]
        simp only [Option.elim_some, List.append_assoc]
        rw [← List.append_assoc (List.take _ _), List.take_append_drop]
  · exact hholds.of_same (write_of_ne hij s count)

omit hholds in
theorem SITEsetup_site (s : State) (i MaxOutgoing : Nat) (hresult : result ≠ .failed) :
    (s.SITEsetup MaxOutgoing i result).2 = true ∧
      ((s.SITEsetup MaxOutgoing i result).1.Sites i =
        { s.Sites i with Buffered := true, Channel := none, Buffer := [] } ∧
          (s.SITEcount < MaxOutgoing → result = .EMFILE) ∨
        (s.SITEsetup MaxOutgoing i result).1.Sites i =
          { s.Sites i with Buffered := false, Channel := some ⟨[], false, s.opened⟩ }) := by
  rw [SITEsetup]
  split
  next hfull => exact ⟨rfl,
    .inl ⟨by simp [SITEbuffer], fun hroom => absurd hfull (Int.not_le.mpr hroom)⟩⟩
  · cases result with
    | opened => exact ⟨rfl, .inr (by simp [CHANcreate, SITEmovetohead_opened])⟩
    | EMFILE => exact ⟨rfl, .inl ⟨by simp [SITEbuffer], fun _ => rfl⟩⟩
    | failed => exact absurd rfl hresult

theorem Holds.setup (hchannel : (s.Sites i).Channel = none)
    (hempty : (s.Sites i).Buffer = []) (MaxOutgoing : Nat) (hresult : result ≠ .failed) :
    (s.SITEsetup MaxOutgoing i result).1.Holds i content := by
  have hcontent := hholds.content
  rw [SITE.content, hchannel, hempty] at hcontent
  rcases (SITEsetup_site s i MaxOutgoing hresult).2 with ⟨hsite, -⟩ | hsite
  · refine ⟨?_, ?_⟩ <;> rw [hsite]
    · exact ⟨fun _ => rfl, nofun⟩
    · exact hcontent
  · refine ⟨?_, ?_⟩ <;> rw [hsite]
    · exact ⟨nofun, fun _ => hempty⟩
    · rw [SITE.content, hempty]
      exact hcontent

theorem Holds.flushcheck (hlossless : s.Lossless MaxOutgoing i (.SITEflushcheck j result writes))
    (hflush : s.SITEflushcheck MaxOutgoing j result writes = .ok s') : s'.Holds i content := by
  rw [SITEflushcheck] at hflush
  split at hflush
  next hbuffered =>
    split at hflush
    · cases hflush
      exact hholds
    next hfull =>
      split at hflush
      · cases hflush
      next t hroom =>
        dsimp only at hflush
        by_cases hij : i = j
        · subst hij
          have hkeeps (t t' : State) (ht : t.Sites i = s.Sites i)
              (hbuffer : t.SITEbufferoldest writes = .ok t') :
              t'.Sites i = s.Sites i := by
            rw [← ht] at hbuffered ⊢
            exact bufferoldest_of_buffered hbuffered hbuffer
          obtain ⟨hsame, hcount⟩ := makeRoom_keeps hkeeps rfl hroom
          have hunbuffers := hlossless rfl hbuffered (Nat.not_lt.mp hfull)
          have hresult : result ≠ .failed := by
            rintro rfl
            rcases hunbuffers with hopened | ⟨hemfile, -⟩
            · cases hopened
            · cases hemfile
          obtain ⟨hok, ⟨hsite, hemfile⟩ | hsite⟩ := SITEsetup_site t i MaxOutgoing hresult
          · have hempty : (s.Sites i).Buffer = [] := by
              rcases hunbuffers with rfl | ⟨-, hempty⟩
              · exact absurd (hemfile hcount) (by rintro ⟨⟩)
              · exact hempty
            rw [if_pos (by rw [hsite]; simp)] at hflush
            cases hflush
            exact (hholds.of_same hsame).setup (by rw [hsame]; exact hholds.sound.channel hbuffered)
              (by rw [hsame]; exact hempty) MaxOutgoing hresult
          · rw [if_neg (by rw [hok, hsite]; simp)] at hflush
            cases hflush
            have hcontent := hholds.content
            rw [SITE.content, hholds.sound.channel hbuffered] at hcontent
            refine ⟨?_, ?_⟩ <;> rw [unbuffer, setSite_self, hsite, hsame]
            · exact ⟨by rintro ⟨⟩, fun _ => rfl⟩
            · rw [← hcontent, SITE.content]
              simp
        · have hkeeps (t t' : State) (ht : t.Holds i content)
              (hbuffer : t.SITEbufferoldest writes = .ok t') :
              t'.Holds i content := ht.bufferoldest hbuffer
          have hholds' := (makeRoom_keeps hkeeps hholds hroom).1
          have hsetup := SITEsetup_of_ne hij t MaxOutgoing result
          split at hflush
          · cases hflush
            exact hholds'.of_same hsetup
          · cases hflush
            exact hholds'.of_same ((unbuffer_of_ne hij _).trans hsetup)
  · split at hflush
    · cases hflush
    · cases hflush
      exact hholds

theorem Holds.unbufferToFlush (hresult : unbuffered ≠ .failed)
    (hlossless : (s.Sites i).Buffered = true → unbuffered = .opened ∧ 0 < MaxOutgoing ∨
      (s.Sites i).Buffer = []) :
    (s.unbufferToFlush MaxOutgoing i unbuffered).Holds i content ∧
      ((s.unbufferToFlush MaxOutgoing i unbuffered).Sites i).Buffer = [] := by
  rw [State.unbufferToFlush]
  split
  next hbuffered =>
    dsimp only
    have hnone := hholds.sound.channel hbuffered
    have hcontent := hholds.content
    rw [SITE.content, hnone] at hcontent
    obtain ⟨hok, ⟨hsite, hemfile⟩ | hsite⟩ :=
      SITEsetup_site { s with SITEcount := 0 } i MaxOutgoing hresult
    · have hempty : (s.Sites i).Buffer = [] := by
        rcases hlossless hbuffered with ⟨rfl, hmax⟩ | hempty
        · exact absurd (hemfile (Int.ofNat_lt.mpr hmax)) nofun
        · exact hempty
      rw [if_pos (by rw [hsite]; simp)]
      have hholds' : ({ s with SITEcount := 0 } : State).Holds i content := hholds.of_same rfl
      exact ⟨(hholds'.setup hnone hempty MaxOutgoing hresult).of_same rfl,
        congrArg SITE.Buffer hsite⟩
    · rw [if_neg (by rw [hok, hsite]; simp), swapBuffers, hsite]
      dsimp only
      refine ⟨⟨?_, ?_⟩, ?_⟩
      · exact ⟨by simp, by simp⟩
      · rw [← hcontent, SITE.content]
        simp
      · simp
  next hbuffered => exact ⟨hholds, hholds.sound.buffer (Bool.eq_false_iff.mpr hbuffered)⟩

theorem Holds.restart (hempty : (s.Sites i).Buffer = [])
    (hresult : restarted ≠ .failed) : (s.restart MaxOutgoing i restarted).Holds i content := by
  rw [State.restart]
  split
  next hchannel => exact hholds.setup hchannel hempty MaxOutgoing hresult
  next cp hcp =>
    have hcontent := hholds.content
    rw [SITE.content, hcp, hempty] at hcontent
    obtain ⟨hok, ⟨hsite, -⟩ | hsite⟩ := SITEsetup_site s i MaxOutgoing hresult
    · rw [if_pos hok, keepPending, if_pos (by rw [hsite])]
      split
      next hout =>
        refine ⟨?_, ?_⟩ <;> rw [SITEunlink_Sites, hsite]
        · exact ⟨fun _ => rfl, nofun⟩
        · rw [← hcontent, SITE.content]
          simp [hout]
      · refine ⟨?_, ?_⟩ <;> rw [SITEunlink_Sites, setSite_self, hsite]
        · exact ⟨fun _ => rfl, nofun⟩
        · rw [← hcontent, SITE.content]
          simp
    · rw [if_pos hok, keepPending, if_neg (by rw [hsite]; simp)]
      refine ⟨?_, ?_⟩ <;> rw [SITEunlink_Sites, setSite_self, hsite]
      · exact ⟨nofun, fun _ => hempty⟩
      · rw [← hcontent, SITE.content, hempty]
        rfl

theorem Holds.shut (hempty : (s.Sites i).Buffer = []) : (s.shut i).Holds i content := by
  rw [State.shut]
  split
  · exact hholds
  next cp hcp =>
    split
    · exact hholds
    next hout =>
      have hcontent := hholds.content
      rw [SITE.content, hcp, hempty] at hcontent
      refine ⟨?_, ?_⟩ <;> rw [SITEunlink_Sites, setSite_self]
      · exact ⟨fun _ => rfl, fun _ => hempty⟩
      · rw [← hcontent, SITE.content, hempty]
        simp [not_not.mp hout]

theorem Holds.flush {Restart : Bool}
    (hlossless : s.Lossless MaxOutgoing i (.SITEflush j Restart unbuffered restarted count)) :
    (s.SITEflush MaxOutgoing j Restart unbuffered restarted count).Holds i content := by
  by_cases hij : j = i
  · subst hij
    obtain ⟨hunbuffered, hrestarted, hlossless⟩ := hlossless rfl
    rw [SITEflush]
    split
    · exact hholds
    next hname =>
      obtain ⟨hflush, hempty⟩ := hholds.unbufferToFlush hunbuffered (hlossless hname)
      have hwritten := hflush.write j count
      have hempty' : (((s.unbufferToFlush MaxOutgoing j unbuffered).write j count).Sites j).Buffer =
          [] := by
        rw [State.write]
        split
        · exact hempty
        · rw [setSite_self]
          exact hempty
      split
      · exact hwritten.restart hempty' hrestarted
      · exact hwritten.shut hempty'
  · exact hholds.of_same (SITEflush_of_ne (Ne.symm hij) s MaxOutgoing Restart unbuffered
      restarted count)

theorem Holds.writefromflags {line : List UInt8}
    (hlossless : s.Lossless MaxOutgoing i (.SITEwritefromflags j line result writes))
    (hwrite : s.SITEwritefromflags MaxOutgoing j line result writes = .ok s') :
    s'.Holds i (content ++ (Call.SITEwritefromflags j line result writes).sent i) := by
  rw [SITEwritefromflags] at hwrite
  by_cases hij : j = i
  · subst hij
    rw [Call.sent, if_pos rfl]
    obtain ⟨hset, hlossless⟩ := hlossless rfl
    have hcontent := hholds.content
    split at hwrite
    next hbuffered =>
      have hnone := hholds.sound.channel hbuffered
      refine Holds.flushcheck ⟨?_, ?_⟩ (fun _ _ => ?_) hwrite
      · rw [setSite_self]
        exact ⟨fun _ => hnone, fun hnot => absurd (hbuffered.symm.trans hnot) (by rintro ⟨⟩)⟩
      · rw [setSite_self, ← hcontent, SITE.content, SITE.content, hnone]
        simp
      · rw [setSite_self]
        exact hlossless hbuffered
    next hbuffered =>
      have hempty := hholds.sound.buffer (Bool.eq_false_iff.mpr hbuffered)
      split at hwrite
      next hnone => exact absurd hnone (hset.resolve_left hbuffered)
      next cp hcp =>
        refine Holds.flushcheck ⟨?_, ?_⟩ (fun _ hbuffered' => ?_) hwrite
        · rw [setSite_self]
          exact ⟨fun hbuffered' => absurd hbuffered' hbuffered, fun _ => hempty⟩
        · rw [setSite_self, ← hcontent, SITE.content, SITE.content, hcp, hempty]
          simp
        · rw [setSite_self] at hbuffered'
          exact absurd hbuffered' hbuffered
  · have hne := Ne.symm hij
    have hother (s : State) (hs : s.Holds i content)
        (hflush : s.SITEflushcheck MaxOutgoing j result writes = .ok s') : s'.Holds i content :=
      hs.flushcheck (fun heq => absurd heq hij) hflush
    rw [Call.sent, if_neg hij, List.append_nil]
    split at hwrite
    · exact hother _ (hholds.of_same (setSite_of_ne s hne _)) hwrite
    · split at hwrite
      · cases hwrite
        exact hholds
      · exact hother _ (hholds.of_same (setSite_of_ne s hne _)) hwrite

theorem Holds.quiet {call : Call} (hsent : call.sent i = []) :
    s.Holds i (content ++ call.sent i) := by
  rwa [hsent, List.append_nil]

theorem Holds.step {call : Call} (hlossless : s.Lossless MaxOutgoing i call)
    (hstep : s.step MaxOutgoing call = .ok s') : s'.Holds i (content ++ call.sent i) := by
  cases call with
  | SITEwritefromflags j line result writes => exact hholds.writefromflags hlossless hstep
  | SITEsetup j result =>
    cases hstep
    refine Holds.quiet ?_ rfl
    by_cases hij : j = i
    · subst hij
      obtain ⟨hchannel, hempty, hresult⟩ := hlossless rfl
      exact hholds.setup hchannel hempty MaxOutgoing hresult
    · exact hholds.of_same (SITEsetup_of_ne (Ne.symm hij) s MaxOutgoing result)
  | SITEflushcheck j result writes => exact (hholds.flushcheck hlossless hstep).quiet rfl
  | SITEbufferoldest writes => exact (hholds.bufferoldest hstep).quiet rfl
  | SITEflush j Restart unbuffered restarted count =>
    cases hstep
    exact (hholds.flush hlossless).quiet rfl
  | SITEdrop j unbuffered count =>
    cases hstep
    have hne := Ne.symm (show j ≠ i from hlossless)
    have hflush := SITEflush_of_ne hne s MaxOutgoing false unbuffered .failed count
    refine (hholds.of_same ?_).quiet rfl
    rw [SITEdrop, SITEfree, setSite_of_ne _ hne, SITEunlink_Sites, setSite_of_ne _ hne, hflush]
  | write j count =>
    cases hstep
    exact (hholds.write j count).quiet rfl

omit hholds in
theorem initial_holds (Name : Nat → Option String) (Flushpoint : Nat → Nat) (i : Nat) :
    (initial Name Flushpoint).Holds i [] := ⟨⟨fun _ => rfl, fun _ => rfl⟩, rfl⟩

theorem Holds.run {calls : List Call}
    (hlossless : Meets (State.step MaxOutgoing) (State.Lossless MaxOutgoing i) calls s)
    (hrun : run (State.step MaxOutgoing) calls s = .ok s') :
    s'.Holds i (content ++ calls.flatMap (Call.sent i)) := by
  induction calls generalizing s content with
  | nil =>
    cases hrun
    rwa [List.flatMap_nil, List.append_nil]
  | cons call calls ih =>
    rw [Foundation.Runs.run] at hrun
    split at hrun
    · cases hrun
    next s₁ hstep =>
      rw [List.flatMap_cons, ← List.append_assoc]
      exact ih (hholds.step hlossless.1 hstep) (hlossless.2 s₁ hstep) hrun

end Holding

/-- As long as a buffered site can be given its file whenever it is to be, what has been written for
the site and what waits for it are the lines that have been sent, in order. -/
theorem run_content (MaxOutgoing i : Nat) (Name : Nat → Option String) (Flushpoint : Nat → Nat)
    (calls : List Call)
    (hlossless : Meets (State.step MaxOutgoing) (State.Lossless MaxOutgoing i) calls
      (initial Name Flushpoint)) :
    (∀ s, run (State.step MaxOutgoing) calls (initial Name Flushpoint) = .ok s →
        (s.Sites i).content = calls.flatMap (Call.sent i)) ∧
      (0 < MaxOutgoing → run (State.step MaxOutgoing) calls (initial Name Flushpoint) ≠
        .error .endless) := by
  refine ⟨fun s hrun => ((initial_holds Name Flushpoint i).run hlossless hrun).content,
    fun hmax => ?_⟩
  have hstep (s : State) (call : Call) (_ : True) (_ : s.Lossless MaxOutgoing i call) :
      s.step MaxOutgoing call ≠ .error .endless := step_ne_endless hmax call
  exact run_ne_error hstep (fun _ _ _ _ _ => trivial) calls trivial hlossless

def secondLine : List Call :=
  [.SITEsetup 0 .EMFILE, .SITEwritefromflags 0 [97, 10] .EMFILE fun _ => 0,
    .SITEwritefromflags 0 [98, 10] .opened fun _ => 0]

theorem run_content_unbuffered :
    ∃ s, run (State.step 1) secondLine (initial (fun _ => some "feed") fun _ => 4) = .ok s ∧
      (s.Sites 0).content = [97, 10, 98, 10] := by
  refine ⟨_, rfl, (run_content 1 0 (fun _ => some "feed") (fun _ => 4) secondLine ?_).1 _ rfl⟩
  refine ⟨fun _ => ⟨rfl, rfl, nofun⟩, fun s hs => ?_⟩
  obtain rfl := Except.ok.inj hs
  refine ⟨fun _ => ⟨.inl rfl, fun _ hfull => absurd hfull (by decide)⟩, fun s hs => ?_⟩
  obtain rfl := Except.ok.inj hs
  exact ⟨fun _ => ⟨.inl rfl, fun _ _ => .inl rfl⟩, fun _ _ => trivial⟩

/-- There is still no descriptor for the file when the buffer is full: both lines are lost. -/
theorem not_content_EMFILE : ¬ ∀ calls s,
    run (State.step 1) calls (initial (fun _ => some "feed") fun _ => 4) = .ok s →
      (s.Sites 0).content = calls.flatMap (Call.sent 0) := by
  intro hcontent
  have hlost := hcontent [.SITEsetup 0 .EMFILE, .SITEwritefromflags 0 [97, 10] .EMFILE fun _ => 0,
    .SITEwritefromflags 0 [98, 10] .EMFILE fun _ => 0] _ rfl
  revert hlost
  decide

end State

end Inn.Innd.Feeds
