import Inn.Confparse.Parser
import Inn.Confparse.Tokens

/-!
# A configuration file in pieces

The parser over the buffer and the parser over a text take the same tokens, so that they find the
same groups. It follows that it makes no difference how a file is read, unless a careful run stops.
-/

namespace Inn.Confparse

open Foundation.Careful

section Parsing

def Live (whole nul : Prop) (n : Nat) (f : ConfigFile Reader) (g : ConfigFile Text) : Prop :=
  Before whole f g ∧ g.reader.text.length < n ∧ (nul ↔ 0 ∈ g.reader.text) ∧ f.type ≠ .EOF

def Found (whole nul : Prop) (n : Nat) (f : ConfigFile Reader) (g : ConfigFile Text) : Prop :=
  (f.type = .ERROR ∧ g.type = .ERROR) ∨ (f.type = .EOF ∧ g.type = .EOF ∧ g.error = f.error ∧ ¬nul) ∨
    Live whole nul n f g

variable {whole nul : Prop} {n m bound : Nat} {f : ConfigFile Reader} {g : ConfigFile Text}

theorem Before.over (h : Before whole f g) : ∃ text, g = f.over text := by
  obtain ⟨text, hg, -⟩ | ⟨hg, -⟩ := h
  · exact ⟨_, hg⟩
  · exact ⟨_, hg⟩

theorem Live.mono (h : Live whole nul n f g) (hle : n ≤ m) : Live whole nul m f g :=
    ⟨h.1, Nat.lt_of_lt_of_le h.2.1 hle, h.2.2⟩

theorem Live.succ (h : Live whole nul n f g) : ∃ k, n = k + 1 := by
  obtain ⟨-, hlt, -⟩ := h
  exact ⟨n - 1, by omega⟩

theorem next_agrees (h : Live whole nul (n + 1) f g) :
    Agrees .slip whole (fun careful => tokenNext careful f) (Text.tokenNext g)
      (Found whole nul n) := by
  obtain ⟨hbefore, hlength, hnul, -⟩ := h
  refine (tokenNext_agrees hbefore).mono fun f' g' hspec hrelated => ?_
  have hprogress := tokenNext_progress hspec
  obtain herror | ⟨hend, hend', herror⟩ | ⟨text, rfl, hahead⟩ := hrelated
  · exact .inl herror
  · refine .inr (.inl ⟨hend, hend', herror, fun h => ?_⟩)
    obtain hwrong | ⟨-, hplain⟩ | hstarted := hprogress
    · exact absurd (hwrong.symm.trans hend') (by decide)
    · exact hplain (hnul.mp h)
    · exact absurd hend' hstarted.1
  · obtain herror | ⟨hend, hplain⟩ | ⟨hnot, hshort, hmem⟩ := hprogress
    · exact .inl ⟨herror, herror⟩
    · exact .inr (.inl ⟨hend, hend, rfl, fun h => hplain (hnul.mp h)⟩)
    · exact .inr (.inr ⟨.inl ⟨text, rfl, hahead⟩, by omega, hnul.trans hmem, hnot⟩)

theorem listStrings_agrees (h : Found whole nul n f g) (hbound : n < bound)
    (strings : List Octets) :
    Agrees .slip whole (fun careful => listStrings (tokenNext careful) bound strings f)
      (listStrings Text.tokenNext bound strings g)
      (fun result spec => result.1 = spec.1 ∧
        (result.1.isSome → Live whole nul n result.2 spec.2)) := by
  induction bound generalizing f g n strings with
  | zero => exact absurd hbound (Nat.not_lt_zero _)
  | succ bound ih =>
    obtain ⟨herror, herror'⟩ | ⟨hend, hend', -⟩ | hlive := h
    · simp only [listStrings, herror, herror']
      exact .ok (fun _ => rfl) ⟨rfl, nofun⟩
    · simp only [listStrings, hend, hend']
      exact .ok (fun _ => rfl) ⟨rfl, nofun⟩
    obtain ⟨k, rfl⟩ := hlive.succ
    obtain ⟨text, rfl⟩ := hlive.1.over
    have hnext (strings : List Octets) :
        Agrees .slip whole (fun careful => tokenNext careful f >>=
          listStrings (tokenNext careful) bound strings)
          (Text.tokenNext (f.over text) >>= listStrings Text.tokenNext bound strings)
          (fun result spec => result.1 = spec.1 ∧
            (result.1.isSome → Live whole nul (k + 1) result.2 spec.2)) :=
      (next_agrees hlive).bind fun f' g' _ hfound =>
        (ih hfound (by omega) strings).mono fun result spec _ hsame =>
          ⟨hsame.1, fun h => (hsame.2 h).mono (Nat.le_succ k)⟩
    have hsame : (f.over text).type = f.type := rfl
    have hsame' : (f.over text).string = f.string := rfl
    simp only [listStrings, hsame, hsame']
    cases f.type with
    | RBRACKET => exact .ok (fun _ => rfl) ⟨rfl, fun _ => hlive⟩
    | CRLF => exact hnext strings
    | STRING => exact hnext _
    | QSTRING =>
      cases tokenUnquoteString f.string with
      | none => exact .ok (fun _ => rfl) ⟨rfl, nofun⟩
      | some string => exact hnext _
    | _ => exact .ok (fun _ => rfl) ⟨rfl, nofun⟩

def Followed (whole nul : Prop) (n : Nat) (result : TokenType × ConfigGroup × ConfigFile Reader)
    (spec : TokenType × ConfigGroup × ConfigFile Text) : Prop :=
  result.1 = spec.1 ∧ result.2.1 = spec.2.1 ∧
    (result.1 = .ERROR ∨
      (result.1 = .EOF ∧ result.2.2.type = .EOF ∧ spec.2.2.type = .EOF ∧
        spec.2.2.error = result.2.2.error ∧ ¬nul) ∨
      result.1 = result.2.2.type ∧ Live whole nul n result.2.2 spec.2.2)

theorem Followed.mono {result : TokenType × ConfigGroup × ConfigFile Reader}
    {spec : TokenType × ConfigGroup × ConfigFile Text} (h : Followed whole nul n result spec)
    (hle : n ≤ m) :
    Followed whole nul m result spec :=
  ⟨h.1, h.2.1, h.2.2.imp_right fun h => h.imp_right fun h => ⟨h.1, h.2.mono hle⟩⟩

theorem Found.followed (h : Found whole nul n f g) (group : ConfigGroup) :
    Followed whole nul n (f.type, group, f) (g.type, group, g) := by
  obtain ⟨herror, herror'⟩ | ⟨hend, hend', hsame, hplain⟩ | hlive := h
  · exact ⟨herror.trans herror'.symm, rfl, .inl herror⟩
  · exact ⟨hend.trans hend'.symm, rfl, .inr (.inl ⟨hend, hend, hend', hsame, hplain⟩)⟩
  · obtain ⟨text, rfl⟩ := hlive.1.over
    exact ⟨rfl, rfl, .inr (.inr ⟨rfl, hlive⟩)⟩

theorem Found.mono (h : Found whole nul n f g) (hle : n ≤ m) : Found whole nul m f g := by
  obtain herror | hend | hlive := h
  · exact .inl herror
  · exact .inr (.inl hend)
  · exact .inr (.inr (hlive.mono hle))

theorem parseList_agrees (h : Live whole nul (n + 1) f g) (hbound : n < bound) (group : ConfigGroup)
    (key : Octets) :
    Agrees .slip whole (fun careful => parseList (tokenNext careful) bound group key f)
      (parseList Text.tokenNext bound group key g) (Followed whole nul n) := by
  refine (next_agrees h).bind fun f' g' _ hfound => ?_
  refine (listStrings_agrees hfound hbound []).bind fun result spec _ hsame => ?_
  obtain ⟨strings, f''⟩ := result
  obtain ⟨strings', g''⟩ := spec
  obtain ⟨rfl, hlive⟩ := hsame
  cases strings with
  | none => exact .ok (fun _ => rfl) ⟨rfl, rfl, .inl rfl⟩
  | some strings =>
    have hlive' := hlive rfl
    obtain ⟨k, rfl⟩ := hlive'.succ
    obtain ⟨text, rfl⟩ := hlive'.1.over
    refine (next_agrees hlive').bind fun f₃ g₃ _ hfound' => ?_
    exact .ok (fun _ => rfl) ((hfound'.mono (Nat.le_succ k)).followed _)

theorem parseParameter_agrees (h : Live whole nul (n + 1) f g) (hbound : n < bound)
    (group : ConfigGroup) (key : Octets) :
    Agrees .slip whole (fun careful => parseParameter (tokenNext careful) bound group key f)
      (parseParameter Text.tokenNext bound group key g) (Followed whole nul n) := by
  refine (next_agrees h).bind fun f' g' _ hfound => ?_
  obtain ⟨herror, herror'⟩ | ⟨hend, hend', -⟩ | hlive := hfound
  · simp only [herror, herror']
    exact .ok (fun _ => rfl) ⟨rfl, rfl, .inl rfl⟩
  · simp only [hend, hend']
    exact .ok (fun _ => rfl) ⟨rfl, rfl, .inl rfl⟩
  obtain ⟨k, rfl⟩ := hlive.succ
  obtain ⟨text, rfl⟩ := hlive.1.over
  have hsame : (f'.over text).type = f'.type := rfl
  have hsame' : (f'.over text).string = f'.string := rfl
  have hline : (f'.over text).line = f'.line := rfl
  simp only [hsame, hsame', hline]
  by_cases hlist : f'.type = .LBRACKET
  · simp only [if_pos hlist]
    exact (parseList_agrees hlive (by omega) group key).mono fun result spec _ hfollowed =>
      hfollowed.mono (Nat.le_succ k)
  simp only [if_neg hlist]
  by_cases hstring : f'.type = .STRING ∨ f'.type = .QSTRING
  · simp only [if_pos hstring]
    refine (next_agrees hlive).bind fun f'' g'' _ hfound => ?_
    have htype : g''.type = f''.type := ((hfound.followed group).1).symm
    simp only [htype]
    cases endsParameter f''.type with
    | true => exact .ok (fun _ => rfl) (htype ▸ (hfound.mono (Nat.le_succ k)).followed _)
    | false => exact .ok (fun _ => rfl) ⟨rfl, rfl, .inl rfl⟩
  · simp only [if_neg hstring]
    exact .ok (fun _ => rfl) ⟨rfl, rfl, .inl rfl⟩

theorem separators_agrees {semicolon : Bool} {token : TokenType} {group : ConfigGroup}
    (h : Followed whole nul n (token, group, f) (token, group, g)) (hbound : n < bound) :
    Agrees .slip whole (fun careful => separators (tokenNext careful) bound semicolon token f)
      (separators Text.tokenNext bound semicolon token g)
      (fun result spec => result.1 = spec.1 ∧
        Followed whole nul n (result.2.1, group, result.2.2) (spec.2.1, group, spec.2.2)) := by
  induction bound generalizing f g n semicolon token with
  | zero => exact absurd hbound (Nat.not_lt_zero _)
  | succ bound ih =>
    simp only [separators]
    by_cases hseparator : token = .CRLF ∨ token = .SEMICOLON
    · simp only [if_pos hseparator]
      obtain ⟨-, -, rfl | ⟨rfl, -⟩ | ⟨-, hlive⟩⟩ := h
      · exact absurd hseparator (by decide)
      · exact absurd hseparator (by decide)
      obtain ⟨k, rfl⟩ := Live.succ hlive
      refine (next_agrees hlive).bind fun f' g' _ hfound => ?_
      have hfollowed := hfound.followed group
      have htype : g'.type = f'.type := hfollowed.1.symm
      rw [htype] at hfollowed ⊢
      exact (ih hfollowed (by omega)).mono fun result spec _ hsame =>
        ⟨hsame.1, hsame.2.mono (Nat.le_succ k)⟩
    · simp only [if_neg hseparator]
      exact .ok (fun _ => rfl) ⟨rfl, h⟩

def Parsed (R : ConfigFile Reader → ConfigFile Text → Prop)
    (result : Option (ConfigGroup × ConfigFile Reader))
    (spec : Option (ConfigGroup × ConfigFile Text)) : Prop :=
  (result = none ∧ spec = none) ∨ ∃ group f g, result = some (group, f) ∧
    spec = some (group, g) ∧ R f g

def Closed (whole nul : Prop) (n : Nat) (f : ConfigFile Reader) (g : ConfigFile Text) : Prop :=
  (f.type = .EOF ∧ g.type = .EOF ∧ ¬nul) ∨ f.type = .RBRACE ∧ g.type = .RBRACE ∧
    Live whole nul n f g

theorem Parsed.mono {R R' : ConfigFile Reader → ConfigFile Text → Prop}
    {result : Option (ConfigGroup × ConfigFile Reader)}
    {spec : Option (ConfigGroup × ConfigFile Text)}
    (h : Parsed R result spec) (hR : ∀ f g, R f g → R' f g) : Parsed R' result spec := by
  obtain hnone | ⟨group, f, g, hresult, hspec, hfg⟩ := h
  · exact .inl hnone
  · exact .inr ⟨group, f, g, hresult, hspec, hR f g hfg⟩

theorem Closed.mono (h : Closed whole nul n f g) (hle : n ≤ m) : Closed whole nul m f g :=
  h.imp_right fun h => ⟨h.1, h.2.1, h.2.2.mono hle⟩

def Includes (whole : Prop) (lower : Nat) (included : Bool → Include)
    (included' : Include) : Prop :=
  ∀ files group path, lower ≤ files.length → files.length ≤ 20 →
    Agrees .slip whole (fun careful => included careful files group path)
      (included' files group path) (· = ·)

variable {included : Bool → Include} {included' : Include} {lower : Nat} {files : List Octets}

theorem parseInclude_agrees (hincludes : Includes whole lower included included')
    (hlower : lower ≤ files.length) (h : Live whole nul (n + 1) f g) (group : ConfigGroup) :
    Agrees .slip whole (fun careful =>
      parseInclude (tokenNext careful) (included careful) files group f)
      (parseInclude Text.tokenNext included' files group g) (Parsed (Live whole nul n)) := by
  refine (next_agrees h).bind fun f' g' _ hfound => ?_
  obtain ⟨herror, herror'⟩ | ⟨hend, hend', -⟩ | hlive := hfound
  · simp only [herror, herror']
    exact .ok (fun _ => rfl) (.inl ⟨rfl, rfl⟩)
  · simp only [hend, hend']
    exact .ok (fun _ => rfl) (.inl ⟨rfl, rfl⟩)
  obtain ⟨k, rfl⟩ := hlive.succ
  obtain ⟨text, rfl⟩ := hlive.1.over
  have hsame : (f'.over text).type = f'.type := rfl
  have hsame' : (f'.over text).string = f'.string := rfl
  simp only [hsame, hsame']
  by_cases hstring : f'.type = .STRING
  swap
  · simp only [if_pos hstring]
    exact .ok (fun _ => rfl) (.inl ⟨rfl, rfl⟩)
  simp only [if_neg (not_not.mpr hstring)]
  refine (next_agrees hlive).bind fun f₂ g₂ _ hfound => ?_
  have htype : g₂.type = f₂.type := ((hfound.followed group).1).symm
  simp only [htype]
  by_cases hangle : f₂.type = .RANGLE
  swap
  · simp only [if_pos hangle]
    exact .ok (fun _ => rfl) (.inl ⟨rfl, rfl⟩)
  have hlive₂ : Live whole nul (k + 1) f₂ g₂ := by
    obtain ⟨herror, -⟩ | ⟨hend, -⟩ | hlive := hfound
    · exact absurd (hangle.symm.trans herror) (by decide)
    · exact absurd (hangle.symm.trans hend) (by decide)
    · exact hlive.mono (Nat.le_succ k)
  simp only [if_neg (not_not.mpr hangle)]
  by_cases hrefused : includePath group f'.string ∈ files ∨ 20 < files.length
  · simp only [if_pos hrefused]
    exact .ok (fun _ => rfl) (.inl ⟨rfl, rfl⟩)
  simp only [if_neg hrefused]
  rw [not_or, Nat.not_lt] at hrefused
  refine (hincludes files _ _ hlower hrefused.2).bind fun result spec _ hresult => ?_
  subst hresult
  cases result with
  | none => exact .ok (fun _ => rfl) (.inl ⟨rfl, rfl⟩)
  | some group => exact .ok (fun _ => rfl) (.inr ⟨group, f₂, g₂, rfl, rfl, hlive₂⟩)

abbrev Contents (ρ : Type) :=
    List Octets → ConfigGroup → ConfigFile ρ → Except Fault (Option (ConfigGroup × ConfigFile ρ))

theorem groupTag_agrees (h : Found whole nul n f g) :
    Agrees .slip whole (fun careful => groupTag (tokenNext careful) f) (groupTag Text.tokenNext g)
      (fun result spec => result.1 = spec.1 ∧ Found whole nul n result.2 spec.2) := by
  have htype : g.type = f.type := ((h.followed (groupNew [] 0 [] none)).1).symm
  simp only [groupTag, htype]
  by_cases hname : f.type = .STRING
  · obtain ⟨herror, -⟩ | ⟨hend, -⟩ | hlive := h
    · exact absurd (hname.symm.trans herror) (by decide)
    · exact absurd (hname.symm.trans hend) (by decide)
    obtain ⟨k, rfl⟩ := hlive.succ
    obtain ⟨text, rfl⟩ := hlive.1.over
    simp only [if_pos hname]
    exact (next_agrees hlive).bind fun f₂ g₂ _ hfound =>
      .ok (fun _ => rfl) ⟨rfl, hfound.mono (Nat.le_succ k)⟩
  · simp only [if_neg hname]
    exact .ok (fun _ => rfl) ⟨rfl, h⟩

theorem parseGroup_agrees (contents : Bool → Contents Reader) (contents' : Contents Text)
    (hincludes : Includes whole lower included included') (hlower : lower ≤ files.length + 1)
    (hcontents : ∀ k < n, ∀ files group f g, lower ≤ files.length → Live whole nul (k + 1) f g →
      Agrees .slip whole (fun careful => contents careful files group f) (contents' files group g)
        (Parsed (Closed whole nul k)))
    (h : Live whole nul (n + 1) f g) (parent : ConfigGroup) :
    Agrees .slip whole (fun careful =>
      parseGroup (tokenNext careful) (included careful) (contents careful) files parent f)
      (parseGroup Text.tokenNext included' contents' files parent g)
        (Parsed (Live whole nul n)) := by
  obtain ⟨text, rfl⟩ := h.1.over
  have hstring : (f.over text).string = f.string := rfl
  refine (next_agrees h).bind fun f₁ g₁ _ hfound => ?_
  have htag := groupTag_agrees hfound
  refine htag.bind fun result spec _ hsame => ?_
  obtain ⟨tag, f₂⟩ := result
  obtain ⟨tag', g₂⟩ := spec
  obtain ⟨rfl, hfound⟩ := hsame
  dsimp only at hfound ⊢
  obtain ⟨herror, herror'⟩ | ⟨hend, hend', -⟩ | hlive := hfound
  · simp only [herror, herror']
    exact .ok (fun _ => rfl) (.inl ⟨rfl, rfl⟩)
  · simp only [hend, hend']
    exact .ok (fun _ => rfl) (.inl ⟨rfl, rfl⟩)
  obtain ⟨k, rfl⟩ := hlive.succ
  obtain ⟨text₂, rfl⟩ := hlive.1.over
  have hsame : (f₂.over text₂).type = f₂.type := rfl
  have hfilename : (f₂.over text₂).filename = f₂.filename := rfl
  have hline : (f₂.over text₂).line = f₂.line := rfl
  simp only [hsame, hfilename, hline, hstring]
  have hlength : lower ≤ (f₂.filename :: files).length := hlower
  by_cases hangle : f₂.type = .LANGLE
  · simp only [if_pos hangle]
    refine (parseInclude_agrees hincludes hlength hlive _).bind fun result spec _ hparsed => ?_
    obtain ⟨rfl, rfl⟩ | ⟨group, f₃, g₃, rfl, rfl, hlive₃⟩ := hparsed
    · exact .ok (fun _ => rfl) (.inl ⟨rfl, rfl⟩)
    · exact .ok (fun _ => rfl) (.inr ⟨_, f₃, g₃, rfl, rfl, hlive₃.mono (Nat.le_succ k)⟩)
  simp only [if_neg hangle]
  by_cases hbrace : f₂.type = .LBRACE
  swap
  · simp only [if_neg hbrace]
    exact .ok (fun _ => rfl) (.inl ⟨rfl, rfl⟩)
  simp only [if_pos hbrace]
  refine (hcontents k (Nat.lt_succ_self k) _ _ _ _ hlength hlive).bind fun result spec _ hparsed =>
    ?_
  obtain ⟨rfl, rfl⟩ | ⟨group, f₃, g₃, rfl, rfl, ⟨hend, hend', -⟩ | ⟨hclosed, hclosed', hlive₃⟩⟩ :=
    hparsed
  · exact .ok (fun _ => rfl) (.inl ⟨rfl, rfl⟩)
  · simp only [hend, hend']
    exact .ok (fun _ => rfl) (.inl ⟨rfl, rfl⟩)
  · simp only [hclosed, hclosed', if_true]
    exact .ok (fun _ => rfl) (.inr ⟨_, f₃, g₃, rfl, rfl, hlive₃.mono (Nat.le_succ k)⟩)

theorem groupContents_agrees {semicolon : Bool} {token : TokenType} {group : ConfigGroup}
    (hincludes : Includes whole lower included included') (hlower : lower ≤ files.length + 1)
    (h : Followed whole nul n (token, group, f) (token, group, g)) (hbound : n < bound) :
    Agrees .slip whole
      (fun careful => groupContents (tokenNext careful) (included careful) bound files semicolon
        token group f)
      (groupContents Text.tokenNext included' bound files semicolon token group g)
        (Parsed (Closed whole nul n)) := by
  induction bound generalizing f g n semicolon token group files with
  | zero => exact absurd hbound (Nat.not_lt_zero _)
  | succ bound ih =>
    simp only [groupContents]
    obtain ⟨-, -, rfl | ⟨rfl, hend, hend', herror, hplain⟩ | ⟨htoken, hlive⟩⟩ := h
    · simp only [ite_self]
      exact .ok (fun _ => rfl) (.inl ⟨rfl, rfl⟩)
    · dsimp only at herror hend hend'
      rw [herror]
      by_cases hfailed : f.error = true
      · simp only [if_pos hfailed]
        exact .ok (fun _ => rfl) (.inl ⟨rfl, rfl⟩)
      · simp only [if_neg hfailed]
        exact .ok (fun _ => rfl) (.inr ⟨group, f, g, rfl, rfl, .inl ⟨hend, hend', hplain⟩⟩)
    obtain ⟨k, rfl⟩ := Live.succ hlive
    obtain ⟨text, rfl⟩ := hlive.1.over
    have herror : (f.over text).error = f.error := rfl
    have hstring : (f.over text).string = f.string := rfl
    dsimp only at htoken hlive ⊢
    simp only [herror, hstring]
    by_cases hfailed : f.error = true
    · simp only [if_pos hfailed]
      exact .ok (fun _ => rfl) (.inl ⟨rfl, rfl⟩)
    simp only [if_neg hfailed]
    have hmore {files : List Octets} {semicolon : Bool} {group : ConfigGroup} {n : Nat}
        {f : ConfigFile Reader}
        {g : ConfigFile Text} (hlower : lower ≤ files.length + 1)
          (hlive : Live whole nul (n + 1) f g) (hbound : n < bound) :
        Agrees .slip whole
          (fun careful => tokenNext careful f >>= fun f =>
            groupContents (tokenNext careful) (included careful) bound files semicolon
              f.type group f)
          (Text.tokenNext g >>= fun g =>
            groupContents Text.tokenNext included' bound files semicolon g.type group g)
          (Parsed (Closed whole nul n)) := by
      refine (next_agrees hlive).bind fun f' g' _ hfound => ?_
      have hfollowed := hfound.followed group
      have htype : g'.type = f'.type := hfollowed.1.symm
      rw [htype] at hfollowed ⊢
      exact ih hlower hfollowed hbound
    have hwiden {result : Option (ConfigGroup × ConfigFile Reader)}
        {spec : Option (ConfigGroup × ConfigFile Text)} {n m : Nat}
        (hle : n ≤ m) (h : Parsed (Closed whole nul n) result spec) :
        Parsed (Closed whole nul m) result spec :=
      h.mono fun f g h => h.mono hle
    cases token with
    | PARAM =>
      cases group.child.isEmpty with
      | false =>
        simp only [Bool.false_eq_true, if_false]
        exact .ok (fun _ => rfl) (.inl ⟨rfl, rfl⟩)
      | true =>
        simp only [if_true]
        refine (parseParameter_agrees hlive (by omega) group f.string).bind
          fun result spec _ hfollowed => ?_
        obtain ⟨token, group', f₁⟩ := result
        obtain ⟨token', group'', g₁⟩ := spec
        obtain ⟨rfl, rfl, hrest⟩ := hfollowed
        refine (separators_agrees (show Followed whole nul k (token, group', f₁) (token, group',
          g₁) from ⟨rfl, rfl, hrest⟩)
          (by omega)).bind fun result spec _ hsame => ?_
        obtain ⟨semicolon', token', f₂⟩ := result
        obtain ⟨semicolon'', token'', g₂⟩ := spec
        obtain ⟨rfl, rfl, -, hrest'⟩ := hsame
        exact (ih hlower ⟨rfl, rfl, hrest'⟩ (by omega)).mono fun _ _ _ => hwiden (Nat.le_succ k)
    | CRLF => exact (hmore hlower hlive (by omega)).mono fun _ _ _ => hwiden (Nat.le_succ k)
    | STRING =>
      cases semicolon with
      | true => exact .ok (fun _ => rfl) (.inl ⟨rfl, rfl⟩)
      | false =>
        simp only [Bool.false_eq_true, if_false]
        have hgroup := parseGroup_agrees
          (fun careful files group f => tokenNext careful f >>= fun f =>
            groupContents (tokenNext careful) (included careful) bound files false f.type group f)
          (fun files group g => Text.tokenNext g >>= fun g =>
            groupContents Text.tokenNext included' bound files false g.type group g)
          hincludes hlower (fun j hj files group f g hlower hlive =>
            hmore (by omega) hlive (by omega)) hlive group
        refine hgroup.bind fun result spec _ hparsed => ?_
        obtain ⟨rfl, rfl⟩ | ⟨group', f₁, g₁, rfl, rfl, hlive₁⟩ := hparsed
        · exact .ok (fun _ => rfl) (.inl ⟨rfl, rfl⟩)
        obtain ⟨j, rfl⟩ := hlive₁.succ
        exact (hmore hlower hlive₁ (by omega)).mono fun _ _ _ => hwiden (by omega)
    | RBRACE => exact .ok (fun _ => rfl) (.inr ⟨group, f, f.over text, rfl, rfl,
      .inr ⟨htoken.symm, htoken.symm, hlive⟩⟩)
    | EOF => exact absurd htoken.symm hlive.2.2.2
    | _ => exact .ok (fun _ => rfl) (.inl ⟨rfl, rfl⟩)

theorem Live.nul_iff (h : Live whole nul n f g) : nul ↔ 0 ∈ f.reader.data := by
  obtain ⟨⟨text, rfl, window, hwindow, rfl, -⟩ | ⟨rfl, -⟩, -, hnul, -⟩ := h
  · exact hnul.trans (List.mem_append.trans (or_iff_right hwindow.plain))
  · exact hnul

theorem parseGroupContents_agrees (hincludes : Includes whole lower included included')
    (hlower : lower ≤ files.length + 1)
    (h : Live whole nul (n + 1) f g) (hbound : n < bound) (group : ConfigGroup) :
    Agrees .slip whole (fun careful =>
      parseGroupContents (tokenNext careful) (included careful) bound files group f)
      (parseGroupContents Text.tokenNext included' bound files group g)
        (Parsed (Closed whole nul n)) := by
  refine (next_agrees h).bind fun f' g' _ hfound => ?_
  have hfollowed := hfound.followed group
  have htype : g'.type = f'.type := hfollowed.1.symm
  rw [htype] at hfollowed ⊢
  exact groupContents_agrees hincludes hlower hfollowed hbound

end Parsing

def Text.fileOpen (text filename : Octets) : ConfigFile Text :=
    ⟨⟨text, false⟩, filename, 1, false, .ERROR, []⟩

def Text.parseFile (texts : Octets → Option Octets) : Nat → Include
  | 0 => fun _ _ _ => .error .bound
  | depth + 1 => fun files group path =>
    match texts path with
    | none => .ok none
    | some text =>
      if 0 ∈ text then .ok none
      else do
        let result ← parseGroupContents Text.tokenNext (parseFile texts depth)
          (text.length + 2) files group
          (Text.fileOpen text path)
        .ok (result.map Prod.fst)

section Files

variable {disks : Octets → Option Disk} {whole : Prop}

def Disk.first (disk : Disk) : Octets := ((fileOpen disk []).reader.read (disk.BUFSIZ - 1)).1

/-- The first read takes the whole file, with room to spare. -/
def Disk.Whole (disk : Disk) : Prop :=
  ((fileOpen disk []).reader.read (disk.BUFSIZ - 1)).2.data = [] ∧
    disk.first.length + 1 < disk.BUFSIZ

theorem Disk.content_eq (disk : Disk) :
    disk.content = disk.first ++ ((fileOpen disk []).reader.read (disk.BUFSIZ - 1)).2.data :=
  (read_data (fileOpen disk []).reader (disk.BUFSIZ - 1)).1.symm

theorem parseGroupContents_nul {disk : Disk} (hnul : 0 ∈ disk.first) (included : Include)
    (careful : Bool) (bound : Nat) (files : List Octets) (group : ConfigGroup) (path : Octets) :
    parseGroupContents (tokenNext careful) included (bound + 1) files group (fileOpen disk path) =
      .ok none := by
  have hread : fileRead careful (fileOpen disk path) = .ok (false, { fileOpen disk path with
      reader := { ((fileOpen disk path).reader.read (disk.BUFSIZ - 1)).2 with
        buffer := disk.first.map some ++ [some 0], current := some 0 } }) := by
    have hne : disk.first ≠ [] := List.ne_nil_of_mem hnul
    have hnul' : decide (0 ∉ disk.first) = false := decide_eq_false (not_not.mpr hnul)
    rw [← hnul']
    exact (if_neg hne).trans (if_neg fun h => nomatch h.2.1)
  have hnext : tokenNext careful (fileOpen disk path) = .ok { fileOpen disk path with
      reader := { ((fileOpen disk path).reader.read (disk.BUFSIZ - 1)).2 with
        buffer := disk.first.map some ++ [some 0], current := some 0 } } := by
    rw [tokenNext, if_pos (show (fileOpen disk path).reader.current = none from rfl), hread]
    rfl
  rw [parseGroupContents, hnext]
  rfl

theorem parseFile_agrees (hroom : ∀ path disk, disks path = some disk → 2 ≤ disk.BUFSIZ)
    (hwhole : whole → ∀ path disk, disks path = some disk → disk.Whole) {depth : Nat}
    {files : List Octets}
    (hdepth : 23 ≤ depth + files.length) (hfiles : files.length ≤ 20) (group : ConfigGroup)
    (path : Octets) :
    Agrees .slip whole (fun careful => parseFile careful disks depth files group path)
      (Text.parseFile (fun path => (disks path).map Disk.content) depth files group path)
        (· = ·) := by
  induction depth generalizing files group path with
  | zero => omega
  | succ depth ih =>
    simp only [parseFile, Text.parseFile]
    cases hdisk : disks path with
    | none => exact .ok (fun _ => rfl) rfl
    | some disk =>
      simp only [Option.map_some]
      by_cases hfirst : 0 ∈ disk.first
      · have hnul : 0 ∈ disk.content := disk.content_eq ▸ List.mem_append_left _ hfirst
        rw [if_pos hnul]
        exact .ok (a := none) (fun careful => by rw [parseGroupContents_nul hfirst]; rfl) rfl
      have hincludes : Includes whole (23 - depth) (fun careful => parseFile careful disks depth)
          (Text.parseFile (fun path => (disks path).map Disk.content) depth) :=
        fun files group path hlower hfiles => ih (by omega) hfiles group path
      have hlive : Live whole (0 ∈ disk.content) (disk.content.length + 1) (fileOpen disk path)
          (Text.fileOpen disk.content path) :=
        ⟨.inr ⟨rfl, rfl, hroom path disk hdisk,
          Nat.lt_of_lt_of_le Nat.two_pos (hroom path disk hdisk), hfirst,
          fun h => hwhole h path disk hdisk⟩, Nat.lt_succ_self _, Iff.rfl, nofun⟩
      have hcontents :=
        parseGroupContents_agrees hincludes (show 23 - depth ≤ files.length + 1 by omega) hlive
        (show disk.content.length < disk.content.length + 2 by omega) group
      by_cases hnul : 0 ∈ disk.content
      · have hnot : ¬whole := by
          intro h
          have hsplit := disk.content_eq
          rw [(hwhole h path disk hdisk).1, List.append_nil] at hsplit
          exact hfirst (hsplit ▸ hnul)
        rw [if_pos hnul]
        obtain ⟨hslip, -⟩ | ⟨result, spec, hrun, -, hparsed⟩ := hcontents
        · dsimp only at hslip
          exact .inl ⟨by dsimp only; rw [hslip]; rfl, fun h => absurd h hnot⟩
        simp only [hrun]
        obtain ⟨rfl, -⟩ | ⟨group, f, g, rfl, -, ⟨-, -, hplain⟩ | ⟨hbrace, -, hlive⟩⟩ := hparsed
        · exact .ok (fun _ => rfl) rfl
        · exact absurd hnul hplain
        · exact .inl ⟨if_pos ⟨rfl, hbrace, hlive.nul_iff.mp hnul⟩, fun h => absurd h hnot⟩
      · rw [if_neg hnul]
        refine hcontents.bind fun result spec _ hparsed => ?_
        obtain ⟨rfl, rfl⟩ | ⟨group, f, g, rfl, rfl, hclosed⟩ := hparsed
        · exact .ok (fun _ => rfl) rfl
        have hgoes (careful : Bool) : ¬(careful = true ∧ f.type = .RBRACE ∧ 0 ∈ f.reader.data) := by
          rintro ⟨-, hbrace, hmem⟩
          obtain ⟨hend, -⟩ | ⟨-, -, hlive⟩ := hclosed
          · exact absurd (hend.symm.trans hbrace) (by decide)
          · exact hnul (hlive.nul_iff.mpr hmem)
        simp only [if_neg (hgoes _)]
        exact .ok (fun _ => rfl) rfl

def wholly (disks : Octets → Option Disk) (path : Octets) : Option Disk :=
  (disks path).map fun disk =>
    { content := disk.content, reads := [], BUFSIZ := disk.content.length + 2 }

def SameResult (disks : Octets → Option Disk) (filename : Octets) : Prop :=
  ∃ result, configParseFile false disks filename = .ok result ∧
    configParseFile false (wholly disks) filename = .ok result ∧
    ∀ disk, disks filename = some disk → 0 ∈ disk.content → result = none

/-- A file is parsed as if it were read at once, unless a careful run would stop. -/
theorem config_parse_file_agrees (hroom : ∀ path disk, disks path = some disk → 2 ≤ disk.BUFSIZ)
    (filename : Octets) (hcareful : configParseFile true disks filename ≠ .error .slip) :
    SameResult disks filename := by
  have hsplit :=
    parseFile_agrees hroom (nofun : False → ∀ path disk, disks path = some disk → disk.Whole)
    (show 23 ≤ 22 + [filename].length from Nat.le_refl _) (Nat.le_add_left 1 19)
    (groupNew filename 1 (octets "GLOBAL") none) filename
  have hroom' : ∀ path disk, wholly disks path = some disk → 2 ≤ disk.BUFSIZ := by
    intro path disk hdisk
    obtain ⟨disk, -, rfl⟩ := Option.map_eq_some_iff.mp hdisk
    exact Nat.le_add_left 2 _
  have hwhole' : ∀ path disk, wholly disks path = some disk → disk.Whole := by
    intro path disk hdisk
    obtain ⟨disk, -, rfl⟩ := Option.map_eq_some_iff.mp hdisk
    have htake : disk.content.take (disk.content.length + 2 - 1) = disk.content :=
      List.take_of_length_le (Nat.le_succ _)
    refine ⟨List.drop_eq_nil_of_le (Nat.le_succ _), ?_⟩
    exact (congrArg (fun text => List.length text + 1) htake).trans_lt (Nat.lt_succ_self _)
  have hwholly := parseFile_agrees hroom' (fun _ : True => hwhole')
    (show 23 ≤ 22 + [filename].length from Nat.le_refl _) (Nat.le_add_left 1 19)
    (groupNew filename 1 (octets "GLOBAL") none) filename
  have htexts : (fun path => (wholly disks path).map Disk.content) = fun path =>
      (disks path).map Disk.content := by
    funext path
    rw [wholly, Option.map_map]
    rfl
  rw [htexts] at hwholly
  obtain ⟨hslip, -⟩ | ⟨result, spec, hrun, hspec, rfl⟩ := hsplit
  · exact absurd hslip hcareful
  obtain ⟨-, hslip⟩ | ⟨result', spec, hrun', hspec', rfl⟩ := hwholly
  · rw [hspec] at hslip
    exact absurd (hslip trivial) nofun
  obtain rfl := Except.ok.inj (hspec.symm.trans hspec')
  refine ⟨result, hrun false, hrun' false, fun disk hdisk hnul => ?_⟩
  rw [Text.parseFile] at hspec
  dsimp only at hspec
  rw [hdisk] at hspec
  exact (Except.ok.inj ((if_pos hnul).symm.trans hspec)).symm

def paramsOf (result : Except Fault (Option ConfigGroup)) :
    Option (Option (List ConfigParameter)) :=
  result.toOption.map fun group => group.map ConfigGroup.params

def onlyFile (disk : Disk) (path : Octets) : Option Disk :=
    if path = octets "f" then some disk else none

theorem onlyFile_room (disk : Disk) (hroom : 2 ≤ disk.BUFSIZ) (path : Octets) (disk' : Disk)
    (hdisk : onlyFile disk path = some disk') : 2 ≤ disk'.BUFSIZ := by
  rw [onlyFile, Option.ite_none_right_eq_some] at hdisk
  exact Option.some.inj hdisk.2 ▸ hroom

def severalReads : Disk := ⟨octets "a: b\r\n# c\n# d\ne: f\n", [4, 3], 8192⟩

theorem config_parse_file_agrees_several : SameResult (onlyFile severalReads) (octets "f") := by
  refine config_parse_file_agrees (onlyFile_room severalReads (by decide)) (octets "f")
    fun hslip => ?_
  have hparams : (paramsOf (configParseFile true (onlyFile severalReads) (octets "f"))).isSome =
      true := by decide
  rw [hslip] at hparams
  cases hparams

def splitValue : Disk := ⟨octets "a: bc\n", [3], 8192⟩

theorem not_sameResult : ¬∀ disks filename,
    (∀ path disk, disks path = some disk → 2 ≤ disk.BUFSIZ) → SameResult disks filename := by
  intro hsame
  obtain ⟨result, hsplit, hwhole, -⟩ :=
    hsame (onlyFile splitValue) (octets "f") (onlyFile_room splitValue (by decide))
  have hparams : paramsOf (configParseFile false (onlyFile splitValue) (octets "f")) =
      some (some [⟨octets "a", 1, .UNKNOWN (octets "b")⟩]) := by decide
  have hparams' : paramsOf (configParseFile false (wholly (onlyFile splitValue)) (octets "f")) =
      some (some [⟨octets "a", 1, .UNKNOWN (octets "bc")⟩]) := by decide
  rw [hsplit] at hparams
  rw [hwhole, hparams] at hparams'
  exact absurd hparams' (by decide)

end Files

end Inn.Confparse
