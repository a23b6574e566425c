import Inn.Foundation.Chunks
import Inn.Foundation.Runs
import Inn.Innd.Numbering

/-!
# Expiry by storage class

A line of the control file tells how long the articles of a storage class are kept, or those of all
classes that have no line. The times are noted as the dates that are so long ago, and one that never
comes as zero.
-/

namespace Inn.Expire

open Function (update update_self update_of_ne)
open Foundation.Chunks Foundation.Runs Foundation.Words
open Innd.Numbering (atol)

def NUM_STORAGE_CLASSES : Nat := 256

structure Settings where
  Now : Int
  RealNow : Int
  /-- `atof(word) > MAGIC_TIME` -/
  aboveMagic : Octets → Bool
  /-- `(time_t)(atof(word) * 86400.)` -/
  seconds : Octets → Int

/-- The rule of a storage class. -/
structure EXPIRECLASS where
  Keep : Int
  Default : Int
  Purge : Int
  Missing : Bool
  ReportedMissing : Bool
  deriving DecidableEq

abbrev Classes : Type := Fin (NUM_STORAGE_CLASSES + 1) → EXPIRECLASS

def defaultPlace : Fin (NUM_STORAGE_CLASSES + 1) := Fin.last NUM_STORAGE_CLASSES

section Lines

def EXPsplit (p : Octets) (sep : UInt8) (count : Nat) : Option (List Octets) :=
  let fields := words (· = sep) p.length (p.dropWhile (· = sep))
  if fields.length < count then some fields else none

inductive Line
  | blank
  /-- `EXPsplit` finds no field. -/
  | separators
  | refused
  | remember (time : Octets)
  | storage (name keep default purge : Octets)
  | group

def readLine (piece : Octets) : Line :=
  let buff := piece.takeWhile (· ≠ 0)
  -- the line is too long, or has a nul
  if 10 ∉ buff then .refused
  else
    let text := (buff.takeWhile fun c => c ≠ 10 && c ≠ 35).rdropWhile isspace
    if text = [] then .blank
    else
      match EXPsplit text 58 7 with
      | none => .refused
      | some [] => .separators
      | some fields =>
        if fields.head? = some (octets "/remember/") then
          match fields with
          | [_, time] => .remember time
          | _ => .refused
        else
          match fields with
          | [name, keep, default, purge] => .storage name keep default purge
          | [_, _, _, _, _] => .group
          | _ => .refused

def numeric (word : Octets) : Bool :=
  let p := word.dropWhile ISWHITE
  let p := if p.head? = some 43 ∨ p.head? = some 45 then p.tail else p
  p.all (fun c => isdigit c || c = 46) && p.count 46 ≤ 1

def isNever (word : Octets) : Bool := word.map toupper = octets "NEVER"

variable (settings : Settings)

def EXPgetnum (word : Octets) : Option Int :=
  if isNever word then some 0
  else if !numeric word then none
  else if settings.aboveMagic word then some 0
  else some (settings.Now - settings.seconds word)

def atoi (word : Octets) : Int := Int.bmod (atol word) (2 ^ 32)

def isDefault (name : Octets) : Bool := name = [42]

def place (name : Octets) : Int := if isDefault name then NUM_STORAGE_CLASSES else atoi name

inductive Stop
  | refused
  /-- The times are written behind the table, or `fields[0]` is compared before it is set. -/
  | undefined
  deriving DecidableEq

structure Reading where
  /-- `fields[0]` has been set by a line before. -/
  split : Bool
  EXPremember : Int
  SawDefault : Bool
  EXPclasses : Classes

def inOrder (Keep Default Purge : Int) : Bool :=
  Purge = 0 || ((Keep = 0 || Purge ≤ Keep) && (Default = 0 || Purge ≤ Default))

def storeClass (classes : Classes) (at_ : Int) (keep default purge : Octets) :
    Except Stop Classes :=
  match EXPgetnum settings keep with
  | none => .error .refused
  | some Keep =>
    if hplace : 0 ≤ at_ ∧ at_ < (NUM_STORAGE_CLASSES + 1 : Nat) then
      match EXPgetnum settings default, EXPgetnum settings purge with
      | some Default, some Purge =>
        if inOrder Keep Default Purge then
          let i : Fin (NUM_STORAGE_CLASSES + 1) := ⟨at_.toNat, by omega⟩
          .ok (update classes i ⟨Keep, Default, Purge, false, (classes i).ReportedMissing⟩)
        else .error .refused
      | _, _ => .error .refused
    else .error .undefined

def step (r : Reading) (piece : Octets) : Except Stop Reading :=
  match readLine piece with
  | .blank => .ok r
  | .group => .ok { r with split := true }
  | .refused => .error .refused
  -- the field of an earlier line does not make up for the fields that are missing
  | .separators => .error (if r.split then .refused else .undefined)
  | .remember time =>
    if r.EXPremember ≠ -1 then .error .refused
    else
      match EXPgetnum settings time with
      | none => .error .refused
      | some v => .ok { r with split := true, EXPremember := v }
  | .storage name keep default purge =>
    if isDefault name ∧ r.SawDefault then .error .refused
    else
      -- a class that does not exist is only warned about
      (storeClass settings r.EXPclasses (place name) keep default purge).map fun classes =>
        { r with
          split := true, SawDefault := r.SawDefault || isDefault name, EXPclasses := classes }

def initial (classes : Classes) : Reading where
  split := false
  EXPremember := -1
  SawDefault := false
  EXPclasses := fun i => { classes i with Missing := true, ReportedMissing := false }

def EXPreadfile (classes : Classes) (F : Octets) : Except Stop Reading :=
  run (step settings) (chunks 10 (BUFSIZ - 1) F) (initial classes)

end Lines

section Articles

variable (settings : Settings)

def EXPkeepit (classes : Classes) (c : Fin NUM_STORAGE_CLASSES) (when_ Expires : Int) :
    Classes × Bool :=
  let i := c.castSucc
  if (classes i).Missing ∧ (classes defaultPlace).Missing then
    (update classes i { classes i with ReportedMissing := true }, true)
  else
    let classes := if (classes i).Missing then update classes i (classes defaultPlace) else classes
    let class_ := classes i
    -- bad posting date
    let when_ :=
      if when_ > settings.RealNow + 86400 then if Expires ≠ 0 then class_.Purge
      else class_.Default else when_
    (classes,
      if Expires = 0 then class_.Default ≤ when_
      else class_.Purge ≤ when_ && (settings.Now ≤ Expires || class_.Keep ≤ when_))

end Articles

section Rules

variable (settings : Settings)

/-- The limits of a line, which are none for `never`. -/
structure Rule where
  keep : Option Int
  default : Option Int
  purge : Option Int
  deriving DecidableEq

def limit (word : Octets) : Option Int :=
  if isNever word ∨ settings.aboveMagic word then none
    else some (settings.Now - settings.seconds word)

def notOlder (date : Option Int) (when_ : Int) : Bool := date.all (· ≤ when_)

def Rule.keeps (rule : Rule) (when_ Expires : Int) : Bool :=
  if Expires = 0 then notOlder rule.default when_
  else notOlder rule.purge when_ && (settings.Now ≤ Expires || notOlder rule.keep when_)

def verdict (rule : Option Rule) (when_ Expires : Int) : Bool :=
    rule.all (·.keeps settings when_ Expires)

def inFuture (when_ : Int) : Bool := settings.RealNow + 86400 < when_

def classLines (lines : List Octets) : List (Octets × Rule) :=
  lines.filterMap fun line =>
    match readLine line with
    | .storage name keep default purge =>
        some (name, ⟨limit settings keep, limit settings default, limit settings purge⟩)
    | _ => none

def ruleFor (lines : List Octets) (named : Octets → Bool) : Option Rule :=
  (((classLines settings lines).filter fun line => named line.1).getLast?).map Prod.snd

def ruleOf (lines : List Octets) (c : Fin NUM_STORAGE_CLASSES) : Option Rule :=
  (ruleFor settings lines fun name => place name = c.val).or (ruleFor settings lines isDefault)

def Rule.noted (rule : Rule) : Rule := ⟨rule.keep.getD 0, rule.default.getD 0, rule.purge.getD 0⟩

def held (classes : Classes) (i : Fin (NUM_STORAGE_CLASSES + 1)) : Option Rule :=
  if (classes i).Missing then none else some ⟨(classes i).Keep, (classes i).Default,
    (classes i).Purge⟩

def found (classes : Classes) (c : Fin NUM_STORAGE_CLASSES) : Option Rule :=
  (held classes c.castSucc).or (held classes defaultPlace)

end Rules

section Reading

variable {settings : Settings} {r r' : Reading} {lines : List Octets}

theorem EXPgetnum_eq {word : Octets} {v : Int} (hnum : EXPgetnum settings word = some v) :
    (limit settings word).getD 0 = v := by
  rw [EXPgetnum] at hnum
  rw [limit]
  by_cases hnever : isNever word = true
  · rw [if_pos hnever] at hnum
    rw [if_pos (.inl hnever)]
    exact Option.some.inj hnum
  · rw [if_neg hnever] at hnum
    split at hnum
    · cases hnum
    · by_cases hmagic : settings.aboveMagic word = true
      · rw [if_pos hmagic] at hnum
        rw [if_pos (.inr hmagic)]
        exact Option.some.inj hnum
      · rw [if_neg hmagic] at hnum
        rw [if_neg (not_or.mpr ⟨hnever, hmagic⟩)]
        exact Option.some.inj hnum

theorem storeClass_ok {classes classes' : Classes} {at_ : Int} {keep default purge : Octets}
    (hstore : storeClass settings classes at_ keep default purge = .ok classes')
    (i : Fin (NUM_STORAGE_CLASSES + 1)) :
    held classes' i =
      if at_ = i.val then some (Rule.noted ⟨limit settings keep, limit settings default,
        limit settings purge⟩)
      else held classes i := by
  rw [storeClass] at hstore
  split at hstore
  · cases hstore
  next Keep hkeep =>
    split at hstore
    next hplace =>
      split at hstore
      next Default Purge hdefault hpurge =>
        split at hstore
        · cases hstore
          rw [held, Rule.noted, EXPgetnum_eq hkeep, EXPgetnum_eq hdefault, EXPgetnum_eq hpurge]
          by_cases hi : at_ = i.val
          · have hsame : (⟨at_.toNat, by omega⟩ : Fin (NUM_STORAGE_CLASSES + 1)) = i :=
              Fin.ext (by simp [hi])
            rw [if_pos hi, hsame, update_self]
            rfl
          · have hne : i ≠ (⟨at_.toNat, by omega⟩ : Fin (NUM_STORAGE_CLASSES + 1)) := by
              rintro rfl
              exact hi (by simp [hplace.1])
            rw [if_neg hi, update_of_ne hne, held]
        · cases hstore
      · cases hstore
    · cases hstore

theorem ruleFor_cons (line : Octets) (lines : List Octets) (named : Octets → Bool) :
    ruleFor settings (line :: lines) named =
      (ruleFor settings lines named).or (ruleFor settings [line] named) := by
  have hsplit : classLines settings (line :: lines) =
      classLines settings [line] ++ classLines settings lines :=
    List.filterMap_append (l := [line])
  rw [ruleFor, ruleFor, ruleFor, hsplit, List.filter_append, List.getLast?_append, Option.map_or]

def noted (settings : Settings) (lines : List Octets) (i : Fin (NUM_STORAGE_CLASSES + 1)) :
    Option Rule :=
  (ruleFor settings lines fun name => place name = i.val).map Rule.noted

theorem step_held {piece : Octets} (hstep : step settings r piece = .ok r')
    (i : Fin (NUM_STORAGE_CLASSES + 1)) :
    held r'.EXPclasses i = (noted settings [piece] i).or (held r.EXPclasses i) := by
  have hother (hline : ∀ name keep default purge,
      readLine piece ≠ .storage name keep default purge) :
      noted settings [piece] i = none := by
    rw [noted, ruleFor, classLines, List.filterMap_cons]
    split
    next => rfl
    next line hsome =>
      split at hsome
      next name keep default purge hread => exact absurd hread (hline name keep default purge)
      · cases hsome
  rw [step] at hstep
  cases hread : readLine piece with
  | blank =>
    rw [hread] at hstep
    rw [← Except.ok.inj hstep, hother (by simp [hread]), Option.none_or]
  | group =>
    rw [hread] at hstep
    rw [← Except.ok.inj hstep, hother (by simp [hread]), Option.none_or]
  | refused =>
    rw [hread] at hstep
    cases hstep
  | separators =>
    rw [hread] at hstep
    cases hstep
  | remember time =>
    rw [hread] at hstep
    rw [hother (by simp [hread]), Option.none_or]
    dsimp only at hstep
    split at hstep
    · cases hstep
    · split at hstep
      · cases hstep
      · rw [← Except.ok.inj hstep]
  | storage name keep default purge =>
    rw [hread] at hstep
    dsimp only at hstep
    split at hstep
    · cases hstep
    · cases hstore : storeClass settings r.EXPclasses (place name) keep default purge with
      | error e =>
        rw [hstore] at hstep
        cases hstep
      | ok classes =>
        rw [hstore] at hstep
        have hline : classLines settings [piece] =
            [(name, ⟨limit settings keep, limit settings default, limit settings purge⟩)] := by
          rw [classLines, List.filterMap_cons, hread]
          rfl
        rw [← Except.ok.inj hstep, storeClass_ok hstore, noted, ruleFor,
          hline, List.filter_singleton]
        by_cases hplace : place name = i.val
        · rw [if_pos hplace, decide_eq_true hplace]
          rfl
        · rw [if_neg hplace, decide_eq_false hplace]
          rfl

theorem run_held (hrun : run (step settings) lines r = .ok r') (i : Fin (NUM_STORAGE_CLASSES + 1)) :
    held r'.EXPclasses i = (noted settings lines i).or (held r.EXPclasses i) := by
  induction lines generalizing r with
  | nil =>
    cases hrun
    rfl
  | cons line lines ih =>
    rw [run] at hrun
    split at hrun
    · cases hrun
    next r₁ hstep =>
      rw [ih hrun, step_held hstep, noted, noted, noted, ruleFor_cons line lines, Option.map_or,
        Option.or_assoc]

/-- A line of a storage class is for a place of the table, and a line of separators alone is not the
first one to be split. -/
def Within (settings : Settings) (r : Reading) (line : Octets) : Prop :=
  (∀ name keep default purge, readLine line = .storage name keep default purge →
    (EXPgetnum settings keep).isSome →
    0 ≤ place name ∧ place name ≤ NUM_STORAGE_CLASSES) ∧
      (readLine line = .separators → r.split = true)

theorem storeClass_undefined (classes : Classes) (default purge : Octets) {at_ : Int}
    {keep : Octets} :
    storeClass settings classes at_ keep default purge ≠ .error .undefined ↔
      ((EXPgetnum settings keep).isSome → 0 ≤ at_ ∧ at_ ≤ NUM_STORAGE_CLASSES) := by
  rw [storeClass]
  cases EXPgetnum settings keep with
  | none => exact iff_of_true nofun nofun
  | some Keep =>
    dsimp only
    by_cases hplace : 0 ≤ at_ ∧ at_ < (NUM_STORAGE_CLASSES + 1 : Nat)
    · rw [dif_pos hplace]
      refine iff_of_true ?_ fun _ => ⟨hplace.1, by omega⟩
      split
      · split <;> nofun
      · nofun
    · rw [dif_neg hplace]
      exact iff_of_false (fun h => h rfl) fun h => hplace ⟨(h rfl).1, by have := (h rfl).2; omega⟩

theorem step_undefined (r : Reading) (piece : Octets) : step settings r piece ≠ .error .undefined ↔
    Within settings r piece := by
  rw [step, Within]
  cases hread : readLine piece with
  | blank => exact iff_of_true nofun ⟨nofun, nofun⟩
  | group => exact iff_of_true nofun ⟨nofun, nofun⟩
  | refused => exact iff_of_true nofun ⟨nofun, nofun⟩
  | separators =>
    dsimp only
    rw [and_iff_right nofun]
    cases r.split <;> simp
  | remember time =>
    refine iff_of_true ?_ ⟨nofun, nofun⟩
    dsimp only
    split
    · nofun
    · split <;> nofun
  | storage name keep default purge =>
    have hplace : (∀ name' keep' default' purge', Line.storage name keep default purge =
        .storage name' keep' default' purge' →
        (EXPgetnum settings keep').isSome → 0 ≤ place name' ∧ place name' ≤ NUM_STORAGE_CLASSES) ↔
        ((EXPgetnum settings keep).isSome → 0 ≤ place name ∧ place name ≤ NUM_STORAGE_CLASSES) := by
      refine ⟨fun h => h name keep default purge rfl, ?_⟩
      rintro h _ _ _ _ ⟨⟩
      exact h
    rw [hplace, and_iff_left nofun]
    dsimp only
    split
    next hdefault =>
      refine iff_of_true nofun fun _ => ?_
      rw [place, if_pos hdefault.1]
      exact ⟨Int.natCast_nonneg _, Int.le_refl _⟩
    · rw [← storeClass_undefined r.EXPclasses default purge]
      cases storeClass settings r.EXPclasses (place name) keep default purge with
      | error e =>
        change (Except.error e : Except Stop Reading) ≠ .error .undefined ↔ _
        simp
      | ok classes => exact iff_of_true nofun nofun

end Reading

section Keeping

variable {settings : Settings} {classes classes' : Classes}

theorem castSucc_ne_default (c : Fin NUM_STORAGE_CLASSES) : c.castSucc ≠ defaultPlace :=
  Fin.ne_of_lt (Fin.castSucc_lt_last c)

theorem held_missing {i : Fin (NUM_STORAGE_CLASSES + 1)} :
    held classes i = none ↔ (classes i).Missing = true := by
  rw [held]
  split <;> simp [*]

def decided (settings : Settings) (rule : Option Rule) (when_ Expires : Int) : Bool :=
  match rule with
  | none => true
  | some rule =>
    if inFuture settings when_ then
      if Expires = 0 then true
      else settings.Now ≤ Expires || rule.keep.getD 0 ≤ rule.purge.getD 0
    else rule.keeps settings when_ Expires

theorem found_congr (hheld : ∀ i, held classes' i = held classes i) (c : Fin NUM_STORAGE_CLASSES) :
    found classes' c = found classes c := by
  rw [found, found, hheld, hheld]

theorem EXPkeepit_found (settings : Settings) (classes : Classes) (c : Fin NUM_STORAGE_CLASSES)
    (when_ Expires : Int) (c' : Fin NUM_STORAGE_CLASSES) :
    found (EXPkeepit settings classes c when_ Expires).1 c' = found classes c' := by
  rw [EXPkeepit]
  split
  · refine found_congr (fun i => ?_) c'
    dsimp only
    by_cases hi : i = c.castSucc
    · rw [hi, held, held, update_self]
    · rw [held, held, update_of_ne hi]
  next hsome =>
    by_cases hmissing : (classes c.castSucc).Missing = true
    · have hnone : held classes c.castSucc = none := held_missing.mpr hmissing
      have hdefault : held (update classes c.castSucc (classes defaultPlace)) defaultPlace =
          held classes defaultPlace := by
        rw [held, held, update_of_ne (castSucc_ne_default c).symm]
      dsimp only
      rw [if_pos hmissing, found, found, hdefault]
      by_cases hc : c' = c
      · have hfilled : held (update classes c.castSucc (classes defaultPlace)) c.castSucc =
            held classes defaultPlace := by
          rw [held, held, update_self]
        rw [hc, hfilled, hnone, Option.none_or, Option.or_self]
      · have hother : c'.castSucc ≠ c.castSucc := fun h => hc (Fin.castSucc_inj.mp h)
        rw [held, held, update_of_ne hother]
        rfl
    · dsimp only
      rw [if_neg hmissing]

theorem EXPkeepit_eq (settings : Settings) (classes : Classes) (c : Fin NUM_STORAGE_CLASSES)
    (when_ Expires : Int) :
    (EXPkeepit settings classes c when_ Expires).2 = decided settings
    (found classes c) when_ Expires := by
  have hdecided (class_ : EXPIRECLASS) :
      decided settings (some ⟨class_.Keep, class_.Default, class_.Purge⟩) when_ Expires =
        let when_ :=
          if when_ > settings.RealNow + 86400 then if Expires ≠ 0 then class_.Purge
          else class_.Default else when_
        if Expires = 0 then decide (class_.Default ≤ when_)
        else decide (class_.Purge ≤ when_) &&
          (decide (settings.Now ≤ Expires) || decide (class_.Keep ≤ when_)) := by
    rw [decided]
    dsimp only
    by_cases hfuture : when_ > settings.RealNow + 86400
    · by_cases hzero : Expires = 0 <;> simp [inFuture, hfuture, hzero]
    · by_cases hzero : Expires = 0 <;> simp [inFuture, hfuture, hzero, Rule.keeps, notOlder]
  rw [EXPkeepit]
  split
  next hnone =>
    rw [found, held_missing.mpr hnone.1, held_missing.mpr hnone.2]
    rfl
  next hsome =>
    by_cases hmissing : (classes c.castSucc).Missing = true
    · have hpresent : ¬(classes defaultPlace).Missing = true := fun h => hsome ⟨hmissing, h⟩
      dsimp only
      rw [if_pos hmissing, update_self, found, held_missing.mpr hmissing, Option.none_or, held,
        if_neg hpresent,
        hdecided]
    · dsimp only
      rw [if_neg hmissing, found, held, if_neg hmissing, Option.some_or, hdecided]

abbrev Article : Type := Fin NUM_STORAGE_CLASSES × Int × Int

def after (settings : Settings) (classes : Classes) (articles : List Article) : Classes :=
  articles.foldl (fun classes article =>
    (EXPkeepit settings classes article.1 article.2.1 article.2.2).1) classes

theorem after_found (settings : Settings) (classes : Classes) (articles : List Article)
    (c : Fin NUM_STORAGE_CLASSES) :
    found (after settings classes articles) c = found classes c := by
  induction articles generalizing classes with
  | nil => rfl
  | cons article articles ih => exact (ih _).trans (EXPkeepit_found ..)

end Keeping

section Files

variable (settings : Settings) (classes : Classes) (F : Octets) (articles : List Article)
    (c : Fin NUM_STORAGE_CLASSES)
variable (when_ Expires : Int)

def lines : List Octets := chunks 10 (BUFSIZ - 1) F

/-- The file is read without a fault, and each verdict is its rule's. -/
structure Proper : Prop where
  defined : EXPreadfile settings classes F ≠ .error .undefined
  keeps : ∀ r, EXPreadfile settings classes F = .ok r →
    (EXPkeepit settings (after settings r.EXPclasses articles) c when_ Expires).2 =
      (verdict settings (ruleOf settings (lines F) c) when_ Expires && !inFuture settings when_)

/-- The rule of the last line that is for the class or, if there is none, for the place of the
default, which a line of class 256 is for, too. -/
def lineFor : Option Rule :=
  (ruleFor settings (lines F) fun name => place name = c.val).or
    (ruleFor settings (lines F) fun name => place name = defaultPlace.val)

/-- The limits by which the rule keeps the article are dates, and none is `never`. -/
def Rule.byDates (rule : Rule) : Prop :=
  if Expires = 0 then rule.default.isSome else rule.purge.isSome ∧
    (settings.Now ≤ Expires ∨ rule.keep.isSome)

/-- The line has the rule of the file, and does not keep an article from before 1970 by a limit that
is `never`; or it has another rule, which keeps the article just as that one does. -/
def Unaffected : Prop :=
  if lineFor settings F c = ruleOf settings (lines F) c then
    when_ < 0 → ∀ rule ∈ ruleOf settings (lines F) c, rule.keeps settings when_ Expires →
      rule.byDates settings Expires
  else
    (∀ rule ∈ lineFor settings F c, rule.keeps settings when_ Expires ∧
      (when_ < 0 → rule.byDates settings Expires)) ↔
      ∀ rule ∈ ruleOf settings (lines F) c, rule.keeps settings when_ Expires

/-- The Expires date has passed, and the purge date of the rule is before its keep date. -/
def ExpiresEarly : Prop :=
  ∃ rule ∈ lineFor settings F c, Expires ≠ 0 ∧ Expires < settings.Now ∧
    rule.purge.getD 0 < rule.keep.getD 0

theorem noted_keeps_iff (rule : Rule) :
    rule.noted.keeps settings when_ Expires = true ↔
      rule.keeps settings when_ Expires = true ∧ (when_ < 0 → rule.byDates settings Expires) := by
  have hdate (date : Option Int) : notOlder (some (date.getD 0)) when_ = true ↔
      notOlder date when_ = true ∧ (when_ < 0 → date.isSome = true) := by
    cases date with
    | none => simp [notOlder]
    | some date => simp [notOlder]
  by_cases hzero : Expires = 0
  · simp only [Rule.keeps, Rule.noted, Rule.byDates, if_pos hzero, hdate]
  · simp only [Rule.keeps, Rule.noted, Rule.byDates, if_neg hzero, Bool.and_eq_true,
      Bool.or_eq_true,
      decide_eq_true_eq, hdate]
    tauto

theorem unaffected_iff :
    verdict settings ((lineFor settings F c).map Rule.noted) when_ Expires =
        verdict settings (ruleOf settings (lines F) c) when_ Expires ↔
          Unaffected settings F c when_ Expires := by
  have hverdict (rule : Option Rule) :
      verdict settings rule when_ Expires = true ↔
        ∀ r ∈ rule, r.keeps settings when_ Expires = true := by
    cases rule <;> simp [verdict]
  have hnoted (rule : Option Rule) : verdict settings (rule.map Rule.noted) when_ Expires = true ↔
      ∀ r ∈ rule, r.keeps settings when_ Expires = true ∧
        (when_ < 0 → r.byDates settings Expires) := by
    cases rule with
    | none => simp [verdict]
    | some rule => simpa [verdict] using noted_keeps_iff settings when_ Expires rule
  rw [Bool.eq_iff_iff, hnoted, hverdict, Unaffected]
  split
  next hsame =>
    rw [hsame]
    constructor
    · intro hiff hbefore rule hrule hkeeps
      refine (hiff.mpr (fun other hother => ?_) rule hrule).2 hbefore
      rwa [Option.mem_unique hother hrule]
    · intro hdates
      exact ⟨fun h rule hrule => (h rule hrule).1,
        fun h rule hrule => ⟨h rule hrule, fun hbefore => hdates hbefore rule hrule (h rule hrule)⟩⟩
  · rfl

/-- Every line that is come to has a defined effect, and an article in the future has expired
early. -/
theorem proper_iff :
    Proper settings classes F articles c when_ Expires ↔
      Meets (step settings) (Within settings) (lines F) (initial classes) ∧
        ∀ r, EXPreadfile settings classes F = .ok r →
          if inFuture settings when_ then ExpiresEarly settings F c Expires
            else Unaffected settings F c when_ Expires := by
  have hdefined : EXPreadfile settings classes F ≠ .error .undefined ↔
      Meets (step settings) (Within settings) (lines F) (initial classes) :=
        run_ne_error_iff step_undefined _ _
  have hkeeps (r : Reading) (hrun : EXPreadfile settings classes F = .ok r) :
      (EXPkeepit settings (after settings r.EXPclasses articles) c when_ Expires).2 =
        decided settings ((lineFor settings F c).map Rule.noted) when_ Expires := by
    have hinitial (i : Fin (NUM_STORAGE_CLASSES + 1)) :
        held (initial classes).EXPclasses i = none := held_missing.mpr rfl
    have hheld (i : Fin (NUM_STORAGE_CLASSES + 1)) :
        held r.EXPclasses i = noted settings (lines F) i := by
      rw [run_held hrun, hinitial, Option.or_none]
      rfl
    rw [EXPkeepit_eq, after_found, found, hheld, hheld, noted, noted, ← Option.map_or]
    rfl
  have hdecided : decided settings ((lineFor settings F c).map Rule.noted) when_ Expires =
      (verdict settings (ruleOf settings (lines F) c) when_ Expires && !inFuture settings when_) ↔
        if inFuture settings when_ then ExpiresEarly settings F c Expires
          else Unaffected settings F c when_ Expires := by
    by_cases hfuture : inFuture settings when_ = true
    · rw [if_pos hfuture, hfuture, Bool.not_true, Bool.and_false, ExpiresEarly]
      cases lineFor settings F c with
      | none => simp [decided]
      | some rule =>
        rw [Option.map_some, decided, if_pos hfuture]
        by_cases hzero : Expires = 0
        · simp [hzero]
        · simp only [if_neg hzero, Bool.or_eq_false_iff, decide_eq_false_iff_not, not_le]
          simp [hzero, Rule.noted]
    · rw [if_neg hfuture, Bool.eq_false_iff.mpr hfuture, Bool.not_false, Bool.and_true,
        ← unaffected_iff]
      cases lineFor settings F c with
      | none => rfl
      | some rule =>
        rw [Option.map_some, decided, if_neg hfuture]
        rfl
  constructor
  · rintro ⟨hends, hsame⟩
    exact ⟨hdefined.mp hends, fun r hrun => hdecided.mp ((hkeeps r hrun).symm.trans (hsame r hrun))⟩
  · rintro ⟨hmeets, hcondition⟩
    exact ⟨hdefined.mpr hmeets,
      fun r hrun => (hkeeps r hrun).trans (hdecided.mpr (hcondition r hrun))⟩

def days : Settings where
  Now := 1000000
  RealNow := 1000000
  aboveMagic := fun _ => false
  seconds := fun _ => 86400

/-- The times of class 300 are written behind the table. -/
theorem not_proper :
    ¬∀ (settings : Settings) (classes : Classes) (F : Octets) (articles : List Article)
      (c : Fin NUM_STORAGE_CLASSES)
      (when_ Expires : Int), Proper settings classes F articles c when_ Expires := by
  intro hall
  have hproper :=
    hall days (fun _ => ⟨0, 0, 0, true, false⟩) (octets "300:1:1:1\n") [] ⟨0, by decide⟩ 0 0
  have hstop : (match EXPreadfile days (fun _ => ⟨0, 0, 0, true, false⟩) (octets "300:1:1:1\n") with
      | .error .undefined => true
      | _ => false) = true := by decide +kernel
  split at hstop
  next hrun => exact hproper.defined hrun
  · cases hstop

end Files

end Inn.Expire
