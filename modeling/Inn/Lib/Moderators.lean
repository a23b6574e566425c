import Inn.Foundation.Chunks
import Inn.Innd.Channel
import Inn.Wildmat.Model

/-!
# The address of a moderator

The moderators file is searched for the first line whose pattern matches the newsgroup, and the
address is made of the name of the group with dashes for its dots. The name is matched and rewritten
in the same buffer.
-/

namespace Inn.Lib.Moderators

open Foundation.Chunks Foundation.Lines
open Wildmat (CString cstring uwildmat)

structure Moderator where
  pattern : Octets
  template : Octets
  deriving DecidableEq

def validFrom (found : Bool) : Octets → Bool
  | [] => true
  | [c] => c ≠ 37
  | c :: d :: rest =>
    if c ≠ 37 then validFrom found (d :: rest)
    else if d = 37 then validFrom found rest
    else if d ≠ 115 then false
    else if found then false
    else validFrom true rest

def IsValidSubmissionTemplate (string : Octets) : Bool := validFrom false string

def expand (name : Octets) : Octets → Octets
  | [] => []
  | [c] => [c]
  | c :: d :: rest =>
    if c ≠ 37 then c :: expand name (d :: rest)
    else if d = 37 then 37 :: expand name rest
    else name ++ expand name rest

def snprintf (text : Octets) : Octets := text.take (SMBUF - 1)

def dashes (name : Octets) : Octets := name.map fun c => if c = 46 then 45 else c

def buff (piece : Octets) : Octets := (piece.takeWhile (· ≠ 0)).takeWhile (· ≠ 10)

def moderator (line : Octets) : Option Moderator :=
  if line = [] ∨ line.head? = some 35 then none
  else (cut 58 line).map fun halves => ⟨halves.1, halves.2.dropWhile ISWHITE⟩

def search (name : Octets) : List Moderator → Octets × Option Octets
  | [] => (name, none)
  | m :: rest =>
    if uwildmat (cstring name) (cstring m.pattern) then
      let name := dashes name
      if IsValidSubmissionTemplate m.template then (name, some (snprintf (expand name m.template)))
      else search name rest
    else search name rest

def moderators (GMAfp : Option Octets) : List Moderator :=
  (GMAfp.elim [] (chunks 10 (BUFSIZ - 1))).filterMap fun piece => moderator (buff piece)

def fromConfig (name : Octets) (moderatormailer : Option Octets) : Option Octets :=
  match moderatormailer with
  | none => none
  | some save => if IsValidSubmissionTemplate save then some
      (snprintf (expand (dashes name) save)) else none

def GetModeratorAddress (GMAfp : Option Octets) (group : CString)
    (moderatormailer : Option Octets) : Option Octets :=
  let name := group.octets.take (SMBUF - 1)
  match (search name (moderators GMAfp)).2 with
  | some (c :: rest) => some (c :: rest)
  | _ => fromConfig (search name (moderators GMAfp)).1 moderatormailer

section Specification

variable (GMAfp : Option Octets) (group : CString) (moderatormailer : Option Octets)

def Moderator.matches (m : Moderator) (name : Octets) : Bool :=
    uwildmat (cstring name) (cstring m.pattern)

def Moderator.decides (m : Moderator) : Bool :=
    m.matches group.octets && IsValidSubmissionTemplate m.template

def fallback : Option Octets :=
  (moderatormailer.filter IsValidSubmissionTemplate).map (expand (dashes group.octets))

def address : Option Octets :=
  match (moderators GMAfp).find? (·.decides group) with
  | some m => some (expand (dashes group.octets) m.template)
  | none => fallback group moderatormailer

def buffered : Octets := group.octets.take (SMBUF - 1)

def nameAfter (before : List Moderator) : Octets :=
  before.foldl (fun name m => if m.matches name then dashes name else name) (buffered group)

def fileLines (file : Octets) : List Octets :=
  (pieces 10 file).1 ++ if (pieces 10 file).2 = [] then [] else [(pieces 10 file).2]

def LinesFit (file : Octets) : Prop := 0 ∉ file ∧ ∀ line ∈ fileLines file, line.length + 1 < BUFSIZ

/-- The lines of the file say what the code makes of them. -/
structure Agrees : Prop where
  lines : ∀ file ∈ GMAfp, LinesFit file → moderators GMAfp = (fileLines file).filterMap moderator
  result : GetModeratorAddress GMAfp group moderatormailer = address GMAfp group moderatormailer
  influence : ∀ before m after, moderators GMAfp = before ++ m :: after →
    before.find? (·.decides group) = none →
    m.matches (nameAfter group before) = m.matches group.octets

def Uninfluenced : Prop :=
  ∀ before m after, moderators GMAfp = before ++ m :: after →
    before.find? (·.decides group) = none →
    m.matches (if before.any (·.matches (buffered group)) then dashes (buffered group)
      else buffered group) =
      m.matches group.octets

def AddressFits : Prop :=
  match (moderators GMAfp).find? (·.decides group) with
  | some m =>
    (expand (dashes group.octets) m.template).length < SMBUF ∧
      (expand (dashes group.octets) m.template = [] → fallback group moderatormailer = some [])
  | none => ∀ a ∈ fallback group moderatormailer, a.length < SMBUF

end Specification

theorem buff_eq {line : Octets} (hnul : 0 ∉ line) (hnewline : 10 ∉ line) (rest : Octets) :
    buff (line ++ 10 :: rest) = line ∧ buff line = line := by
  have hzero : ∀ c ∈ line, decide (c ≠ 0) = true :=
    fun c hc => decide_eq_true fun h => hnul (h ▸ hc)
  have hten : ∀ c ∈ line, decide (c ≠ 10) = true :=
    fun c hc => decide_eq_true fun h => hnewline (h ▸ hc)
  constructor
  · rw [buff, List.takeWhile_append_of_pos hzero, List.takeWhile_cons_of_pos (by decide),
      List.takeWhile_append_of_pos hten, List.takeWhile_cons_of_neg (by decide), List.append_nil]
  · rw [buff, List.takeWhile_eq_self_iff.mpr hzero, List.takeWhile_eq_self_iff.mpr hten]

theorem moderators_file {GMAfp : Option Octets} {file : Octets} (hfile : file ∈ GMAfp)
    (hfit : LinesFit file) :
    moderators GMAfp = (fileLines file).filterMap moderator := by
  obtain ⟨hnul, hshort⟩ := hfit
  obtain ⟨hpieces, hnewline, hlast⟩ : (∀ piece ∈ (pieces 10 file).1, 10 ∉ piece ∧ piece ⊆ file) ∧
      10 ∉ (pieces 10 file).2 ∧ (pieces 10 file).2 ⊆ file := pieces_subset file
  rw [fileLines] at hshort ⊢
  have hchunks : chunks 10 (BUFSIZ - 1) file =
      (pieces 10 file).1.map (· ++ [10]) ++ if (pieces 10 file).2 = [] then []
        else [(pieces 10 file).2] := by
    refine chunks_pieces (fun line hline =>
      Nat.lt_sub_of_add_lt (hshort line (List.mem_append_left _ hline))) ?_
    by_cases hnil : (pieces 10 file).2 = []
    · rw [hnil]
      exact Nat.zero_le _
    · rw [if_neg hnil] at hshort
      have := hshort _ (List.mem_append_right _ (List.mem_singleton_self _))
      omega
  have hfirst :
      ((pieces 10 file).1.map (· ++ [10])).filterMap (fun piece => moderator (buff piece)) =
      (pieces 10 file).1.filterMap moderator := by
    rw [List.filterMap_map]
    refine List.filterMap_congr fun line hline => ?_
    exact congrArg moderator
      (buff_eq (fun h => hnul ((hpieces line hline).2 h)) (hpieces line hline).1 []).1
  rw [moderators, show GMAfp = some file from hfile, Option.elim_some, hchunks,
    List.filterMap_append,
    List.filterMap_append, hfirst]
  congr 1
  split
  · rfl
  · rw [List.filterMap_cons, List.filterMap_cons, (buff_eq (fun h => hnul (hlast h)) hnewline []).2]
    rfl

section Names

variable {group : CString}

theorem dashes_dashes (name : Octets) : dashes (dashes name) = dashes name := by
  rw [dashes, dashes, List.map_map]
  refine List.map_congr_left fun c _ => ?_
  by_cases hc : c = 46
  · simp [hc]
  · simp [hc]

theorem nameAfter_snoc (group : CString) (before : List Moderator) (m : Moderator) :
    nameAfter group (before ++ [m]) =
      if m.matches (nameAfter group before) then dashes (nameAfter group before)
        else nameAfter group before :=
  List.foldl_append

theorem nameAfter_eq (group : CString) (before : List Moderator) :
    nameAfter group before =
      if before.any (·.matches (buffered group)) then dashes (buffered group)
        else buffered group := by
  induction before using List.reverseRecOn with
  | nil => rfl
  | append_singleton before m ih =>
    rw [nameAfter_snoc, ih, List.any_append]
    cases hany : before.any (·.matches (buffered group)) with
    | true => simp [dashes_dashes]
    | false => simp

theorem dashes_nameAfter (group : CString) (before : List Moderator) :
    dashes (nameAfter group before) = dashes (buffered group) := by
  rw [nameAfter_eq]
  split
  · exact dashes_dashes _
  · rfl

theorem search_cons (name : Octets) (m : Moderator) (rest : List Moderator) :
    search name (m :: rest) =
      if m.matches name then
        if IsValidSubmissionTemplate m.template then (dashes name,
          some (snprintf (expand (dashes name) m.template)))
        else search (dashes name) rest
      else search name rest :=
  rfl

theorem search_eq {all : List Moderator}
    (hinfluence : ∀ before m after, all = before ++ m :: after →
      before.find? (·.decides group) = none →
      m.matches (nameAfter group before) = m.matches group.octets)
    {before after : List Moderator} (hall : all = before ++ after)
      (hbefore : before.find? (·.decides group) = none) :
    dashes (search (nameAfter group before) after).1 = dashes (buffered group) ∧
      (search (nameAfter group before) after).2 =
        (after.find? (·.decides group)).map fun m =>
          snprintf (expand (dashes (buffered group)) m.template) := by
  induction after generalizing before with
  | nil => exact ⟨dashes_nameAfter group before, rfl⟩
  | cons m after ih =>
    have hmatches := hinfluence before m after hall hbefore
    have hnext (hm : m.decides group = false) :=
      @ih (before ++ [m]) (by rw [hall]; simp)
        (by rw [List.find?_append, hbefore, List.find?_singleton]; simp [hm])
    rw [search_cons, List.find?_cons]
    by_cases hmatch : m.matches group.octets = true
    · rw [if_pos (hmatches.trans hmatch), dashes_nameAfter]
      by_cases hvalid : IsValidSubmissionTemplate m.template = true
      · have hdecides : m.decides group = true := by rw [Moderator.decides, hmatch, hvalid]; rfl
        rw [if_pos hvalid, hdecides]
        exact ⟨dashes_dashes _, rfl⟩
      · have hdecides : m.decides group = false := by
          rw [Moderator.decides, Bool.eq_false_iff.mpr hvalid, Bool.and_false]
        have hrest := hnext hdecides
        rw [nameAfter_snoc, if_pos (hmatches.trans hmatch), dashes_nameAfter] at hrest
        rw [if_neg hvalid, hdecides]
        exact hrest
    · have hdecides : m.decides group = false := by
        rw [Moderator.decides, Bool.eq_false_iff.mpr hmatch, Bool.false_and]
      have hrest := hnext hdecides
      have hother : ¬m.matches (nameAfter group before) = true := by rwa [hmatches]
      rw [nameAfter_snoc, if_neg hother] at hrest
      rw [if_neg hother, hdecides]
      exact hrest

end Names

section Addresses

variable {group : CString}

theorem expand_buffered (group : CString) (template : Octets) :
    expand (dashes (buffered group)) template = expand (dashes group.octets) template ∨
      SMBUF ≤ (expand (dashes group.octets) template).length ∧
        SMBUF ≤ (expand (dashes (buffered group)) template).length + 1 := by
  by_cases hshort : group.octets.length < SMBUF
  · have hwhole : buffered group = group.octets :=
      List.take_of_length_le (Nat.le_sub_one_of_lt hshort)
    rw [hwhole]
    exact .inl rfl
  · have hlong : SMBUF ≤ (dashes group.octets).length := by
      rw [dashes, List.length_map]
      omega
    have hfull : SMBUF ≤ (dashes (buffered group)).length + 1 := by
      rw [dashes, List.length_map, buffered, List.length_take]
      omega
    fun_induction expand (dashes group.octets) template with
    | case1 => exact .inl rfl
    | case2 c => exact .inl rfl
    | case3 c d rest hc ih =>
      rw [expand, if_pos hc, List.length_cons, List.length_cons]
      exact ih.imp (congrArg (c :: ·)) fun h => ⟨by omega, by omega⟩
    | case4 c rest hc ih =>
      rw [expand, if_neg hc, if_pos rfl, List.length_cons, List.length_cons]
      exact ih.imp (congrArg (37 :: ·)) fun h => ⟨by omega, by omega⟩
    | case5 c d rest hc hd ih =>
      rw [expand, if_neg hc, if_neg hd, List.length_append, List.length_append]
      exact .inr ⟨by omega, by omega⟩

theorem snprintf_expand_iff (group : CString) (template : Octets) :
    snprintf (expand (dashes (buffered group)) template) = expand (dashes group.octets) template ↔
      (expand (dashes group.octets) template).length < SMBUF := by
  constructor
  · intro h
    rw [← h, snprintf, List.length_take]
    exact Nat.lt_of_le_of_lt (Nat.min_le_left _ _) (by decide)
  · intro hshort
    have hsame := (expand_buffered group template).resolve_right fun h => by omega
    rw [hsame, snprintf, List.take_of_length_le (Nat.le_sub_one_of_lt hshort)]

theorem snprintf_expand_eq_nil (group : CString) (template : Octets) :
    snprintf (expand (dashes (buffered group)) template) = [] ↔
      expand (dashes group.octets) template = [] := by
  have hnil : snprintf (expand (dashes (buffered group)) template) = [] ↔
      expand (dashes (buffered group)) template = [] := by
    rw [snprintf, List.take_eq_nil_iff]
    exact or_iff_right (by decide)
  rw [hnil]
  rcases expand_buffered group template with hsame | ⟨hlong, hfull⟩
  · rw [hsame]
  · rw [← List.length_eq_zero_iff, ← List.length_eq_zero_iff]
    have : SMBUF = 256 := rfl
    omega

theorem fromConfig_iff {name : Octets} (hname : dashes name = dashes (buffered group))
    (moderatormailer : Option Octets) :
    fromConfig name moderatormailer = fallback group moderatormailer ↔
      ∀ a ∈ fallback group moderatormailer, a.length < SMBUF := by
  cases moderatormailer with
  | none => exact iff_of_true rfl nofun
  | some save =>
    rw [fromConfig, fallback, Option.filter_some, hname]
    cases IsValidSubmissionTemplate save with
    | false => exact iff_of_true rfl nofun
    | true =>
      rw [if_pos rfl, if_pos rfl, Option.map_some, Option.some_inj, snprintf_expand_iff]
      exact ⟨fun h a ha => Option.some.inj ha ▸ h, fun h => h _ rfl⟩

theorem fromConfig_eq_nil {name : Octets} (hname : dashes name = dashes (buffered group))
    (moderatormailer : Option Octets) :
    fromConfig name moderatormailer = some [] ↔ fallback group moderatormailer = some [] := by
  cases moderatormailer with
  | none => exact ⟨nofun, nofun⟩
  | some save =>
    rw [fromConfig, fallback, Option.filter_some, hname]
    cases IsValidSubmissionTemplate save with
    | false => exact ⟨nofun, nofun⟩
    | true =>
      rw [if_pos rfl, if_pos rfl, Option.map_some, Option.some_inj, Option.some_inj,
        snprintf_expand_eq_nil]

theorem GetModeratorAddress_iff {GMAfp : Option Octets}
    (hinfluence : ∀ before m after, moderators GMAfp = before ++ m :: after →
      before.find? (·.decides group) = none →
      m.matches (nameAfter group before) = m.matches group.octets)
        (moderatormailer : Option Octets) :
    GetModeratorAddress GMAfp group moderatormailer = address GMAfp group moderatormailer ↔
      AddressFits GMAfp group moderatormailer := by
  obtain ⟨hname, haddress⟩ := search_eq hinfluence (List.nil_append (moderators GMAfp)).symm rfl
  change dashes (search (group.octets.take (SMBUF - 1)) (moderators GMAfp)).1 = _ at hname
  change (search (group.octets.take (SMBUF - 1)) (moderators GMAfp)).2 = _ at haddress
  rw [GetModeratorAddress, haddress, address, AddressFits]
  cases (moderators GMAfp).find? (·.decides group) with
  | none => exact fromConfig_iff hname moderatormailer
  | some m =>
    change _ ↔ (expand (dashes group.octets) m.template).length < SMBUF ∧ (_ = [] → _)
    rw [Option.map_some, ← snprintf_expand_iff, ← snprintf_expand_eq_nil]
    cases hline : snprintf (expand (dashes (buffered group)) m.template) with
    | nil =>
      have hempty := (snprintf_expand_eq_nil group m.template).mp hline
      change fromConfig _ moderatormailer = some (expand (dashes group.octets) m.template) ↔ _
      rw [hempty, fromConfig_eq_nil hname]
      exact ⟨fun h => ⟨rfl, fun _ => h⟩, fun h => h.2 rfl⟩
    | cons c rest => exact ⟨fun h => ⟨Option.some.inj h, nofun⟩, fun h => congrArg some h.1⟩

/-- The address is the one that is promised just when the lines before a line leave the name as it
is for the pattern, and the address fits into its buffer. -/
theorem moderators_agree_iff (GMAfp : Option Octets) (group : CString)
    (moderatormailer : Option Octets) :
    Agrees GMAfp group moderatormailer ↔
      Uninfluenced GMAfp group ∧ AddressFits GMAfp group moderatormailer := by
  have hinfluenced :
      Uninfluenced GMAfp group ↔ ∀ before m after, moderators GMAfp = before ++ m :: after →
      before.find? (·.decides group) = none →
        m.matches (nameAfter group before) = m.matches group.octets := by
    refine forall_congr' fun before => forall_congr' fun m => ?_
    rw [nameAfter_eq]
  constructor
  · intro h
    exact ⟨hinfluenced.mpr h.influence,
      (GetModeratorAddress_iff h.influence moderatormailer).mp h.result⟩
  · rintro ⟨hinfluence, hfits⟩
    have hinfluence := hinfluenced.mp hinfluence
    exact ⟨fun file => moderators_file,
      (GetModeratorAddress_iff hinfluence moderatormailer).mpr hfits, hinfluence⟩

/-- The first line has no valid template, and behind it the second one does not match `a.b` any
more. -/
theorem not_moderators_agree :
    ¬∀ (GMAfp : Option Octets) (group : CString) (moderatormailer : Option Octets),
    Agrees GMAfp group moderatormailer := by
  intro h
  have hresult := (h (some (octets "a.*:%x\na.b:%s@y\n")) (cstring (octets "a.b")) none).result
  revert hresult
  decide +kernel

end Addresses

end Inn.Lib.Moderators
