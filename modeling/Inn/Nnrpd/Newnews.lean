import Inn.Foundation.Words
import Inn.Innd.Channel
import Inn.Wildmat.Model

/-!
# The NEWNEWS command

The overview of each group is searched for new articles. An article that is in several groups is
reported only in the first group of its Xref that the client asks for and may read.
-/

namespace Inn.Nnrpd.Newnews

open Foundation.Words
open Wildmat (CString cstring uwildmat)

/-- A field of an overview line. The octets that end a field or a line are written as spaces. -/
structure Field where
  octets : Octets
  whole : ∀ c ∈ octets, c ≠ 0 ∧ c ≠ 9 ∧ c ≠ 10
  deriving DecidableEq

/-- An entry of the overview, with the token of its article and the time it arrived at. -/
structure Article where
  token : Nat
  arrived : Nat
  xref : Option Field
  messageID : Option Field
  deriving DecidableEq

/-- What the client may read, and the parameters of a reader that lags behind its spool. -/
structure Config where
  PERMspecified : Bool
  PERMreadlist : List Octets
  nfsreader : Bool
  nfsreaderdelay : Nat
  now : Nat
  nnrpdcheckart : Bool
  ARTinstorebytoken : Nat → Bool

def matchPats (group : Octets) : List Octets → Bool → Bool
  | [], found => found
  | p :: Pats, found =>
    if p.headD 0 = 33 then
      matchPats group Pats (if uwildmat (cstring group) (cstring p.tail) then false else found)
    else matchPats group Pats (if uwildmat (cstring group) (cstring p) then true else found)

def matchList (Pats : List Octets) : List Octets → Bool → Bool
  | [], _ => false
  | group :: list, found =>
    if matchPats group Pats found then true else matchList Pats list (matchPats group Pats found)

def PERMmatch (Pats list : List Octets) : Bool :=
  if Pats = [] then true else matchList Pats list false

def splitGroups : Nat → Octets → List Octets
  | 0, _ => []
  | bound + 1, p =>
    let p := p.dropWhile fun c => c = 32 || c = 9
    if p.headD 0 = 0 ∨ p.headD 0 = 10 then []
    else
      let word := p.takeWhile fun c => c ≠ 32 && c ≠ 9 && c ≠ 10
      word.takeWhile (· ≠ 58) :: splitGroups bound (p.drop (word.length + 1))

/-- The first octet is stepped over unread, and the text behind the host is copied to a buffer. -/
def GetGroups (p : Octets) : Option (List Octets) :=
  match (p.tail.dropWhile (· = 32)).dropWhile (· ≠ 32) with
  | [] => none
  | Xref =>
    let Xrefbuf := ((Xref.dropWhile (· = 32)).take (BIG_BUFFER - 1)).takeWhile (· ≠ 9)
    let list := splitGroups Xrefbuf.length Xrefbuf
    if list = [] then none else some list

section Searching

variable (cfg : Config) (AllGroups : Bool) (groups : List Octets)

def reads (group : Octets) : Bool := !cfg.PERMspecified || PERMmatch cfg.PERMreadlist [group]

def HaveSeen (group : Octets) : List Octets → Bool
  | [] => false
  | xref :: xrefs =>
    if (!AllGroups && PERMmatch groups [xref]) && reads cfg xref then xref ≠ group
    else HaveSeen group xrefs

def shown (date : Nat) (article : Article) : Bool :=
  -- an NFS reader starts that much earlier
  let date := if cfg.nfsreader ∧ cfg.nfsreaderdelay ≤ date then date - cfg.nfsreaderdelay else date
  !(cfg.nfsreader && cfg.now < article.arrived + cfg.nfsreaderdelay) && date ≤ article.arrived &&
    (!cfg.nnrpdcheckart || cfg.ARTinstorebytoken article.token) && article.messageID.isSome

def reports (date : Nat) (group : Octets) (article : Article) : Bool :=
  shown cfg date article &&
    match article.xref.bind fun p => GetGroups p.octets with
    | none => false
    | some xrefs => !HaveSeen cfg AllGroups groups group xrefs

def processNewnews (overview : Octets → List Article) (date : Nat) (group : Octets) :
    List Article :=
  if !reads cfg group then []
  else if !AllGroups && !PERMmatch groups [group] then []
  else (overview group).filter (reports cfg AllGroups groups date group)

def NGgetlist (list : Octets) : List Octets :=
  let separates := fun c : UInt8 => c = 44 || c = 32 || c = 9
  words separates (list.length + 1) (list.dropWhile separates)

def isAllGroups (wildmat : Octets) : Bool := wildmat = [42]

/-- Without any of the octets `\\!*[?]` the pattern lists the groups themselves. -/
def scanned (wildmat : Octets) (active : List Octets) : List Octets :=
  if wildmat.all fun c => !([92, 33, 42, 91, 63, 93] : Octets).contains c then NGgetlist wildmat
  else active

def CMDnewnews (wildmat : Octets) (date : Nat) (active : List Octets)
    (overview : Octets → List Article) : Option (List Article) :=
  if isAllGroups wildmat = false ∧ NGgetlist wildmat = [] then none
  else if wildmat = [33, 42] then some []
  else
    some ((scanned wildmat active).flatMap
      (processNewnews cfg (isAllGroups wildmat) (NGgetlist wildmat) overview date))

end Searching

section Reporting

variable (cfg : Config) (wildmat : Octets) (date : Nat) (active : List Octets)
  (overview : Octets → List Article)

def selects (group : Octets) : Bool := isAllGroups wildmat || PERMmatch (NGgetlist wildmat) [group]

/-- An article that NEWNEWS is to report. -/
def Eligible (article : Article) : Prop :=
  date ≤ article.arrived ∧ article.xref.isSome ∧
    ∃ group, selects wildmat group ∧ reads cfg group ∧ article ∈ overview group

/-- It is reported once; for all groups, at least once. -/
def Reported (printed : List Article) (article : Article) : Prop :=
  if isAllGroups wildmat then 1 ≤ printed.count article else printed.count article = 1

/-- The groups that an Xref names: the words behind the host, each up to its colon. A host of one
octet does not count, and the first group stands for it. -/
def named (xref : Field) : List Octets :=
  let host := xref.octets.tail.dropWhile (· = 32)
  let entries := ((host.dropWhile (· ≠ 32)).dropWhile (· = 32)).take (BIG_BUFFER - 1)
  ((entries.splitOn 32).filter (· ≠ [])).map fun entry => entry.takeWhile (· ≠ 58)

/-- Nothing but its groups keeps the article from a reader: the delay has passed, the spool has it
where that is checked, and its overview line holds its Message-ID. -/
structure Ripe (article : Article) : Prop where
  waited : cfg.nfsreader → article.arrived + cfg.nfsreaderdelay ≤ cfg.now
  stored : cfg.nnrpdcheckart → cfg.ARTinstorebytoken article.token
  identified : article.messageID.isSome

/-- The client asks for the group and may read it, and the Xref names none of that kind before
it. -/
def leads (xref : Field) (group : Octets) : Bool :=
  selects wildmat group && reads cfg group &&
    (((named xref).find? fun other => selects wildmat other && reads cfg other).all (· = group))

/-- Exactly one place of the list is a group whose overview has the article, and it has it once. -/
def Once (groups : List Octets) (article : Article) : Prop :=
  ∃ before group after, groups = before ++ group :: after ∧ (overview group).count article = 1 ∧
    ∀ other ∈ before ++ after, article ∉ overview other

def InFirst (article : Article) : Prop :=
  Ripe cfg article ∧ ∃ xref, article.xref = some xref ∧ named xref ≠ [] ∧
    if isAllGroups wildmat then ∃ group ∈ active, reads cfg group ∧ article ∈ overview group
    else Once overview ((scanned wildmat active).filter (leads cfg wildmat xref)) article

end Reporting

section Named

theorem takeWhile_dropWhile_congr {p q : UInt8 → Bool} {text : Octets}
    (hsame : ∀ c ∈ text, p c = q c) :
    text.takeWhile p = text.takeWhile q ∧ text.dropWhile p = text.dropWhile q := by
  induction text with
  | nil => exact ⟨rfl, rfl⟩
  | cons c text ih =>
    have hrest := ih fun c hc => hsame c (List.mem_cons_of_mem _ hc)
    rw [List.takeWhile_cons, List.takeWhile_cons, List.dropWhile_cons, List.dropWhile_cons,
      hsame c List.mem_cons_self, hrest.1, hrest.2]
    exact ⟨rfl, rfl⟩

theorem filter_splitOn_dropWhile (text : Octets) :
    ((text.dropWhile (· = 32)).splitOn 32).filter (· ≠ []) = (text.splitOn 32).filter (· ≠ []) := by
  induction text with
  | nil => rfl
  | cons c text ih =>
    by_cases hspace : c = 32
    · subst hspace
      have hcut : ([] ++ 32 :: text).splitOn 32 = [] :: text.splitOn 32 :=
        List.splitOn_append_cons_self_of_not_mem List.not_mem_nil text
      rw [List.nil_append] at hcut
      rw [List.dropWhile_cons_of_pos (by simp), ih, hcut, List.filter_cons_of_neg (by simp)]
    · rw [List.dropWhile_cons_of_neg (by simpa using hspace)]

/-- Splitting at blanks is splitting at spaces, in a field that has no other white space. -/
theorem splitGroups_eq {bound : Nat} {text : Octets} (hbound : text.length ≤ bound)
    (hwhole : ∀ c ∈ text, c ≠ 0 ∧ c ≠ 9 ∧ c ≠ 10) :
    splitGroups bound text =
      ((text.splitOn 32).filter (· ≠ [])).map fun entry => entry.takeWhile (· ≠ 58) := by
  induction bound generalizing text with
  | zero =>
    rw [List.eq_nil_of_length_eq_zero (Nat.le_zero.mp hbound)]
    rfl
  | succ bound ih =>
    have hdrop : (text.dropWhile fun c => c = 32 || c = 9) = text.dropWhile (· = 32) :=
      (takeWhile_dropWhile_congr fun c hc => by simp [(hwhole c hc).2.1]).2
    rw [splitGroups, hdrop, ← filter_splitOn_dropWhile]
    have hfirst := List.head?_dropWhile_not (fun c : UInt8 => c = 32) text
    have hsuffix := List.dropWhile_suffix (fun c : UInt8 => c = 32) (l := text)
    generalize text.dropWhile (· = 32) = p at hfirst hsuffix
    have hp : ∀ c ∈ p, c ≠ 0 ∧ c ≠ 9 ∧ c ≠ 10 := fun c hc => hwhole c (hsuffix.subset hc)
    have hlength := hsuffix.length_le
    cases p with
    | nil => rfl
    | cons c p =>
      have hword : ((c :: p).takeWhile fun c => c ≠ 32 && c ≠ 9 && c ≠ 10) =
          (c :: p).takeWhile (· ≠ 32) :=
        (takeWhile_dropWhile_congr fun c hc => by simp [(hp c hc).2.1, (hp c hc).2.2]).1
      have hspace : c ≠ 32 := by simpa using hfirst
      have hc := hp c List.mem_cons_self
      dsimp only
      rw [if_neg (by simp [hc.1, hc.2.2]), hword]
      have hsplit :=
        List.takeWhile_append_dropWhile (p := fun c : UInt8 => decide (c ≠ 32)) (l := c :: p)
      have hnospace : (32 : UInt8) ∉ (c :: p).takeWhile (· ≠ 32) := fun hmem => by
        simpa using List.mem_takeWhile_imp hmem
      have hnonempty : (c :: p).takeWhile (· ≠ 32) ≠ [] := by simp [hspace]
      have hnext := List.head?_dropWhile_not (fun c : UInt8 => decide (c ≠ 32)) (c :: p)
      generalize (c :: p).takeWhile (· ≠ 32) = word at hsplit hnospace hnonempty ⊢
      generalize (c :: p).dropWhile (· ≠ 32) = rest at hsplit hnext
      rw [← hsplit]
      cases rest with
      | nil =>
        rw [List.append_nil, List.splitOn_eq_singleton hnospace,
          List.filter_cons_of_pos (by simpa using hnonempty),
            List.drop_of_length_le (Nat.le_succ _)]
        cases bound <;> rfl
      | cons space rest =>
        obtain rfl : space = 32 := by simpa using hnext
        have hshort : rest.length ≤ bound := by
          have := congrArg List.length hsplit
          rw [List.length_append, List.length_cons, List.length_cons] at this
          rw [List.length_cons] at hlength
          omega
        rw [List.splitOn_append_cons_self_of_not_mem hnospace,
          List.filter_cons_of_pos (by simpa using hnonempty), List.map_cons, ← List.drop_drop,
          List.drop_left, List.drop_one, List.tail_cons,
          ih hshort fun c hc => hp c (by rw [← hsplit]; simp [hc])]

theorem splitGroups_named (xref : Field) {host : Octets}
    (hhost : xref.octets.tail.dropWhile (· = 32) = host) :
    let Xrefbuf :=
      (((host.dropWhile (· ≠ 32)).dropWhile (· = 32)).take (BIG_BUFFER - 1)).takeWhile (· ≠ 9)
    splitGroups Xrefbuf.length Xrefbuf = named xref := by
  unfold named
  dsimp only
  rw [hhost]
  have hwhole : ∀ c ∈ ((host.dropWhile (· ≠ 32)).dropWhile (· = 32)).take (BIG_BUFFER - 1),
      c ≠ 0 ∧ c ≠ 9 ∧ c ≠ 10 := fun c hc => by
    have hmem := (List.dropWhile_suffix _).subset
      ((List.dropWhile_suffix _).subset (List.mem_of_mem_take hc))
    rw [← hhost] at hmem
    exact xref.whole c (List.mem_of_mem_tail ((List.dropWhile_suffix _).subset hmem))
  generalize ((host.dropWhile (· ≠ 32)).dropWhile (· = 32)).take (BIG_BUFFER - 1) =
    entries at hwhole ⊢
  have hbuf : entries.takeWhile (· ≠ 9) = entries :=
    List.takeWhile_eq_self_iff.mpr fun c hc => by simpa using (hwhole c hc).2.1
  rw [hbuf, splitGroups_eq (Nat.le_refl _) hwhole]

theorem GetGroups_eq (xref : Field) :
    GetGroups xref.octets = if named xref = [] then none else some (named xref) := by
  have hnamed := splitGroups_named xref rfl
  unfold GetGroups
  split
  next hnone =>
    rw [hnone] at hnamed
    exact (if_pos (c := named xref = []) hnamed.symm).symm
  next =>
    dsimp only at hnamed ⊢
    simp only [hnamed]

end Named

section Once

variable {overview : Octets → List Article} {article : Article}

theorem count_flatMap_eq_zero {groups : List Octets} :
    (groups.flatMap overview).count article = 0 ↔ ∀ group ∈ groups, article ∉ overview group := by
  rw [List.count_eq_zero, List.mem_flatMap]
  exact ⟨fun h group hgroup hthere => h ⟨group, hgroup, hthere⟩,
    fun h ⟨group, hgroup, hthere⟩ => h group hgroup hthere⟩

theorem count_flatMap_eq_one {groups : List Octets} :
    (groups.flatMap overview).count article = 1 ↔ Once overview groups article := by
  induction groups with
  | nil => simp [Once]
  | cons group groups ih =>
    rw [List.flatMap_cons, List.count_append, Nat.add_eq_one_iff, count_flatMap_eq_zero, ih]
    constructor
    · rintro (⟨hnot, before, other, after, rfl, hone, hothers⟩ | ⟨hone, hothers⟩)
      · refine ⟨group :: before, other, after, rfl, hone, ?_⟩
        rw [List.cons_append]
        exact List.forall_mem_cons.mpr ⟨List.count_eq_zero.mp hnot, hothers⟩
      · exact ⟨[], group, groups, rfl, hone, hothers⟩
    · rintro ⟨before, other, after, heq, hone, hothers⟩
      cases before with
      | nil =>
        obtain ⟨rfl, rfl⟩ := List.cons.inj heq
        exact .inr ⟨hone, hothers⟩
      | cons first before =>
        obtain ⟨rfl, rfl⟩ := List.cons.inj heq
        rw [List.cons_append] at hothers
        have hothers' := List.forall_mem_cons.mp hothers
        exact .inl ⟨List.count_eq_zero.mpr hothers'.1, before, other, after, rfl, hone, hothers'.2⟩

end Once

section Seen

variable {cfg : Config} {groups : List Octets} {group : Octets}

theorem HaveSeen_all (xrefs : List Octets) : HaveSeen cfg true groups group xrefs = false := by
  induction xrefs with
  | nil => rfl
  | cons xref xrefs ih =>
    rw [HaveSeen, if_neg (by simp)]
    exact ih

theorem HaveSeen_first (xrefs : List Octets) :
    HaveSeen cfg false groups group xrefs =
      match xrefs.find? fun xref => PERMmatch groups [xref] && reads cfg xref with
      | some first => decide (first ≠ group)
      | none => false := by
  induction xrefs with
  | nil => rfl
  | cons xref xrefs ih =>
    rw [HaveSeen, List.find?_cons, Bool.not_false, Bool.true_and]
    cases PERMmatch groups [xref] && reads cfg xref with
    | false =>
      rw [if_neg nofun]
      exact ih
    | true => rw [if_pos rfl]

theorem count_filter_ite (p : Article → Bool) (articles : List Article) (article : Article) :
    (articles.filter p).count article = if p article then articles.count article else 0 := by
  split
  next hp => exact List.count_filter hp
  next hp => exact List.count_eq_zero_of_not_mem fun hmem => hp (List.mem_filter.mp hmem).2

end Seen

section Counting

variable {cfg : Config} {wildmat : Octets} {date : Nat} {active : List Octets}
    {overview : Octets → List Article}
  {article : Article} {printed : List Article}

theorem CMDnewnews_printed (hprinted : CMDnewnews cfg wildmat date active overview = some printed)
    (heligible : Eligible cfg wildmat date overview article) :
    printed = (scanned wildmat active).flatMap
      (processNewnews cfg (isAllGroups wildmat) (NGgetlist wildmat) overview date) := by
  unfold CMDnewnews at hprinted
  split at hprinted
  · cases hprinted
  · split at hprinted
    next hnone =>
      -- the pattern that selects no group has no article to report
      obtain ⟨_, _, group, hselects, _⟩ := heligible
      rw [hnone] at hselects
      have hgroups : NGgetlist [33, 42] = [[33, 42]] := by decide
      have hnever : PERMmatch [[33, 42]] [group] = false := by
        have hpats : matchPats group [[33, 42]] false = false :=
          ite_self (c := uwildmat (cstring group) (cstring [42]) = true) false
        unfold PERMmatch matchList
        rw [if_neg (List.cons_ne_nil _ _), hpats]
        rfl
      rw [selects, hgroups, hnever] at hselects
      exact absurd hselects (by decide)
    next => exact (Option.some.inj hprinted).symm

theorem process_count (AllGroups : Bool) (groups : List Octets) (group : Octets) :
    (processNewnews cfg AllGroups groups overview date group).count article =
      if reads cfg group && (AllGroups ||
        PERMmatch groups [group]) && reports cfg AllGroups groups date group article then
        (overview group).count article
      else 0 := by
  unfold processNewnews
  rw [← Bool.not_or]
  cases reads cfg group with
  | false => rfl
  | true =>
    cases AllGroups || PERMmatch groups [group] with
    | false => rfl
    | true => exact count_filter_ite _ _ _

theorem shown_iff (hnew : date ≤ article.arrived) : shown cfg date article ↔ Ripe cfg article := by
  have hback :
      (if cfg.nfsreader ∧ cfg.nfsreaderdelay ≤ date then date - cfg.nfsreaderdelay else date) ≤
      article.arrived := by
    split
    · exact Nat.le_trans (Nat.sub_le _ _) hnew
    · exact hnew
  unfold shown
  dsimp only
  rw [decide_eq_true hback, Bool.and_true, Bool.and_eq_true, Bool.and_eq_true]
  constructor
  · rintro ⟨⟨hwaited, hstored⟩, hidentified⟩
    exact ⟨fun h => by simpa [h] using hwaited, fun h => by simpa [h] using hstored, hidentified⟩
  · rintro ⟨hwaited, hstored, hidentified⟩
    refine ⟨⟨?_, ?_⟩, hidentified⟩
    · cases h : cfg.nfsreader with
      | false => rfl
      | true => simpa using hwaited h
    · cases h : cfg.nnrpdcheckart with
      | false => rfl
      | true => exact hstored h

theorem reports_iff (AllGroups : Bool) (groups : List Octets) (group : Octets) :
    reports cfg AllGroups groups date group article ↔
      shown cfg date article ∧ ∃ xref, article.xref = some xref ∧ named xref ≠ [] ∧
        HaveSeen cfg AllGroups groups group (named xref) = false := by
  unfold reports
  rw [Bool.and_eq_true]
  refine and_congr_right fun _ => ?_
  cases article.xref with
  | none => exact ⟨nofun, nofun⟩
  | some xref =>
    rw [Option.bind_some, GetGroups_eq]
    by_cases hnone : named xref = []
    · rw [if_pos hnone]
      refine ⟨nofun, ?_⟩
      rintro ⟨_, heq, hsome, _⟩
      cases heq
      exact absurd hnone hsome
    · rw [if_neg hnone]
      constructor
      · intro h
        exact ⟨xref, rfl, hnone, by simpa using h⟩
      · rintro ⟨_, heq, _, h⟩
        cases heq
        simpa using h

theorem reported_all (groups : List Octets) (scan : List Octets) :
    1 ≤ (scan.flatMap (processNewnews cfg true groups overview date)).count article ↔
      shown cfg date article ∧ ∃ xref, article.xref = some xref ∧ named xref ≠ [] ∧
        ∃ group ∈ scan, reads cfg group ∧ article ∈ overview group := by
  rw [Nat.succ_le_iff, List.count_pos_iff, List.mem_flatMap]
  have hmem (group : Octets) : article ∈ processNewnews cfg true groups overview date group ↔
      reads cfg group ∧ article ∈ overview group ∧ reports cfg true groups date group article := by
    rw [← List.count_pos_iff, process_count]
    split
    next h =>
      obtain ⟨hreads, hreports⟩ := Bool.and_eq_true_iff.mp h
      obtain ⟨hreads, _⟩ := Bool.and_eq_true_iff.mp hreads
      rw [List.count_pos_iff]
      exact ⟨fun h => ⟨hreads, h, hreports⟩, fun h => h.2.1⟩
    next h =>
      refine ⟨fun h => absurd h (Nat.lt_irrefl 0), fun hyes => absurd ?_ h⟩
      rw [hyes.1, hyes.2.2]
      rfl
  constructor
  · rintro ⟨group, hscan, hthere⟩
    obtain ⟨hreads, hover, hreports⟩ := (hmem group).mp hthere
    obtain ⟨hshown, xref, hxref, hnamed, _⟩ := (reports_iff _ _ _).mp hreports
    exact ⟨hshown, xref, hxref, hnamed, group, hscan, hreads, hover⟩
  · rintro ⟨hshown, xref, hxref, hnamed, group, hscan, hreads, hover⟩
    have hreports : reports cfg true groups date group article :=
      (reports_iff true groups group).mpr ⟨hshown, xref, hxref, hnamed, HaveSeen_all _⟩
    exact ⟨group, hscan, (hmem group).mpr ⟨hreads, hover, hreports⟩⟩

/-- A pattern prints what the overviews of the groups have that lead the Xref. -/
theorem reported_pattern (scan : List Octets) {xref : Field} (hall : isAllGroups wildmat = false)
    (hshown : shown cfg date article) (hxref : article.xref = some xref)
    (hnamed : named xref ≠ []) :
    (scan.flatMap (processNewnews cfg false (NGgetlist wildmat) overview date)).count article =
      ((scan.filter (leads cfg wildmat xref)).flatMap overview).count article := by
  have hreports (group : Octets) : reports cfg false (NGgetlist wildmat) date group article =
      !HaveSeen cfg false (NGgetlist wildmat) group (named xref) := by
    unfold reports
    rw [hshown, hxref, Option.bind_some, GetGroups_eq, if_neg hnamed]
    rfl
  have hleads (group : Octets) :
      (reads cfg group && (false || PERMmatch (NGgetlist wildmat) [group]) &&
      reports cfg false (NGgetlist wildmat) date group article) = leads cfg wildmat xref group := by
    have hselects : selects wildmat = fun group => PERMmatch (NGgetlist wildmat) [group] :=
      funext fun group => by rw [selects, hall, Bool.false_or]
    rw [hreports, HaveSeen_first, leads, hselects, Bool.false_or, Bool.and_comm (reads cfg group)]
    cases (named xref).find? fun xref => PERMmatch (NGgetlist wildmat) [xref] && reads cfg xref with
    | none => rfl
    | some first => simp
  induction scan with
  | nil => rfl
  | cons group scan ih =>
    rw [List.flatMap_cons, List.count_append, ih, process_count, hleads, List.filter_cons]
    split
    · rw [List.flatMap_cons, List.count_append]
    · rw [Nat.zero_add]

/-- An article that is eligible is reported as it should be exactly when the first group of its Xref
that is selected and may be read is searched once and has it once. -/
theorem reported_iff (hprinted : CMDnewnews cfg wildmat date active overview = some printed)
    (heligible : Eligible cfg wildmat date overview article) :
    Reported wildmat printed article ↔ InFirst cfg wildmat active overview article := by
  rw [CMDnewnews_printed hprinted heligible]
  unfold Reported InFirst
  rw [← shown_iff heligible.1]
  cases hall : isAllGroups wildmat with
  | true =>
    obtain rfl : wildmat = [42] := of_decide_eq_true hall
    rw [if_pos rfl]
    exact reported_all _ _
  | false =>
    rw [if_neg nofun]
    by_cases hshown : shown cfg date article = true ∧ ∃ xref, article.xref = some xref ∧
      named xref ≠ []
    · obtain ⟨hshown, xref, hxref, hnamed⟩ := hshown
      rw [reported_pattern _ hall hshown hxref hnamed, count_flatMap_eq_one]
      refine ⟨fun h => ⟨hshown, xref, hxref, hnamed, by simpa using h⟩, ?_⟩
      rintro ⟨_, xref', hxref', _, h⟩
      obtain rfl := Option.some.inj (hxref.symm.trans hxref')
      simpa using h
    · constructor
      · intro hone
        have hmem := List.count_pos_iff.mp (Nat.lt_of_lt_of_eq Nat.zero_lt_one hone.symm)
        obtain ⟨group, _, hthere⟩ := List.mem_flatMap.mp hmem
        have hcount := List.count_pos_iff.mpr hthere
        rw [process_count] at hcount
        split at hcount
        next h =>
          obtain ⟨hshown', xref, hxref, hnamed, _⟩ :=
            (reports_iff _ _ _).mp (Bool.and_eq_true_iff.mp h).2
          exact absurd ⟨hshown', xref, hxref, hnamed⟩ hshown
        next => exact absurd hcount (Nat.lt_irrefl 0)
      · rintro ⟨hshown', xref, hxref, hnamed, _⟩
        exact absurd ⟨hshown', xref, hxref, hnamed⟩ hshown

def anyone : Config := ⟨false, [], false, 0, 100, false, fun _ => true⟩

/-- An article in the groups `a.x` and `a.y`, and one that is in `a.y` alone. -/
def bothArticle : Article :=
  ⟨1, 50, some ⟨[104, 115, 32, 97, 46, 120, 58, 49, 32, 97, 46, 121, 58, 50], by simp⟩,
    some ⟨[60, 49, 64, 104, 62], by simp⟩⟩

def oneArticle : Article :=
  ⟨2, 60, some ⟨[104, 115, 32, 97, 46, 121, 58, 51], by simp⟩,
    some ⟨[60, 50, 64, 104, 62], by simp⟩⟩

def bothOverview (group : Octets) : List Article :=
  if group = [97, 46, 120] then [bothArticle]
  else if group = [97, 46, 121] then [bothArticle, oneArticle]
  else []

def leftOverview (group : Octets) : List Article :=
  if group = [97, 46, 121] then [bothArticle] else []

def bothActive : List Octets := [[97, 46, 120], [97, 46, 121]]

theorem reported_both : Reported [97, 46, 42] [bothArticle, oneArticle] bothArticle := by
  have heligible : Eligible anyone [97, 46, 42] 50 bothOverview bothArticle :=
    ⟨by decide, rfl, [97, 46, 121], by decide, by decide, by decide⟩
  have hprinted : CMDnewnews anyone [97, 46, 42] 50 bothActive bothOverview =
      some [bothArticle, oneArticle] := by decide
  refine (reported_iff hprinted heligible).mpr
    ⟨⟨by decide, by decide, by decide⟩, _, rfl, by decide, ?_⟩
  rw [if_neg (by decide)]
  exact ⟨[], [97, 46, 120], [], by decide, by decide, by decide⟩

/-- The article is new in `a.y`, which the client asks for, and it is not reported. -/
theorem not_reported_left :
    Eligible anyone [97, 46, 42] 50 leftOverview bothArticle ∧
      CMDnewnews anyone [97, 46, 42] 50 bothActive leftOverview = some [] ∧
        ¬Reported [97, 46, 42] [] bothArticle := by
  have heligible : Eligible anyone [97, 46, 42] 50 leftOverview bothArticle :=
    ⟨by decide, rfl, [97, 46, 121], by decide, by decide, by decide⟩
  refine ⟨heligible, by decide, fun hreported => ?_⟩
  unfold Reported at hreported
  rw [if_neg (by decide)] at hreported
  cases hreported

end Counting

end Inn.Nnrpd.Newnews
