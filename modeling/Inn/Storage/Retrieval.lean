import Inn.Lib.Native
import Inn.Lib.WireText

/-!
# Retrieving an article

A storage method gives the whole of an article, or what is before or behind its first empty
line. Each method finds the article in a file in its own way, and cuts it with its own
arithmetic around the same search for the body.
-/

namespace Inn.Storage

open Lib.Native (wireFromNative)
open Lib.WireText (findEmptyLine wireFindbody)

open List (length_take length_drop drop_drop take_take)

inductive RetrType
  | RETR_ALL
  | RETR_HEAD
  | RETR_BODY
  | RETR_STAT
  deriving DecidableEq

/-- A piece of the memory that an article is mapped to. -/
structure ArtHandle where
  memory : Octets
  artdata : Nat
  data : Nat
  len : Nat
  deriving DecidableEq

def ArtHandle.octets (art : ArtHandle) : Octets := (art.memory.drop art.data).take art.len

def ArtHandle.Inside (art : ArtHandle) : Prop :=
  art.artdata ≤ art.data ∧ art.data + art.len ≤ art.memory.length

def ArtHandle.stat : ArtHandle := ⟨[], 0, 0, 0⟩

def sliceWhole (article : Octets) (amount : RetrType) : Option ArtHandle :=
  if amount = .RETR_ALL then some ⟨article, 0, 0, article.length⟩
  else
    match wireFindbody article with
    | none => none
    | some p =>
      match amount with
      | .RETR_HEAD => some ⟨article, 0, 0, p - 2⟩
      | .RETR_BODY => some ⟨article, 0, p, article.length - p⟩
      | _ => none

def timehashOpenArticle (articlemmap : Bool) (file : Octets) (amount : RetrType) :
    Option ArtHandle :=
  if amount = .RETR_STAT then some .stat
  else if articlemmap ∧ file = [] then none
  else sliceWhole file amount

def tradspoolOpenArticle (articlemmap : Bool) (file : Octets) (amount : RetrType) :
    Option ArtHandle :=
  if amount = .RETR_STAT then some .stat
  else if articlemmap ∧ file = [] then none
  else
    match file.idxOf? 10 with
    | none | some 0 => none
    | some (p + 1) => sliceWhole
        (if file[p]? = some 13 then file else (wireFromNative file).octets) amount

def mapped (articlemmap : Bool) (pagesize : Nat) (file : Octets) (offset len : Nat) :
    Octets × Nat :=
  if articlemmap then ((file.drop (offset - offset % pagesize)).take (len + offset % pagesize),
    offset % pagesize)
  else ((file.drop offset).take len, 0)

def timecafOpenArticle (articlemmap : Bool) (pagesize : Nat) (file : Octets)
    (curoff artlen unset : Nat) (amount : RetrType) :
    Option ArtHandle :=
  if amount = .RETR_STAT then some .stat
  else
    let (memory, artdata) := mapped articlemmap pagesize file curoff artlen
    if amount = .RETR_ALL then some ⟨memory, artdata, artdata, artlen⟩
    else
      match wireFindbody ((memory.drop artdata).take artlen) with
      | none => none
      | some p =>
        match amount with
        | .RETR_HEAD => some ⟨memory, artdata, artdata, p - 2⟩
        | .RETR_BODY => some ⟨memory, artdata, artdata + p + 4, (unset + (p + 4)) % 2 ^ 64⟩
        | _ => none

def cnfsRetrieve (articlemmap : Bool) (pagesize : Nat) (file : Octets) (offset size : Nat)
    (amount : RetrType) :
    Option ArtHandle :=
  if amount = .RETR_STAT then some .stat
  else
    let (memory, pagefudge) := mapped articlemmap pagesize file offset size
    if amount = .RETR_ALL then some ⟨memory, pagefudge, pagefudge, size⟩
    else
      match wireFindbody ((memory.drop pagefudge).take size) with
      | none => none
      | some p =>
        match amount with
        | .RETR_HEAD => some ⟨memory, pagefudge, pagefudge, p - 2⟩
        | .RETR_BODY => some ⟨memory, pagefudge, pagefudge + p, size - p⟩
        | _ => none

inductive Stored
  | timehash (file : Octets)
  | timecaf (file : Octets) (curoff artlen unset : Nat)
  | tradspool (file : Octets)
  | cnfs (file : Octets) (offset size : Nat)
  deriving DecidableEq

def Stored.retrieve (articlemmap : Bool) (pagesize : Nat) : Stored → RetrType → Option ArtHandle
  | .timehash file => timehashOpenArticle articlemmap file
  | .timecaf file curoff artlen unset =>
      timecafOpenArticle articlemmap pagesize file curoff artlen unset
  | .tradspool file => tradspoolOpenArticle articlemmap file
  | .cnfs file offset size => cnfsRetrieve articlemmap pagesize file offset size

def Stored.article : Stored → Octets
  | .timehash file => file
  | .timecaf file curoff artlen _ => (file.drop curoff).take artlen
  | .tradspool file =>
    match file.idxOf? 10 with
    | some (p + 1) => if file[p]? = some 13 then file else (wireFromNative file).octets
    | _ => (wireFromNative file).octets
  | .cnfs file offset size => (file.drop offset).take size

def Stored.Present : Stored → Prop
  | .timehash _ | .tradspool _ => True
  | .timecaf file curoff artlen _ => curoff + artlen ≤ file.length
  | .cnfs file offset size => offset + size ≤ file.length

section EmptyLines

variable {article : Octets} {n : Nat}

def EmptyLineAt (article : Octets) (n : Nat) : Prop :=
  (article.drop n).take 2 = [13, 10] ∧ (n = 0 ∨ 2 ≤ n ∧ (article.drop (n - 2)).take 2 = [13, 10])

instance : Decidable (EmptyLineAt article n) := inferInstanceAs (Decidable (_ ∧ _))

def IsBorder (article : Octets) (n : Nat) : Prop :=
    EmptyLineAt article n ∧ ∀ m < n, ¬EmptyLineAt article m

instance : Decidable (IsBorder article n) := inferInstanceAs (Decidable (_ ∧ _))

def Short (article : Octets) : Prop := article.length ≤ 5 ∧ article.take 2 = [13, 10]

theorem findEmptyLine_first {k : Nat} (hline : (article.drop k).take 4 = [13, 10, 13, 10])
    (hfirst : ∀ m < k, (article.drop m).take 4 ≠ [13, 10, 13, 10]) :
    findEmptyLine article = some (k + 4) := by
  induction article generalizing k with
  | nil =>
    rw [List.drop_nil, List.take_nil] at hline
    cases hline
  | cons c rest ih =>
    have hlength := congrArg List.length hline
    rw [length_take, length_drop, List.length_cons] at hlength
    have hlong : ¬rest.length < 3 := by
      change min 4 (rest.length + 1 - k) = 4 at hlength
      omega
    rw [findEmptyLine, if_neg hlong]
    cases k with
    | zero =>
      rw [List.drop_zero, List.take_succ_cons] at hline
      obtain ⟨rfl, hrest⟩ := List.cons.inj hline
      rw [if_pos ⟨rfl, hrest⟩]
    | succ k =>
      have hhere := hfirst 0 (Nat.succ_pos k)
      rw [List.drop_zero, List.take_succ_cons] at hhere
      rw [if_neg fun h => hhere (by rw [h.1, h.2]),
        ih hline fun m hm => hfirst (m + 1) (Nat.succ_lt_succ hm)]
      rfl

theorem findEmptyLine_le {p : Nat} (hfind : findEmptyLine article = some p) : 4 ≤ p := by
  induction article generalizing p with
  | nil => cases hfind
  | cons c rest ih =>
    rw [findEmptyLine] at hfind
    split at hfind
    · cases hfind
    split at hfind
    · cases hfind
      exact Nat.le_refl 4
    · obtain ⟨q, hq, rfl⟩ := Option.map_eq_some_iff.mp hfind
      exact Nat.le_succ_of_le (ih hq)

theorem take_four (l : Octets) (h : l.take 2 = [13, 10]) (h' : (l.drop 2).take 2 = [13, 10]) :
    l.take 4 = [13, 10, 13, 10] := by
  rw [show 4 = 2 + 2 from rfl, List.take_add, h, h']
  rfl

theorem wireFindbody_border (hborder : IsBorder article n) (hshort : ¬Short article) :
    wireFindbody article = some (n + 2) := by
  obtain ⟨⟨hline, hbefore⟩, hfirst⟩ := hborder
  unfold wireFindbody
  rcases hbefore with rfl | ⟨htwo, hbefore⟩
  · have hlong : 5 < article.length := by
      by_contra hno
      exact hshort ⟨Nat.not_lt.mp hno, hline⟩
    exact if_pos ⟨hlong, hline⟩
  · have hstart : ¬article.take 2 = [13, 10] := fun h => hfirst 0 (by omega) ⟨h, .inl rfl⟩
    have hdrop : (article.drop (n - 2)).drop 2 = article.drop n := by
      rw [drop_drop, show n - 2 + 2 = n by omega]
    have hfour : (article.drop (n - 2)).take 4 = [13, 10, 13, 10] :=
      take_four _ hbefore (by rw [hdrop]; exact hline)
    rw [if_neg fun h => hstart h.2, findEmptyLine_first hfour, show n - 2 + 4 = n + 2 by omega]
    intro m hm hearlier
    refine hfirst (m + 2) (by omega) ⟨?_, .inr ⟨by omega, ?_⟩⟩
    · have hsecond := congrArg (List.drop 2) hearlier
      rw [List.drop_take, drop_drop] at hsecond
      exact hsecond
    · have hthere := congrArg (List.take 2) hearlier
      rw [take_take] at hthere
      exact hthere

theorem wireFindbody_short (hborder : IsBorder article n) (hshort : Short article) {p : Nat}
    (hfind : wireFindbody article = some p) : n = 0 ∧ 4 ≤ p := by
  unfold wireFindbody at hfind
  rw [if_neg fun h => absurd h.1 (Nat.not_lt.mpr hshort.1)] at hfind
  refine ⟨?_, findEmptyLine_le hfind⟩
  by_contra hlater
  exact hborder.2 0 (Nat.pos_of_ne_zero hlater) ⟨hshort.2, .inl rfl⟩

theorem border_split (hborder : IsBorder article n) :
    article.take n ++ [13, 10] ++ article.drop (n + 2) = article := by
  rw [← hborder.1.1, List.append_assoc, ← drop_drop, List.take_append_drop, List.take_append_drop]

theorem border_le (hborder : IsBorder article n) : n + 2 ≤ article.length := by
  have hlength := congrArg List.length hborder.1.1
  rw [length_take, length_drop] at hlength
  change min 2 (article.length - n) = 2 at hlength
  omega

end EmptyLines

section Fitting

variable {article : Octets} {n : Nat}

/-- Head and body are the article without the empty line at `n`. -/
def FitsAt (article : Octets) (retrieve : RetrType → Option ArtHandle) (n : Nat) : Prop :=
  ∃ all head body, retrieve .RETR_ALL = some all ∧ retrieve .RETR_HEAD = some head ∧
    retrieve .RETR_BODY = some body ∧
    all.octets = article ∧ head.octets ++ [13, 10] ++ body.octets = all.octets ∧
      head.octets.length = n ∧
    all.Inside ∧ head.Inside ∧ body.Inside

theorem fitsAt_handles {memory : Octets} {artdata len : Nat}
    {retrieve : RetrType → Option ArtHandle}
    (hthere : (memory.drop artdata).take len = article) (hmemory : memory.length = artdata + len)
    (hborder : IsBorder article n)
    (hall : retrieve .RETR_ALL = some ⟨memory, artdata, artdata, len⟩)
    (hhead : retrieve .RETR_HEAD = some ⟨memory, artdata, artdata, n⟩)
    (hbody : retrieve .RETR_BODY = some ⟨memory, artdata, artdata + (n + 2), len - (n + 2)⟩) :
    FitsAt article retrieve n := by
  have hle := border_le hborder
  have hlength := congrArg List.length hthere
  rw [length_take, length_drop] at hlength
  have hwhole : (⟨memory, artdata, artdata, len⟩ : ArtHandle).octets = article := hthere
  have hfirst : (⟨memory, artdata, artdata, n⟩ : ArtHandle).octets = article.take n := by
    rw [← hthere, take_take, Nat.min_eq_left (by omega)]
    rfl
  have hlast : (⟨memory, artdata, artdata + (n + 2), len - (n + 2)⟩ : ArtHandle).octets =
      article.drop (n + 2) := by
    rw [← hthere, List.drop_take, drop_drop]
    rfl
  refine ⟨_, _, _, hall, hhead, hbody, hwhole, ?_, ?_, ⟨Nat.le_refl _, ?_⟩, ⟨Nat.le_refl _, ?_⟩,
    ⟨Nat.le_add_right _ _, ?_⟩⟩
  · rw [hwhole, hfirst, hlast, border_split hborder]
  · rw [hfirst, length_take]
    omega
  · dsimp only
    omega
  · dsimp only
    omega
  · dsimp only
    omega

theorem sliceWhole_fits (hborder : IsBorder article n) : FitsAt article (sliceWhole article) n ↔
    ¬Short article := by
  constructor
  · rintro ⟨all, head, body, _, hhead, _, _, _, hlength, _⟩ hshort
    unfold sliceWhole at hhead
    rw [if_neg nofun] at hhead
    cases hfind : wireFindbody article with
    | none =>
      rw [hfind] at hhead
      cases hhead
    | some p =>
      obtain ⟨rfl, hp⟩ := wireFindbody_short hborder hshort hfind
      rw [hfind] at hhead
      cases hhead
      have hle := border_le hborder
      rw [ArtHandle.octets, length_take, length_drop] at hlength
      dsimp only at hlength
      omega
  · intro hshort
    have hfind := wireFindbody_border hborder hshort
    refine fitsAt_handles (List.take_length : (article.drop 0).take article.length = article)
      (Nat.zero_add _).symm hborder
      rfl ?_ ?_
    · unfold sliceWhole
      rw [if_neg nofun, hfind]
      rfl
    · unfold sliceWhole
      rw [if_neg nofun, hfind, Nat.zero_add]

end Fitting

section Mapping

variable {articlemmap : Bool} {pagesize : Nat} {file memory : Octets} {offset len artdata n : Nat}

theorem mapped_article (hinside : offset + len ≤ file.length)
    (hmapped : mapped articlemmap pagesize file offset len = (memory, artdata)) :
    (memory.drop artdata).take len = (file.drop offset).take len ∧
      memory.length = artdata + len := by
  unfold mapped at hmapped
  split at hmapped
  · cases hmapped
    have hpage : offset % pagesize ≤ offset := Nat.mod_le offset pagesize
    constructor
    · rw [List.drop_take, take_take, drop_drop, Nat.sub_add_cancel hpage, Nat.add_sub_cancel,
        Nat.min_self]
    · rw [length_take, length_drop]
      omega
  · cases hmapped
    constructor
    · rw [List.drop_zero, take_take, Nat.min_self]
    · rw [length_take, length_drop]
      omega

theorem mapped_length (hmemory : memory.length = artdata + len) :
    ((memory.drop artdata).take len).length = len := by
  rw [length_take, length_drop]
  omega

theorem cnfsRetrieve_fits (hinside : offset + len ≤ file.length)
    (hborder : IsBorder ((file.drop offset).take len) n) :
    FitsAt ((file.drop offset).take len) (cnfsRetrieve articlemmap pagesize file offset len) n ↔
      ¬Short ((file.drop offset).take len) := by
  cases hmapped : mapped articlemmap pagesize file offset len with
  | mk memory artdata =>
    obtain ⟨harticle, hmemory⟩ := mapped_article hinside hmapped
    have hlength : ((file.drop offset).take len).length = len := harticle ▸ mapped_length hmemory
    constructor
    · rintro ⟨all, head, body, _, hhead, _, _, _, hcut, _⟩ hshort
      unfold cnfsRetrieve at hhead
      rw [if_neg nofun, hmapped] at hhead
      dsimp only at hhead
      rw [if_neg nofun, harticle] at hhead
      cases hfind : wireFindbody ((file.drop offset).take len) with
      | none =>
        rw [hfind] at hhead
        cases hhead
      | some p =>
        obtain ⟨rfl, hp⟩ := wireFindbody_short hborder hshort hfind
        rw [hfind] at hhead
        obtain rfl := Option.some.inj hhead
        have hle := border_le hborder
        rw [ArtHandle.octets, length_take, length_drop] at hcut
        dsimp only at hcut
        omega
    · intro hshort
      have hfind := wireFindbody_border hborder hshort
      refine fitsAt_handles harticle hmemory hborder ?_ ?_ ?_
      · unfold cnfsRetrieve
        rw [if_neg nofun, hmapped]
        rfl
      · unfold cnfsRetrieve
        rw [if_neg nofun, hmapped]
        dsimp only
        rw [if_neg nofun, harticle, hfind]
        rfl
      · unfold cnfsRetrieve
        rw [if_neg nofun, hmapped]
        dsimp only
        rw [if_neg nofun, harticle, hfind]

theorem not_timecafOpenArticle_fits {unset : Nat} (hinside : offset + len ≤ file.length) :
    ¬FitsAt ((file.drop offset).take len)
      (timecafOpenArticle articlemmap pagesize file offset len unset) n := by
  rintro ⟨all, head, body, _, hhead, hbody, harticle, hwhole, _, _, _, hlast⟩
  cases hmapped : mapped articlemmap pagesize file offset len with
  | mk memory artdata =>
    obtain ⟨hthere, hmemory⟩ := mapped_article hinside hmapped
    have hlength : ((file.drop offset).take len).length = len := hthere ▸ mapped_length hmemory
    unfold timecafOpenArticle at hhead hbody
    rw [if_neg nofun, hmapped] at hhead hbody
    dsimp only at hhead hbody
    rw [if_neg nofun] at hhead hbody
    cases hfind : wireFindbody ((memory.drop artdata).take len) with
    | none =>
      rw [hfind] at hhead
      cases hhead
    | some p =>
      rw [hfind] at hhead hbody
      cases hhead
      cases hbody
      have hsum := congrArg List.length (hwhole.trans harticle)
      rw [List.length_append, List.length_append, ArtHandle.octets, ArtHandle.octets,
        length_take, length_take,
        length_drop, length_drop, hlength] at hsum
      have htwo : ([13, 10] : Octets).length = 2 := rfl
      have hend := hlast.2
      dsimp only at hsum hend
      -- two octets for the border, and four of the body are left out
      generalize (unset + (p + 4)) % 2 ^ 64 = size at hsum hend
      omega

end Mapping

section Retrieving

variable {n : Nat}

def Stored.Cuttable : Stored → Prop
  | .timehash file => ¬Short file
  | .timecaf _ _ _ _ => False
  | .tradspool file => (∃ p, file.idxOf? 10 = some (p + 1)) ∧ ¬Short (Stored.tradspool file).article
  | .cnfs file offset size => ¬Short ((file.drop offset).take size)

theorem border_ne_nil {article : Octets} (hborder : IsBorder article n) : article ≠ [] := by
  rintro rfl
  exact absurd (border_le hborder) (Nat.not_succ_le_zero _)

theorem fitsAt_congr {article : Octets} {retrieve retrieve' : RetrType → Option ArtHandle}
    (hsame : ∀ amount, amount ≠ .RETR_STAT → retrieve amount = retrieve' amount) :
    FitsAt article retrieve n ↔ FitsAt article retrieve' n := by
  unfold FitsAt
  rw [hsame .RETR_ALL nofun, hsame .RETR_HEAD nofun, hsame .RETR_BODY nofun]

theorem tradspoolOpenArticle_corrupt {articlemmap : Bool} {file : Octets}
    (hline : ¬∃ p, file.idxOf? 10 = some (p + 1)) :
    tradspoolOpenArticle articlemmap file .RETR_ALL = none := by
  unfold tradspoolOpenArticle
  rw [if_neg nofun]
  split
  · rfl
  · split
    next => rfl
    next => rfl
    next p hp => exact absurd ⟨p, hp⟩ hline

/-- The head, an empty line and the body of a stored article are the article when the method is
not `timecaf`, and the article is not one that its method takes for another. -/
theorem retrieve_fits_iff {stored : Stored} (articlemmap : Bool) (pagesize : Nat)
    (hpresent : stored.Present) (hborder : IsBorder stored.article n) :
    FitsAt stored.article (stored.retrieve articlemmap pagesize) n ↔ stored.Cuttable := by
  cases stored with
  | timehash file =>
    have hsame : ∀ amount, amount ≠ RetrType.RETR_STAT →
        timehashOpenArticle articlemmap file amount = sliceWhole file amount := by
      intro amount hstat
      unfold timehashOpenArticle
      rw [if_neg hstat, if_neg fun h => border_ne_nil hborder h.2]
    exact (fitsAt_congr hsame).trans (sliceWhole_fits hborder)
  | timecaf file curoff artlen unset =>
    constructor
    · intro hfits
      exact not_timecafOpenArticle_fits hpresent hfits
    · nofun
  | tradspool file =>
    by_cases hline : ∃ p, file.idxOf? 10 = some (p + 1)
    · obtain ⟨p, hp⟩ := hline
      have hfile : file ≠ [] := by
        rintro rfl
        cases hp
      have hsame : ∀ amount, amount ≠ RetrType.RETR_STAT →
          tradspoolOpenArticle articlemmap file amount =
            sliceWhole (Stored.tradspool file).article amount := by
        intro amount hstat
        unfold tradspoolOpenArticle
        rw [if_neg hstat, if_neg fun h => hfile h.2]
        unfold Stored.article
        dsimp only
        rw [hp]
      refine (fitsAt_congr hsame).trans ((sliceWhole_fits hborder).trans ?_)
      exact ⟨fun hshort => ⟨⟨p, hp⟩, hshort⟩, fun h => h.2⟩
    · constructor
      · rintro ⟨all, _, _, hall, _⟩
        exact nomatch (tradspoolOpenArticle_corrupt hline).symm.trans hall
      · intro h
        exact absurd h.1 hline
  | cnfs file offset size => exact cnfsRetrieve_fits hpresent hborder

def hello : Octets := [65, 58, 32, 98, 13, 10, 13, 10, 72, 101, 108, 108, 111, 13, 10]

theorem retrieve_fits_hello :
    FitsAt hello ((Stored.cnfs (hello ++ hello) 15 15).retrieve true 4) 6 ↔
      (Stored.cnfs (hello ++ hello) 15 15).Cuttable :=
  retrieve_fits_iff true 4 (by decide : 15 + 15 ≤ 30)
    (by decide : IsBorder (((hello ++ hello).drop 15).take 15) 6)

/-- The body of an article in a CAF file begins at its `o`, and ends behind the article. -/
theorem not_retrieve_fits_hello :
    IsBorder (Stored.timecaf (hello ++ hello) 0 15 0).article 6 ∧
      (timecafOpenArticle false 4096 (hello ++ hello) 0 15 0 .RETR_BODY).map (fun art =>
        (art.memory.length, art.data, art.len)) =
        some (15, 12, 12) ∧
      ¬FitsAt (Stored.timecaf (hello ++ hello) 0 15 0).article
        ((Stored.timecaf (hello ++ hello) 0 15 0).retrieve false 4096) 6 := by
  refine ⟨by decide, by decide, ?_⟩
  have hnot :
      ¬FitsAt (((hello ++ hello).drop 0).take 15)
      (timecafOpenArticle false 4096 (hello ++ hello) 0 15 0) 6 :=
    not_timecafOpenArticle_fits (by decide)
  exact hnot

end Retrieving

end Inn.Storage
