import Inn.Storage.CnfsInit

/-!
# What storing keeps of every buffer

A condition on single buffers that the operations on a buffer keep holds of all of them
after an article has been stored. The articles may have to fit for it.
-/

namespace Inn.Storage.Cnfs

open Foundation.Outcomes
open Function (update update_self update_of_ne)

variable {n k : Nat} {mode : Mode} {faults : Fault → Prop} {K : CYCBUFF → Prop}
    {fits : CYCBUFF → Int → Prop}

/-- What the calls of a run keep of each buffer. -/
structure Maintained (faults : Fault → Prop) (K : CYCBUFF → Prop)
    (fits : CYCBUFF → Int → Prop) : Prop where
  flush : ∀ {b : CYCBUFF} now, K b →
    Yields faults (fun r => K r.2 ∧ r.2.bitfield = b.bitfield) (CNFSflushhead true now b)
  shutdown : ∀ {b : CYCBUFF} now, K b → b.bitfield = true →
    Yields faults (fun r => K r ∧ r.bitfield = false) (CNFSshutdowncycbuff now b)
  start : ∀ {b : CYCBUFF} now calls, K b → b.bitfield = false →
    Yields faults (fun r => K r.2 ∧ r.2.bitfield = r.1) (CNFSinit_disks true now calls b)
  nonneg : ∀ {b : CYCBUFF}, K b → b.bitfield = true → 0 ≤ b.free ∧ 0 ≤ b.blksz
  realign : ∀ {b : CYCBUFF}, K b → b.bitfield = true →
    Yields faults (fun r => K r ∧ r.bitfield = true) (realign b)
  difference : ∀ {b : CYCBUFF}, K b →
    b.bitfield = true → Yields faults (fun _ => True) (offset (b.len - b.free))
  used : ∀ {b : CYCBUFF} {offset : Int} value, K b → b.bitfield = true → 0 ≤ offset →
    Yields faults (fun r => K r.2 ∧ r.2.bitfield = true) (CNFSUsedBlock b offset true value)
  rolled : ∀ {b : CYCBUFF}, K b → b.bitfield = true →
    K { b with
      free := b.minartoffset, cyclenum := nextCycle b.magicver b.cyclenum, needflush := true }
  left : ∀ {b : CYCBUFF}, K b → b.bitfield = true → K { b with currentbuff := false }
  marked : ∀ {b : CYCBUFF} current, K b → b.bitfield = true →
    K { b with currentbuff := current, needflush := true }
  ordered : ∀ {b : CYCBUFF} place, K b → b.bitfield = true →
    K { b with order := int place, needflush := true }
  joined : ∀ {b : CYCBUFF} place metaname, K b → b.bitfield = true →
    K { b with order := int place, currentbuff := false, metaname, needflush := true }
  written : ∀ {b : CYCBUFF} {length : Int}, K b → b.bitfield = true → fits b length →
    K { b with file := { b.file with written := (b.free, length) :: b.file.written } }
  advanced : ∀ {b : CYCBUFF} {length : Int}, K b → b.bitfield = true → fits b length →
    Yields faults (fun free => K { b with
      file := { b.file with written := (b.free, length) :: b.file.written },
        needflush := true, free })
      (offset (b.free + length))

def Resting (mode : Mode) (K : CYCBUFF → Prop) (tab : Fin n → CYCBUFF) : Prop :=
  ∀ i, K (tab i) ∧ (tab i).bitfield = mode.SMpreopen

structure Working (mode : Mode) (K : CYCBUFF → Prop) (i : Fin n)
    (tab : Fin n → CYCBUFF) : Prop where
  kept : K (tab i)
  mapped : (tab i).bitfield = true
  others : ∀ j, j ≠ i → K (tab j) ∧ (tab j).bitfield = mode.SMpreopen

theorem Resting.working {tab : Fin n → CYCBUFF} (h : Resting mode K tab) (i : Fin n)
    {b : CYCBUFF} (hb : K b) (hmapped : b.bitfield = true) : Working mode K i (update tab i b) where
  kept := by rw [update_self]; exact hb
  mapped := by rw [update_self]; exact hmapped
  others j hj := by rw [update_of_ne hj]; exact h j

theorem Working.set {tab : Fin n → CYCBUFF} {i : Fin n} (h : Working mode K i tab)
    {b : CYCBUFF} (hb : K b) (hmapped : b.bitfield = true) : Working mode K i (update tab i b) where
  kept := by rw [update_self]; exact hb
  mapped := by rw [update_self]; exact hmapped
  others j hj := by rw [update_of_ne hj]; exact h.others j hj

theorem Working.resting {tab : Fin n → CYCBUFF} {i : Fin n} (h : Working mode K i tab)
    {b : CYCBUFF} (hb : K b)
    (hmapped : b.bitfield = mode.SMpreopen) : Resting mode K (update tab i b) := by
  intro j
  by_cases hj : j = i
  · rw [hj, update_self]
    exact ⟨hb, hmapped⟩
  · rw [update_of_ne hj]
    exact h.others j hj

theorem Resting.set {tab : Fin n → CYCBUFF} (h : Resting mode K tab)
    (i : Fin n) {b : CYCBUFF} (hb : K b)
    (hmapped : b.bitfield = mode.SMpreopen) : Resting mode K (update tab i b) := by
  intro j
  by_cases hj : j = i
  · rw [hj, update_self]
    exact ⟨hb, hmapped⟩
  · rw [update_of_ne hj]
    exact h j

namespace Maintained

theorem allow (h : Maintained (fun _ => False) K fits) : Maintained faults K fits where
  flush now hb := (h.flush now hb).allow
  shutdown now hb hmapped := (h.shutdown now hb hmapped).allow
  start now calls hb hrest := (h.start now calls hb hrest).allow
  nonneg := h.nonneg
  realign hb hmapped := (h.realign hb hmapped).allow
  difference hb hmapped := (h.difference hb hmapped).allow
  used value hb hmapped hoffset := (h.used value hb hmapped hoffset).allow
  rolled := h.rolled
  left := h.left
  marked := h.marked
  ordered := h.ordered
  joined := h.joined
  written := h.written
  advanced hb hmapped hfits := (h.advanced hb hmapped hfits).allow

variable (hM : Maintained faults K fits)

include hM

theorem clearBlocks {b : CYCBUFF} {start stop : Int} (hb : K b)
    (hmapped : b.bitfield = true) (hstart : 0 ≤ start) :
    Yields faults (fun r => K r ∧ r.bitfield = true) (Cnfs.clearBlocks start stop b) := by
  refine yields_foldlM _ (fun c hc middle hmiddle => Yields.map ?_) ⟨hb, hmapped⟩
  obtain ⟨j, -, rfl⟩ := List.mem_map.mp hmiddle
  have hstep : 0 ≤ j * b.blksz := Int.mul_nonneg (Int.natCast_nonneg j) (hM.nonneg hb hmapped).2
  exact hM.used false hc.1 hc.2 (Int.add_nonneg hstart hstep)

theorem rollover {b : CYCBUFF} (hb : K b) (hmapped : b.bitfield = true) :
    Yields faults (fun r => K r ∧ r.bitfield = true) (Cnfs.rollover b) := by
  refine (hM.clearBlocks hb hmapped (hM.nonneg hb hmapped).1).bind fun c hc => ?_
  exact ⟨hM.rolled hc.1 hc.2, hc.2⟩

theorem shut (mode : Mode) {b : CYCBUFF} (now : Int64) (hb : K b) (hmapped : b.bitfield = true) :
    Yields faults (fun r => K r ∧ r.bitfield = mode.SMpreopen) (Cnfs.shut mode now b) := by
  unfold Cnfs.shut
  split
  next hpreopen => exact ⟨hb, hmapped.trans hpreopen.symm⟩
  next hpreopen =>
    exact (hM.shutdown now hb hmapped).mono fun r hr =>
      ⟨hr.1, hr.2.trans (Bool.not_eq_true _ ▸ hpreopen).symm⟩

theorem ready {b : CYCBUFF} (now : Int64) (calls : Calls) (hb : K b)
    (hrest : b.bitfield = mode.SMpreopen) :
    Yields faults (fun r => K r.2 ∧ (r.1 = true → r.2.bitfield = true) ∧
      (r.1 = false → r.2.bitfield = mode.SMpreopen))
      (Cnfs.ready mode now calls b) := by
  unfold Cnfs.ready
  split
  next hpreopen => exact ⟨hb, fun _ => hrest.trans hpreopen, fun h => by cases h⟩
  next hpreopen =>
    have hclosed : mode.SMpreopen = false := Bool.not_eq_true _ ▸ hpreopen
    refine (hM.start now calls hb (hrest.trans hclosed)).mono fun r hr =>
      ⟨hr.1, hr.2.trans, fun h => ?_⟩
    rw [hr.2, h, hclosed]

theorem place {tab : Fin n → CYCBUFF} (htab : Resting mode K tab) (metacycbuff : METACYCBUFF n)
    (request : Request) :
    Yields faults (fun r => (r.1 = none → Resting mode K r.2.1) ∧ ∀ i, r.1 = some i →
      Working mode K i r.2.1)
      (Cnfs.place mode tab metacycbuff request) := by
  have hcurrent := htab metacycbuff.current
  refine (hM.ready request.now request.first hcurrent.1 hcurrent.2).bind fun ⟨opened, b⟩ ⟨hb,
    hopened, hclosed⟩ => ?_
  dsimp only at hb hopened hclosed ⊢
  split
  next hready =>
    exact ⟨fun _ => htab.set _ hb (hclosed (by simpa using hready)), fun i hi => by cases hi⟩
  next hready =>
    have hmapped := hopened (by simpa using hready)
    refine (hM.realign hb hmapped).bind fun b ⟨hb, hmapped⟩ => ?_
    refine (hM.difference hb hmapped).bind fun _ _ => ?_
    split
    next =>
      refine (hM.rollover hb hmapped).bind fun b ⟨hb, hmapped⟩ => ?_
      split
      next =>
        refine (hM.flush request.now hb).bind fun ⟨_, c⟩ ⟨hc, hsame⟩ => ?_
        refine ⟨fun h => (by cases h), fun i hi => ?_⟩
        cases hi
        exact htab.working _ hc (hsame.trans hmapped)
      next =>
        refine (hM.flush request.now (hM.left hb hmapped)).bind fun ⟨_, c⟩ ⟨hc, hsame⟩ => ?_
        refine (hM.shut mode request.now hc (hsame.trans hmapped)).bind fun d ⟨hd, hrest⟩ => ?_
        have htab' := htab.set metacycbuff.current hd hrest
        have hnext := htab' metacycbuff.advance.current
        refine (hM.ready request.now request.second hnext.1 hnext.2).bind
          fun ⟨opened, b⟩ ⟨hb, hopened, hclosed⟩ => ?_
        dsimp only at hb hopened hclosed ⊢
        split
        next hready =>
          exact ⟨fun _ => htab'.set _ hb (hclosed (by simpa using hready)), fun i hi => by cases hi⟩
        next hready =>
          have hmapped := hopened (by simpa using hready)
          refine (hM.flush request.now (hM.marked true hb hmapped)).bind
            fun ⟨_, c⟩ ⟨hc, hsame⟩ => ?_
          refine ⟨fun h => (by cases h), fun i hi => ?_⟩
          cases hi
          exact htab'.working _ hc (hsame.trans hmapped)
    next =>
      refine ⟨fun h => (by cases h), fun i hi => ?_⟩
      cases hi
      exact htab.working _ hb hmapped

theorem flushDue {tab : Fin n → CYCBUFF} (now : Int64) (metacycbuff : METACYCBUFF n) {i : Fin n}
    (htab : Working mode K i tab) :
    Yields faults (Working mode K i) (Cnfs.flushDue mode now metacycbuff tab) := by
  unfold Cnfs.flushDue
  split
  next =>
    refine yields_foldlM _ (fun tab htab j _ => Yields.map ?_) htab
    by_cases hj : j = i
    · rw [hj]
      exact (hM.flush now htab.kept).mono fun r ⟨hr, hsame⟩ => htab.set hr (hsame.trans htab.mapped)
    · refine (hM.flush now (htab.others j hj).1).mono fun r ⟨hr, hsame⟩ => ?_
      refine ⟨?_, ?_, fun m hm => ?_⟩
      · rw [update_of_ne (Ne.symm hj)]
        exact htab.kept
      · rw [update_of_ne (Ne.symm hj)]
        exact htab.mapped
      · by_cases hmj : m = j
        · rw [hmj, update_self]
          exact ⟨hr, hsame.trans (htab.others j hj).2⟩
        · rw [update_of_ne hmj]
          exact htab.others m hm
  next => exact htab

theorem markBlocks {b : CYCBUFF} {artoffset : Int} (hb : K b) (hmapped : b.bitfield = true)
    (hoffset : 0 ≤ artoffset) :
    Yields faults (fun r => K r ∧ r.bitfield = true) (Cnfs.markBlocks artoffset b) := by
  refine (hM.used true hb hmapped hoffset).bind fun ⟨_, b⟩ ⟨hb, hmapped⟩ => ?_
  exact hM.clearBlocks hb hmapped (Int.add_nonneg hoffset (hM.nonneg hb hmapped).2)

theorem put {tab : Fin n → CYCBUFF} {i : Fin n}
    (htab : Working mode K i tab) (metacycbuff : METACYCBUFF n)
    (request : Request) (hfits : fits (tab i) (totlen (tab i).blksz request.article)) :
    Yields faults (fun r => Resting mode K r.2.1) (Cnfs.put mode i tab metacycbuff request) := by
  have hwritten := hM.written htab.kept htab.mapped hfits
  unfold Cnfs.put
  by_cases hlseek : (!request.lseek) = true ∨ (tab i).free < 0
  · rw [if_pos hlseek]
    exact (hM.shut mode request.now htab.kept htab.mapped).bind fun b ⟨hb, hrest⟩ =>
      htab.resting hb hrest
  · rw [if_neg hlseek]
    by_cases hxwritev : (!request.xwritev) = true
    · rw [if_pos hxwritev]
      exact (hM.shut mode request.now hwritten htab.mapped).bind fun b ⟨hb, hrest⟩ =>
        htab.resting hb hrest
    · rw [if_neg hxwritev]
      refine (hM.advanced htab.kept htab.mapped hfits).bind fun free hb => ?_
      refine (hM.flushDue request.now _ (htab.set hb htab.mapped)).bind fun tab' htab' => ?_
      have hoffset := (hM.nonneg htab.kept htab.mapped).1
      refine (hM.markBlocks htab'.kept htab'.mapped hoffset).bind fun b ⟨hb, hmapped⟩ => ?_
      exact (hM.shut mode request.now hb hmapped).bind fun b ⟨hb, hrest⟩ => htab'.resting hb hrest

theorem store {spool : Spool n k} (hspool : Resting mode K spool.cycbufftab) (request : Request)
    (hfits : ∀ rule i tab metacycbuff,
      spool.metaexprulestab.find? (fun rule => rule.1 = request.storageclass) = some rule →
      Cnfs.place mode spool.cycbufftab (spool.metacycbufftab rule.2) request =
        .ok (some i, tab, metacycbuff) →
      fits (tab i) (totlen (tab i).blksz request.article)) :
    Yields faults (fun r => Resting mode K r.2.cycbufftab) (cnfsStore mode spool request) := by
  unfold cnfsStore
  split
  next => exact hspool
  next rule hrule =>
    have hplace := hM.place hspool (spool.metacycbufftab rule.2) request
    cases hr : Cnfs.place mode spool.cycbufftab (spool.metacycbufftab rule.2) request with
    | error e =>
      rw [hr] at hplace
      exact hplace
    | ok r =>
      obtain ⟨i, tab, metacycbuff⟩ := r
      obtain ⟨htab, hworking⟩ := hplace.of_ok hr
      change Yields faults _ (Except.bind _ _)
      cases i with
      | none => exact htab rfl
      | some i =>
        exact (hM.put (hworking i rfl) metacycbuff request
          (hfits rule i tab metacycbuff hrule hr)).bind
          fun r hr => hr

end Maintained

section Init

def AllOpen (K : CYCBUFF → Prop) (tab : Fin n → CYCBUFF) : Prop :=
    ∀ i, K (tab i) ∧ (tab i).bitfield = true

theorem AllOpen.set {tab : Fin n → CYCBUFF} (h : AllOpen K tab) (i : Fin n) {b : CYCBUFF} (hb : K b)
    (hmapped : b.bitfield = true) : AllOpen K (update tab i b) := by
  intro j
  by_cases hj : j = i
  · rw [hj, update_self]
    exact ⟨hb, hmapped⟩
  · rw [update_of_ne hj]
    exact h j

theorem initAll_yields {fresh : CYCBUFF → Prop} (now : Int64) (calls : Fin n → Calls)
    {tab : Fin n → CYCBUFF} (hstart : ∀ i b, fresh b →
      Yields faults (fun r => r.1 = true →
        K r.2 ∧ r.2.bitfield = true) (CNFSinit_disks true now (calls i) b))
    (htab : ∀ i, fresh (tab i)) :
    Yields faults (fun r => r.1 = true → AllOpen K r.2) (initAll now calls tab) := by
  unfold initAll
  suffices h : ∀ (places : List (Fin n)) (r : Bool × (Fin n → CYCBUFF)), places.Nodup →
      (r.1 = true → ∀ i, if i ∈ places then fresh (r.2 i) else K (r.2 i) ∧
        (r.2 i).bitfield = true) →
      Yields faults (fun r => r.1 = true → AllOpen K r.2)
        (places.foldlM (fun r i =>
          if !r.1 then Except.ok (r.1, r.2)
          else do
            let opened ← CNFSinit_disks true now (calls i) (r.2 i)
            Except.ok (opened.1, update r.2 i opened.2)) r) by
    refine h (List.finRange n) (true, tab) (List.nodup_finRange n) fun _ i => ?_
    rw [if_pos (List.mem_finRange i)]
    exact htab i
  intro places
  induction places with
  | nil => exact fun r _ hr hdone i => by simpa using hr hdone i
  | cons i places ih =>
    intro r hnodup hr
    rw [List.nodup_cons] at hnodup
    rw [List.foldlM_cons]
    by_cases hdone : r.1 = true
    · rw [if_neg (by simpa using hdone)]
      have hi : fresh (r.2 i) := by simpa using hr hdone i
      rw [bind_assoc]
      refine (hstart i _ hi).bind fun b hb => ih _ hnodup.2 fun hopened j => ?_
      by_cases hj : j = i
      · rw [if_neg (hj ▸ hnodup.1)]
        simp only [hj, update_self]
        exact hb hopened
      · have hother := hr hdone j
        simp only [update_of_ne hj]
        simpa [hj] using hother
    · rw [if_pos (by simpa using hdone)]
      exact ih _ hnodup.2 fun h => absurd h hdone

namespace Maintained

variable (hM : Maintained faults K fits)

include hM

theorem candidate {count : Nat} (name : Octets) (i : Fin count) (current : Current count)
    {b : CYCBUFF} (hb : K b) (hmapped : b.bitfield = true) :
    K (Cnfs.candidate name i b current).1 ∧
      (Cnfs.candidate name i b current).1.bitfield = true := by
  unfold Cnfs.candidate
  split
  next => exact ⟨hM.joined (i + 1) _ hb hmapped, hmapped⟩
  next =>
    dsimp only
    split
    next => exact ⟨hM.ordered (i + 1) hb hmapped, hmapped⟩
    next => exact ⟨hb, hmapped⟩

theorem flagged (p : Prop) [Decidable p] (flag : Bool) {b : CYCBUFF}
    (hb : K b) (hmapped : b.bitfield = true) :
    K (if p then { b with currentbuff := flag, needflush := true } else b) ∧
      (if p then { b with currentbuff := flag, needflush := true } else b).bitfield = true := by
  split
  · exact ⟨hM.marked flag hb hmapped, hmapped⟩
  · exact ⟨hb, hmapped⟩

theorem mark {count : Nat} (current i : Fin count) (now : Int64) {b : CYCBUFF} (hb : K b)
    (hmapped : b.bitfield = true) :
    Yields faults (fun r => K r.2 ∧ r.2.bitfield = true) (Cnfs.mark current i now b) := by
  obtain ⟨hc, hcmapped⟩ := hM.flagged (current = i ∧ b.currentbuff = false) true hb hmapped
  obtain ⟨hd, hdmapped⟩ := hM.flagged (current ≠ i ∧
    (if current = i ∧ b.currentbuff = false then { b with currentbuff := true, needflush := true }
      else b).currentbuff)
    false hc hcmapped
  exact (hM.flush now hd).mono fun r hr => ⟨hr.1, hr.2.trans hdmapped⟩

theorem setcurrent (now : Int64) (metacycbuff : METACYCBUFF n) {tab : Fin n → CYCBUFF}
    (htab : AllOpen K tab) :
    Yields faults (fun r => AllOpen K r.2.1) (CNFS_setcurrent now metacycbuff tab) := by
  unfold CNFS_setcurrent
  dsimp only
  generalize hfound : List.foldl _ _ _ = found
  have hopen : AllOpen K found.1 := by
    rw [← hfound]
    generalize List.finRange metacycbuff.members.length = places
    generalize (⟨_, false, -1⟩ : Current metacycbuff.members.length) = current
    clear hfound
    induction places generalizing tab current with
    | nil => exact htab
    | cons i places ih =>
      have hplace := htab (metacycbuff.members.get i)
      have hi := hM.candidate metacycbuff.name i current hplace.1 hplace.2
      exact ih (htab.set _ hi.1 hi.2) _
  refine (yields_foldlM (fun r => AllOpen K r.2) (fun r hr i _ => ?_) hopen).bind fun r hr => ?_
  rotate_left
  · exact hr
  obtain ⟨done, tab⟩ := r
  dsimp only at hr ⊢
  split
  next => exact hr
  next =>
    have hplace := hr (metacycbuff.members.get i)
    exact (hM.mark _ i now hplace.1 hplace.2).bind fun r h => hr.set _ h.1 h.2

theorem initGroups (now : Int64) {spool : Spool n k} (hspool : AllOpen K spool.cycbufftab) :
    Yields faults (fun r => AllOpen K r.2.cycbufftab) (Cnfs.initGroups now spool) := by
  refine yields_foldlM (fun r : Bool × Spool n k => AllOpen K r.2.cycbufftab)
    (fun r hr j _ => ?_) hspool
  obtain ⟨done, spool⟩ := r
  dsimp only at hr ⊢
  split
  next => exact hr
  next =>
    split
    next => exact (hM.setcurrent now _ hr).bind fun r h => h
    next => exact hr

theorem init (mode : Mode) {fresh : CYCBUFF → Prop} (now : Int64) (calls : Fin n → Calls)
    {spool : Spool n k} (hstart : ∀ i b, fresh b →
      Yields faults (fun r => r.1 = true →
        K r.2 ∧ r.2.bitfield = true) (CNFSinit_disks true now (calls i) b))
    (hfresh : ∀ i, fresh (spool.cycbufftab i)) :
    Yields faults (fun r => ∀ s, r = some s →
      Resting mode K s.cycbufftab) (cnfsInit mode now calls spool) := by
  refine (initAll_yields now calls hstart hfresh).bind fun ⟨done, tab⟩ htab => ?_
  dsimp only at htab ⊢
  split
  next => exact fun s hs => by cases hs
  next hdone =>
    refine (hM.initGroups now (htab (by simpa using hdone))).bind fun ⟨done, spool⟩ hspool => ?_
    dsimp only at hspool ⊢
    split
    next => exact fun s hs => by cases hs
    next =>
      have hloop : ∀ places : List (Fin n), places.Nodup → ∀ tab : Fin n → CYCBUFF,
          (∀ i, K (tab i) ∧ (tab i).bitfield = if i ∈ places then true else mode.SMpreopen) →
          Yields faults (Resting mode K)
            (places.foldlM (fun tab i => update tab i <$> Cnfs.shut mode now (tab i)) tab) := by
        intro places
        induction places with
        | nil => exact fun _ tab htab i => by simpa using htab i
        | cons i places ih =>
          intro hnodup tab htab
          rw [List.nodup_cons] at hnodup
          rw [List.foldlM_cons]
          have hi : K (tab i) ∧ (tab i).bitfield = true := by simpa using htab i
          refine Yields.bind (Yields.map ((hM.shut mode now hi.1 hi.2).mono fun b hb =>
            ?_)) (ih hnodup.2)
          intro j
          by_cases hj : j = i
          · simp only [hj, update_self, if_neg hnodup.1]
            exact hb
          · have hother := htab j
            simp only [update_of_ne hj]
            simpa [hj] using hother
      refine (hloop _ (List.nodup_finRange n) _ fun i => ?_).bind fun tab htab s hs => ?_
      · rw [if_pos (List.mem_finRange i)]
        exact hspool i
      · cases hs
        exact htab

end Maintained

end Init

end Inn.Storage.Cnfs
