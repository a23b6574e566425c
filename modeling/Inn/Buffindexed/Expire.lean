import Inn.Buffindexed.Overview

/-!
# Expiry of a group

The articles that are kept are added again, to a group that takes new blocks. Then the new group
takes the place of the old one, whose blocks are freed.
-/

namespace Inn.Buffindexed

open Foundation.Sorting

def freegroupblock : List OV → State → Except Fault State
  | [], s => .ok s
  | ov :: rest, s =>
    match s.ovblockfree ov with
    | .error fault => .error fault
    | .ok s => freegroupblock rest s

def setinitialge (ge : GROUPENTRY) (lo hi : Nat) : GROUPENTRY :=
  { ge with
    low := if lo ≠ 0 then lo else ge.low
    high := hi
    count := 0
    baseindex := ovnull
    curindex := ovnull
    curdata := ovnull
    curindexoffset := 0
    curoffset := 0 }

def ovopensearch (sorter : Sorter INDEXcompare) (turns : Nat) (v : Volume) (ge : GROUPENTRY)
    (low high : Nat) (needov : Bool) :
    Except Fault (Option (OVSEARCH × Mapped)) :=
  let low := if low < ge.low then ge.low else low
  let high := if ge.high < high then ge.high else high
  match ovgroupmmap sorter turns v ge low high needov with
  | .error fault => .error fault
  | .ok none => .ok none
  | .ok (some mapped) => .ok (some (⟨low, high, mapped.Gib, needov, mapped.groupdatablock⟩, mapped))

def addAgain (keeps : Overview → Bool) : Nat → OVSEARCH → Found → Volume → GROUPENTRY →
    List Overview →
    Except Fault (Bool × List Overview × Volume × GROUPENTRY)
  | 0, _, _, v, newge, kept => .ok (true, kept, v, newge)
  | turns + 1, search, found, v, newge, kept =>
    match search.ovsearch v.disk found with
    | (false, _, _) => .ok (true, kept, v, newge)
    | (true, found, search) =>
      if found.len = 0 ∨ keeps found.overview = false then addAgain keeps turns search
        found v newge kept
      else
        match ovaddrec v newge found.overview with
        | .error fault => .error fault
        | .ok (false, v, newge) => .ok (false, kept, v, newge)
        | .ok (true, v, newge) =>
            addAgain keeps turns search found v newge (kept ++ [found.overview])

/-- What an expiry keeps and frees, and the new group. -/
structure Expiry where
  done : Bool
  kept : List Overview
  freed : List OV
  volume : Volume
  ge : GROUPENTRY

def Found.initial : Found := ⟨0, fun _ => 0, 0, OVINDEX.zero.token, 0, 0⟩

def GROUPENTRY.turns (ge : GROUPENTRY) : Nat := ge.count.toNat + 2

def cleanReserved (sorter : Sorter INDEXcompare) (v : Volume) (ge newge : GROUPENTRY) :
    Except Fault Expiry :=
  match ovgroupmmap sorter newge.turns v newge newge.low newge.high true with
  | .error fault => .error fault
  | .ok none => .ok ⟨false, [], [], v, ge⟩
  | .ok (some mapped) =>
    let freed := mapped.Giblist ++ mapped.groupdatablock
    match freegroupblock freed v.state with
    | .error fault => .error fault
    | .ok state => .ok ⟨false, [], freed, { v with state := state }, ge⟩

def lowWater (newge : GROUPENTRY) : GROUPENTRY :=
  let newge := if newge.low = 0 then { newge with low := newge.high } else newge
  if newge.count = 0 then { newge with low := newge.high + 1 } else newge

def takePlace (sorter : Sorter INDEXcompare) (ge : GROUPENTRY) (mapped : Mapped) :
    Bool × List Overview × Volume × GROUPENTRY → Except Fault Expiry
  | (false, _, v, newge) => cleanReserved sorter v ge newge
  | (true, kept, v, newge) =>
    let freed := mapped.Giblist ++ mapped.groupdatablock
    match freegroupblock freed v.state with
    | .error fault => .error fault
    | .ok state => .ok ⟨true, kept, freed, { v with state := state }, lowWater newge⟩

def buffindexedExpiregroup (sorter : Sorter INDEXcompare) (keeps : Overview → Bool) (v : Volume)
    (ge : GROUPENTRY) :
    Except Fault Expiry :=
  if ge.count = 0 then .ok ⟨true, [], [], v, { ge with low := ge.high + 1 }⟩
  else
    match ovopensearch sorter ge.turns v ge ge.low ge.high true with
    | .error fault => .error fault
    | .ok none => .ok ⟨false, [], [], v, ge⟩
    | .ok (some (search, mapped)) =>
      match addAgain keeps search.cur.length search .initial v
        (setinitialge { ge with low := 0 } 0 ge.high) [] with
      | .error fault => .error fault
      | .ok result => takePlace sorter ge mapped result

inductive Event
  | add (group : Nat) (o : Overview)
  | expire (group : Nat) (keeps : Overview → Bool)

def Store.act (sorter : Sorter INDEXcompare) (store : Store) : Event → Except Fault Store
  | .add g o => store.step (g, o)
  | .expire g keeps =>
    match buffindexedExpiregroup sorter keeps store.volume (store.GROUPentries g) with
    | .error fault => .error fault
    | .ok expiry =>
      .ok
        { volume := expiry.volume
          GROUPentries := Function.update store.GROUPentries g expiry.ge
          added := if expiry.done then Function.update store.added g expiry.kept else store.added }

end Inn.Buffindexed
