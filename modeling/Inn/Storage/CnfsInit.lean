import Inn.Storage.CnfsStore

/-!
# Starting with the cyclic buffers

All buffers are opened, and in a group that is written in sequence the current buffer
is found again. It is the one that the headers mark, or the first one.
-/

namespace Inn.Storage.Cnfs

open Function (update)

variable {n k : Nat}

structure Current (count : Nat) where
  currentcycbuff : Fin count
  foundcurrent : Bool
  order : Int

def candidate {count : Nat} (name : Octets) (i : Fin count) (cycbuff : CYCBUFF)
    (current : Current count) :
    CYCBUFF × Current count :=
  if cycbuff.metaname.text ≠ (cString name).take 16 then
    ({ cycbuff with
      order := int (i + 1)
      currentbuff := false
      metaname := strncpy 16 name
      needflush := true }, current)
  else
    let current :=
      if current.foundcurrent = false ∧ cycbuff.currentbuff then
        { current with currentcycbuff := i, foundcurrent := true }
      else current
    let current :=
      if current.foundcurrent = false ∨ current.order = -1 ∨ cycbuff.order < current.order then
        { current with currentcycbuff := i, order := cycbuff.order }
      else current
    (if cycbuff.order ≠ int (i + 1) then
      { cycbuff with order := int (i + 1), needflush := true } else cycbuff, current)

def mark {count : Nat} (currentcycbuff i : Fin count) (now : Int64) (cycbuff : CYCBUFF) :
    Except Fault (Bool × CYCBUFF) :=
  let cycbuff :=
    if currentcycbuff = i ∧ cycbuff.currentbuff = false then
      { cycbuff with currentbuff := true, needflush := true }
    else cycbuff
  let cycbuff :=
    if currentcycbuff ≠ i ∧ cycbuff.currentbuff then
      { cycbuff with currentbuff := false, needflush := true }
    else cycbuff
  CNFSflushhead true now cycbuff

def CNFS_setcurrent (now : Int64) (metacycbuff : METACYCBUFF n) (tab : Fin n → CYCBUFF) :
    Except Fault (Bool × (Fin n → CYCBUFF) × METACYCBUFF n) := do
  let first : Fin metacycbuff.members.length := ⟨0, Nat.zero_lt_of_lt metacycbuff.inside⟩
  let places := List.finRange metacycbuff.members.length
  let (tab, current) := places.foldl (fun (tab, current) i =>
    let (cycbuff, current) := candidate metacycbuff.name i (tab (metacycbuff.members.get i)) current
    (update tab (metacycbuff.members.get i) cycbuff, current)) (tab, ⟨first, false, -1⟩)
  let currentcycbuff : Fin metacycbuff.members.length :=
    if current.foundcurrent then current.currentcycbuff else first
  let (done, tab) ← places.foldlM (fun (done, tab) i => do
    if !done then return (done, tab)
    else
      let (done, cycbuff) ← mark currentcycbuff i now (tab (metacycbuff.members.get i))
      return (done, update tab (metacycbuff.members.get i) cycbuff)) (true, tab)
  return (done, tab, { metacycbuff with membNext := currentcycbuff, inside := currentcycbuff.isLt })

section Init

variable (mode : Mode)

def initAll (now : Int64) (calls : Fin n → Calls) (tab : Fin n → CYCBUFF) :
    Except Fault (Bool × (Fin n → CYCBUFF)) :=
  (List.finRange n).foldlM (fun (done, tab) i => do
    if !done then return (done, tab)
    else
      let (done, cycbuff) ← CNFSinit_disks true now (calls i) (tab i)
      return (done, update tab i cycbuff)) (true, tab)

def initGroups (now : Int64) (spool : Spool n k) : Except Fault (Bool × Spool n k) :=
  (List.finRange k).foldlM (fun (done, spool) j => do
    if !done then return (done, spool)
    else
      let metacycbuff := { spool.metacycbufftab j with
        membNext := 0
        inside := Nat.zero_lt_of_lt (spool.metacycbufftab j).inside
        writeCount := 0 }
      if metacycbuff.metamode = .SEQUENTIAL then
        let (done, tab, metacycbuff) ← CNFS_setcurrent now metacycbuff spool.cycbufftab
        return (done, { spool with
          cycbufftab := tab
          metacycbufftab := update spool.metacycbufftab j metacycbuff })
      else return (done, { spool with metacycbufftab := update spool.metacycbufftab j metacycbuff }))
    (true, spool)

def cnfsInit (now : Int64) (calls : Fin n → Calls) (spool : Spool n k) :
    Except Fault (Option (Spool n k)) := do
  let (done, tab) ← initAll now calls spool.cycbufftab
  if !done then return none
  else
    let (done, spool) ← initGroups now { spool with cycbufftab := tab }
    if !done then return none
    else
      let tab ← (List.finRange n).foldlM (fun tab i => update tab i <$> shut mode now (tab i))
        spool.cycbufftab
      return some { spool with cycbufftab := tab }

end Init

end Inn.Storage.Cnfs
