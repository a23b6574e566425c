import Inn.Storage.CnfsHeader
import Inn.Foundation.Bitmap
import Inn.Foundation.Outcomes

/-!
# Storing in cyclic buffers

The buffers of a group are written one after the other, or each until it is full. An
article goes to the free pointer of a buffer in whole blocks, and a buffer that has no
room left starts again at its first block.
-/

namespace Inn.Storage.Cnfs

open Function (update)
open Foundation (Bitmap.mask)

def offset (n : Int) : Except Fault Int :=
    if -2 ^ 63 ≤ n ∧ n < 2 ^ 63 then .ok n else .error .overflow

def masked (n mask : Int) : Int := ((n % 2 ^ 64).toNat &&& (mask % 2 ^ 64).toNat : Nat)

def CNFSUsedBlock (cycbuff : CYCBUFF) (offset : Int) (set_operation setbitvalue : Bool) :
    Except Fault (Nat × CYCBUFF) :=
  if (offset < cycbuff.minartoffset ∧ setbitvalue) ∨ cycbuff.len < offset then .ok (0, cycbuff)
  else if offset.tmod cycbuff.blksz ≠ 0 then .ok (0, cycbuff)
  else
    let blocknum := offset.tdiv cycbuff.blksz
    let longoffset := blocknum.tdiv 64
    let bitoffset := blocknum.tmod 64
    let address := CNFS_BEFOREBITF + 8 * longoffset
    if !cycbuff.bitfield then .error .unmapped
    else if address < CNFS_BEFOREBITF ∨ cycbuff.minartoffset < address + 8 then .error .outside
    else
      let bitlong := cycbuff.file.words longoffset.toNat
      let mask := Bitmap.mask 64 bitoffset.toNat
      if set_operation then
        let bitlong := if setbitvalue then bitlong ||| mask else bitlong &&& ~~~mask
        .ok (2, { cycbuff with
          file := { cycbuff.file
            with words := update cycbuff.file.words longoffset.toNat bitlong } })
      else .ok (if bitlong &&& mask = 0 then 0 else 1, cycbuff)

def blocks (start stop blksz : Int) : List Int :=
  (List.range ((stop - start + blksz - 1) / blksz).toNat).map fun (k : Nat) => start + k * blksz

def clearBlocks (start stop : Int) (cycbuff : CYCBUFF) : Except Fault CYCBUFF :=
  (blocks start stop cycbuff.blksz).foldlM
    (fun cycbuff middle => Prod.snd <$> CNFSUsedBlock cycbuff middle true false) cycbuff

section Groups

inductive METAMODE where
  | INTERLEAVE
  | SEQUENTIAL
  deriving DecidableEq

structure METACYCBUFF (n : Nat) where
  name : Octets
  members : List (Fin n)
  membNext : Nat
  inside : membNext < members.length
  writeCount : UInt64
  metamode : METAMODE

variable {n k : Nat}

def METACYCBUFF.current (metacycbuff : METACYCBUFF n) : Fin n :=
  metacycbuff.members.get ⟨metacycbuff.membNext, metacycbuff.inside⟩

def METACYCBUFF.advance (metacycbuff : METACYCBUFF n) : METACYCBUFF n :=
  { metacycbuff with
    membNext := (metacycbuff.membNext + 1) % metacycbuff.members.length
    inside := Nat.mod_lt _ (Nat.zero_lt_of_lt metacycbuff.inside) }

structure Spool (n k : Nat) where
  cycbufftab : Fin n → CYCBUFF
  metacycbufftab : Fin k → METACYCBUFF n
  metaexprulestab : List (UInt8 × Fin k)

structure Mode where
  SMpreopen : Bool
  metabuffUpdate : Nat

end Groups

section Storing

variable {n k : Nat} (mode : Mode)

/-- An article in pieces, of less than 2^63 octets. -/
structure ARTHANDLE where
  iov : List Nat
  len : Nat
  whole : iov.sum = len
  small : len < 2 ^ 63

structure Request where
  article : ARTHANDLE
  storageclass : UInt8
  now : Int64
  first : Calls
  second : Calls
  lseek : Bool
  xwritev : Bool

def CNFSshutdowncycbuff (now : Int64) (cycbuff : CYCBUFF) : Except Fault CYCBUFF := do
  let (_, cycbuff) ← CNFSflushhead true now cycbuff
  return { cycbuff with bitfield := false, fd := false }

def shut (now : Int64) (cycbuff : CYCBUFF) : Except Fault CYCBUFF :=
  if mode.SMpreopen then .ok cycbuff else CNFSshutdowncycbuff now cycbuff

def ready (now : Int64) (calls : Calls) (cycbuff : CYCBUFF) : Except Fault (Bool × CYCBUFF) :=
  if mode.SMpreopen then .ok (true, cycbuff) else CNFSinit_disks true now calls cycbuff

def realign (cycbuff : CYCBUFF) : Except Fault CYCBUFF := do
  let tonextblock := cycbuff.blksz - masked cycbuff.free (cycbuff.blksz - 1)
  if tonextblock ≠ cycbuff.blksz then
    let free ← offset (cycbuff.free + tonextblock)
    return { cycbuff with free }
  else return cycbuff

def left (cycbuff : CYCBUFF) : Int :=
  if cycbuff.len - cycbuff.free < cycbuff.blksz + 1 then 0 else cycbuff.len - cycbuff.free -
    cycbuff.blksz - 1

def nextCycle (magicver : Nat) (cyclenum : UInt32) : UInt32 :=
  let cyclenum := cyclenum + 1
  if magicver ≤ 3 then if cyclenum = 0 then cyclenum + 2 else cyclenum
  else if cyclenum &&& 0xFFFFFF = 0 then 2 else cyclenum

def rollover (cycbuff : CYCBUFF) : Except Fault CYCBUFF := do
  let cycbuff ← clearBlocks cycbuff.free (cycbuff.len - cycbuff.blksz - 1) cycbuff
  return { cycbuff with
    free := cycbuff.minartoffset
    cyclenum := nextCycle cycbuff.magicver cycbuff.cyclenum
    needflush := true }

def SIZEOF_CNFSARTHEADER : Int := 24

def totlen (blksz : Int) (article : ARTHANDLE) : Int :=
  let totlen := SIZEOF_CNFSARTHEADER + article.iov.sum
  if masked totlen (blksz - 1) ≠ 0 then totlen + (blksz - masked totlen (blksz - 1)) else totlen

def place (tab : Fin n → CYCBUFF) (metacycbuff : METACYCBUFF n) (request : Request) :
    Except Fault (Option (Fin n) × (Fin n → CYCBUFF) × METACYCBUFF n) := do
  let i := metacycbuff.current
  let (opened, cycbuff) ← ready mode request.now request.first (tab i)
  if !opened then return (none, update tab i cycbuff, metacycbuff)
  else
    let cycbuff ← realign cycbuff
    let _ ← offset (cycbuff.len - cycbuff.free)
    if left cycbuff < request.article.len then
      let cycbuff ← rollover cycbuff
      match metacycbuff.metamode with
      | .INTERLEAVE =>
        let (_, cycbuff) ← CNFSflushhead true request.now cycbuff
        return (some i, update tab i cycbuff, metacycbuff)
      | .SEQUENTIAL =>
        let (_, cycbuff) ← CNFSflushhead true request.now { cycbuff with currentbuff := false }
        let cycbuff ← shut mode request.now cycbuff
        let tab := update tab i cycbuff
        let metacycbuff := metacycbuff.advance
        let i := metacycbuff.current
        let (opened, cycbuff) ← ready mode request.now request.second (tab i)
        if !opened then return (none, update tab i cycbuff, metacycbuff)
        else
          let (_, cycbuff) ← CNFSflushhead true request.now
            { cycbuff with currentbuff := true, needflush := true }
          return (some i, update tab i cycbuff, metacycbuff)
    else return (some i, update tab i cycbuff, metacycbuff)

def flushDue (now : Int64) (metacycbuff : METACYCBUFF n) (tab : Fin n → CYCBUFF) :
    Except Fault (Fin n → CYCBUFF) :=
  if metacycbuff.writeCount.toNat % mode.metabuffUpdate = 0 then
    metacycbuff.members.foldlM
      (fun tab i => (fun flushed => update tab i flushed.2) <$> CNFSflushhead true now (tab i)) tab
  else .ok tab

def markBlocks (artoffset : Int) (cycbuff : CYCBUFF) : Except Fault CYCBUFF := do
  let (_, cycbuff) ← CNFSUsedBlock cycbuff artoffset true true
  clearBlocks (artoffset + cycbuff.blksz) cycbuff.free cycbuff

def put (i : Fin n) (tab : Fin n → CYCBUFF) (metacycbuff : METACYCBUFF n) (request : Request) :
    Except Fault (Option TOKEN × (Fin n → CYCBUFF) × METACYCBUFF n) := do
  let artoffset := (tab i).free
  let artcyclenum := (tab i).cyclenum
  if !request.lseek ∨ artoffset < 0 then
    let cycbuff ← shut mode request.now (tab i)
    return (none, update tab i cycbuff, metacycbuff)
  else
    let totlen := totlen (tab i).blksz request.article
    let cycbuff :=
      { tab i with file := { (tab i).file with written := (artoffset, totlen) ::
        (tab i).file.written } }
    if !request.xwritev then
      let cycbuff ← shut mode request.now cycbuff
      return (none, update tab i cycbuff, metacycbuff)
    else
      let free ← offset (cycbuff.free + totlen)
      let tab := update tab i { cycbuff with needflush := true, free }
      let metacycbuff :=
        if metacycbuff.metamode = .INTERLEAVE then metacycbuff.advance else metacycbuff
      let metacycbuff := { metacycbuff with writeCount := metacycbuff.writeCount + 1 }
      let tab ← flushDue mode request.now metacycbuff tab
      let cycbuff ← markBlocks artoffset (tab i)
      let cycbuff ← shut mode request.now cycbuff
      return (some (CNFSMakeToken cycbuff.name artoffset cycbuff.blksz artcyclenum
        request.storageclass),
        update tab i cycbuff, metacycbuff)

def cnfsStore (spool : Spool n k) (request : Request) : Except Fault (Option TOKEN × Spool n k) :=
  match spool.metaexprulestab.find? fun rule => rule.1 = request.storageclass with
  | none => .ok (none, spool)
  | some rule => do
      let (i, tab, metacycbuff) ← place mode spool.cycbufftab (spool.metacycbufftab rule.2) request
      let (token, tab, metacycbuff) ←
        match i with
        | none => .ok (none, tab, metacycbuff)
        | some i => put mode i tab metacycbuff request
      return (token, { spool with
        cycbufftab := tab
        metacycbufftab := update spool.metacycbufftab rule.2 metacycbuff })

end Storing

end Inn.Storage.Cnfs
