import Inn.Buffindexed.Blocks
import Inn.Foundation.Runs
import Inn.Foundation.Sorting
import Inn.History.Line

/-!
# The overview of a group

The index of a group is a chain of blocks. Overview data is kept in blocks of its own, which the
entries of the index refer to. A search collects the whole index, sorts it by article number, and
leaves one entry of each number.

Writing to the buffers and mapping them is taken to succeed.
-/

namespace Inn.Buffindexed

open Foundation.Sorting
open History (TOKEN time_t)
open Function (update)

def OV_BLOCKSIZE : Nat := 8192

def OVINDEXMAX : Nat := (OV_BLOCKSIZE - 24) / 64

structure OVINDEXHEAD where
  next : OV
  low : Nat
  high : Nat

structure OVINDEX where
  artnum : Nat
  blocknum : Nat
  index : Int
  token : TOKEN
  offset : Nat
  len : Nat
  arrived : time_t
  expires : time_t
  deriving DecidableEq

def OVINDEX.datablk (ie : OVINDEX) : OV := ⟨ie.blocknum, ie.index⟩

inductive OVBLOCK
  | index (ovindexhead : OVINDEXHEAD) (ovindex : Nat → OVINDEX)
  | data (octets : Nat → UInt8)

def OVINDEX.zero : OVINDEX := ⟨0, 0, 0, ⟨List.replicate 18 0, rfl⟩, 0, 0, 0, 0⟩

def OVBLOCK.ovindexhead : OVBLOCK → OVINDEXHEAD
  | .index ovindexhead _ => ovindexhead
  | .data _ => ⟨ovnull, 0, 0⟩

def OVBLOCK.ovindex : OVBLOCK → Nat → OVINDEX
  | .index _ ovindex => ovindex
  | .data _ => fun _ => .zero

def OVBLOCK.octets : OVBLOCK → Nat → UInt8
  | .index _ _ => fun _ => 0
  | .data octets => octets

abbrev Disk := OV → OVBLOCK

def Disk.writeHead (disk : Disk) (ov : OV) (ovindexhead : OVINDEXHEAD) : Disk :=
  update disk ov (.index ovindexhead (disk ov).ovindex)

def Disk.writeEntry (disk : Disk) (ov : OV) (i : Nat) (ie : OVINDEX) : Except Fault Disk :=
  if OVINDEXMAX ≤ i then .error .outside
  else .ok (update disk ov (.index (disk ov).ovindexhead (update (disk ov).ovindex i ie)))

def Disk.writeData (disk : Disk) (ov : OV) (offset : Nat) (data : List UInt8) : Except Fault Disk :=
  if OV_BLOCKSIZE < offset + data.length then .error .outside
  else .ok (update disk ov (.data fun i =>
    if offset ≤ i then data.getD (i - offset) ((disk ov).octets i) else (disk ov).octets i))

structure Volume where
  state : State
  disk : Disk

structure GROUPENTRY where
  high : Nat
  low : Nat
  count : Int
  baseindex : OV
  curindex : OV
  curindexoffset : Nat
  curhigh : Nat
  curlow : Nat
  curdata : OV
  curoffset : Nat

structure Overview where
  artnum : Nat
  token : TOKEN
  data : List UInt8
  arrived : time_t
  expires : time_t
  deriving DecidableEq

def Volume.occupied (v : Volume) (ov : OV) : Except Fault (Option Volume) :=
  match v.state.getovbuff ov with
  | none => .ok none
  | some (k, ovbuff) =>
    match ovbuff.ovusedblock ov.blocknum with
    | .error fault => .error fault
    | .ok true => .ok (some v)
    | .ok false =>
      match ovbuff.setUsed ov.blocknum true with
      | .error fault => .error fault
      | .ok ovbuff => .ok (some
          { v with state := { v.state with ovbufftab := v.state.ovbufftab.set k ovbuff } })

def Volume.newBlock (v : Volume) : Except Fault (Option OV × Volume) :=
  match v.state.ovblocknew with
  | .error fault => .error fault
  | .ok (ov, state) =>
    .ok (if ov.index = NULLINDEX ∨ state.getovbuff ov = none then none else some ov,
      { v with state := state })

def ovsetcurindexblock (v : Volume) (ge : GROUPENTRY) : Except Fault (Bool × Volume × GROUPENTRY) :=
  match v.newBlock with
  | .error fault => .error fault
  | .ok (none, v) => .ok (false, v, ge)
  | .ok (some ov, v) =>
    let v := { v with disk := v.disk.writeHead ov ⟨ovnull, 0, 0⟩ }
    let fresh := { ge with curindex := ov, curindexoffset := 0, curlow := 0, curhigh := 0 }
    if ge.baseindex.index = NULLINDEX then .ok (true, v, { fresh with baseindex := ov })
    else
      -- the block that was the last one is linked to the new one, and keeps its numbers
      match v.occupied ge.curindex with
      | .error fault => .error fault
      | .ok none => .ok (false, v, ge)
      | .ok (some v) => .ok (true,
          { v with disk := v.disk.writeHead ge.curindex ⟨ov, ge.curlow, ge.curhigh⟩ }, fresh)

def setcurdata (v : Volume) (ge : GROUPENTRY) (len : Nat) :
    Except Fault (Bool × Volume × GROUPENTRY) :=
  if ge.curdata.index ≠ NULLINDEX ∧ v.state.getovbuff ge.curdata = none then .ok (false, v, ge)
  -- what is left of a block that is too short is lost
  else if ge.curdata.index = NULLINDEX ∨ (OV_BLOCKSIZE : Int) - ge.curoffset < len then
    match v.newBlock with
    | .error fault => .error fault
    | .ok (none, v) => .ok (false, v, ge)
    | .ok (some ov, v) => .ok (true, v, { ge with curdata := ov, curoffset := 0 })
  else .ok (true, v, ge)

def lowered (low artnum : Nat) : Nat := if low ≤ 0 ∨ artnum < low then artnum else low

def raised (high artnum : Nat) : Nat := if high ≤ 0 ∨ high < artnum then artnum else high

def Disk.writeIndex (disk : Disk) (ge : GROUPENTRY) (ie : OVINDEX) : Except Fault Disk :=
  match disk.writeEntry ge.curindex ge.curindexoffset ie with
  | .error fault => .error fault
  | .ok disk =>
    .ok <|
      if ge.curlow ≤ 0 ∨ ie.artnum < ge.curlow ∨ ge.curhigh ≤ 0 ∨ ge.curhigh < ie.artnum then
        disk.writeHead ge.curindex ⟨ovnull, lowered ge.curlow ie.artnum,
          raised ge.curhigh ie.artnum⟩
      else disk

def addIndex (v : Volume) (ge : GROUPENTRY) (ie : OVINDEX) :
    Except Fault (Bool × Volume × GROUPENTRY) :=
  match v.occupied ge.curindex with
  | .error fault => .error fault
  | .ok none => .ok (false, v, ge)
  | .ok (some v) =>
    match v.disk.writeIndex ge ie with
    | .error fault => .error fault
    | .ok disk =>
      .ok (true, { v with disk := disk },
        { ge with
          curlow := lowered ge.curlow ie.artnum
          curhigh := raised ge.curhigh ie.artnum
          low := lowered ge.low ie.artnum
          high := raised ge.high ie.artnum
          curindexoffset := ge.curindexoffset + 1
          curoffset := ge.curoffset + ie.len
          count := Int.bmod (ge.count + 1) (2 ^ 32) })

def ovaddrec (v : Volume) (ge : GROUPENTRY) (o : Overview) :
    Except Fault (Bool × Volume × GROUPENTRY) :=
  if OV_BLOCKSIZE < o.data.length then .ok (false, v, ge)
  else
    match setcurdata v ge o.data.length with
    | .error fault => .error fault
    | .ok (false, v, ge) => .ok (false, v, ge)
    | .ok (true, v, ge) =>
      match v.occupied ge.curdata with
      | .error fault => .error fault
      | .ok none => .ok (false, v, ge)
      | .ok (some v) =>
        -- the data is written first, and counts only once its entry is in the index
        match v.disk.writeData ge.curdata ge.curoffset o.data with
        | .error fault => .error fault
        | .ok disk =>
          let v := { v with disk := disk }
          let ie : OVINDEX :=
            ⟨o.artnum, ge.curdata.blocknum, ge.curdata.index, o.token, ge.curoffset, o.data.length,
              o.arrived, o.expires⟩
          if ge.baseindex.index = NULLINDEX ∨ ge.curindexoffset = OVINDEXMAX then
            match ovsetcurindexblock v ge with
            | .error fault => .error fault
            | .ok (false, v, ge) => .ok (false, v, ge)
            | .ok (true, v, ge) => addIndex v ge ie
          else addIndex v ge ie

def INDEXcompare (oi1 oi2 : OVINDEX) : Int := Int.bmod ((oi1.artnum : Int) - oi2.artnum) (2 ^ 32)

def collect (v : Volume) (ge : GROUPENTRY) :
    Nat → OV → Except Fault (Option (List OV × List OVINDEX))
  | 0, _ => .error .endless
  | turns + 1, ov =>
    if ov.index = NULLINDEX then .ok (some ([], []))
    else if v.state.getovbuff ov = none then .ok none
    else
      let limit :=
        if ov.index = ge.curindex.index ∧ ov.blocknum = ge.curindex.blocknum then ge.curindexoffset
        else OVINDEXMAX
      match collect v ge turns (v.disk ov).ovindexhead.next with
      | .error fault => .error fault
      | .ok none => .ok none
      | .ok (some (giblist, gib)) =>
          .ok (some (giblist ++ [ov], (List.range limit).map (v.disk ov).ovindex ++ gib))

def removeDuplicates : List OVINDEX → List OVINDEX
  | ie :: next :: rest => (if ie.artnum = next.artnum then { ie with artnum := 0 } else ie) ::
      removeDuplicates (next :: rest)
  | gib => gib

structure Mapped where
  Gib : List OVINDEX
  Giblist : List OV
  groupdatablock : List OV

def groupdatablocks (state : State) (low high : Nat) (gib : List OVINDEX) : List OV :=
  gib.foldl (fun gdbs ie =>
    if ie.artnum = 0 ∨ ie.artnum < low ∨ high < ie.artnum then gdbs
    else if ie.datablk ∈ gdbs then gdbs
    else if state.getovbuff ie.datablk = none then gdbs
    else ie.datablk :: gdbs) []

def ovgroupmmap (sorter : Sorter INDEXcompare) (turns : Nat) (v : Volume) (ge : GROUPENTRY)
    (low high : Nat) (needov : Bool) :
    Except Fault (Option Mapped) :=
  if high < low then .ok (some ⟨[], [], []⟩)
  else if ge.count = 0 then .ok (some ⟨[], [], []⟩)
  else
    match collect v ge turns ge.baseindex with
    | .error fault => .error fault
    | .ok none => .ok none
    | .ok (some (giblist, gib)) =>
      let gib := removeDuplicates (sorter.qsort gib)
      .ok (some ⟨gib, giblist, if needov then groupdatablocks v.state low high gib else []⟩)

structure Found where
  artnum : Nat
  data : Nat → UInt8
  len : Nat
  token : TOKEN
  arrived : time_t
  expires : time_t

def Found.overview (found : Found) : Overview :=
  ⟨found.artnum, found.token, (List.range found.len).map found.data, found.arrived, found.expires⟩

structure OVSEARCH where
  lo : Nat
  hi : Nat
  cur : List OVINDEX
  needov : Bool
  groupdatablock : List OV

def OVSEARCH.skips (search : OVSEARCH) (ie : OVINDEX) : Bool :=
    ie.artnum = 0 ∨ ie.artnum < search.lo

def OVSEARCH.deliver (disk : Disk) (search : OVSEARCH) (ie : OVINDEX) (found : Found) : Bool × Found :=
  if search.needov then
    if ie.index = NULLINDEX then (true, { found with len := 0, artnum := ie.artnum, token := ie.token })
    else
      let found := { found with artnum := ie.artnum, len := ie.len, arrived := ie.arrived, expires := ie.expires }
      if ie.datablk ∈ search.groupdatablock then
        (true, { found with
          data := fun i => (disk ie.datablk).octets (ie.offset + i), token := ie.token })
      -- the token is that of the entry before
      else (true, { found with len := 0 })
  else if ie.index = NULLINDEX then (false, found)
  else (true, { found with token := ie.token })

def OVSEARCH.ovsearch (disk : Disk) (search : OVSEARCH) (found : Found) : Bool × Found × OVSEARCH :=
  match search.cur.dropWhile search.skips with
  | [] => (false, found, { search with cur := [] })
  | ie :: rest =>
    if search.hi < ie.artnum then (false, found, { search with cur := ie :: rest })
    else
      let (delivered, found) := search.deliver disk ie found
      (delivered, found, { search with cur := rest })

def OVSEARCH.delivered (disk : Disk) : Nat → OVSEARCH → Found → List Found
  | 0, _, _ => []
  | turns + 1, search, found =>
    match search.ovsearch disk found with
    | (false, _, _) => []
    | (true, found, search) => found :: search.delivered disk turns found

def retrieve (sorter : Sorter INDEXcompare) (turns : Nat) (v : Volume) (ge : GROUPENTRY)
    (low high : Nat) (before : Found) :
    Except Fault (Option (List Found)) :=
  match ovgroupmmap sorter turns v ge low high true with
  | .error fault => .error fault
  | .ok none => .ok none
  | .ok (some mapped) =>
    .ok (some <| OVSEARCH.delivered v.disk mapped.Gib.length ⟨low, high, mapped.Gib, true,
      mapped.groupdatablock⟩ before)

/-- The groups with what each of them was given. -/
structure Store where
  volume : Volume
  GROUPentries : Nat → GROUPENTRY
  added : Nat → List Overview

def Store.step (store : Store) (call : Nat × Overview) : Except Fault Store :=
  match ovaddrec store.volume (store.GROUPentries call.1) call.2 with
  | .error fault => .error fault
  | .ok (added, volume, ge) =>
    .ok
      { volume := volume
        GROUPentries := update store.GROUPentries call.1 ge
        added := if added then update store.added call.1 (store.added call.1 ++ [call.2])
          else store.added }

structure GROUPENTRY.Empty (ge : GROUPENTRY) : Prop where
  count : ge.count = 0
  baseindex : ge.baseindex = ovnull
  curindex : ge.curindex = ovnull
  curdata : ge.curdata = ovnull
  curindexoffset : ge.curindexoffset = 0
  curoffset : ge.curoffset = 0

end Inn.Buffindexed
