import Inn.Foundation.Bitmap

/-!
# The blocks of buffindexed

Each overview buffer has a bit for each of its blocks, the number of the blocks in use, and a block
that is free, or as many as there are when none is. The buffers take turns in giving out blocks.
-/

namespace Inn.Buffindexed

open Foundation.Bitmap

abbrev ULONG := BitVec 64

def onarray (j : Nat) : ULONG := mask 64 j

def offarray (j : Nat) : ULONG := ~~~onarray j

structure OV where
  blocknum : Nat
  index : Int
  deriving DecidableEq

def NULLINDEX : Int := -1

def ovnull : OV := ⟨0, NULLINDEX⟩

/-- A buffer with a bit for each of its blocks. -/
structure OVBUFF where
  index : Nat
  totalblk : Nat
  bitfield : Nat → ULONG
  freeblk : Nat
  usedblk : Nat

inductive Fault
  /-- A block number that is negative as an `int` leads out of the bitfield. -/
  | outside
  | endless
  deriving DecidableEq

def OVBUFF.ovusedblock (ovbuff : OVBUFF) (blocknum : Nat) : Except Fault Bool :=
  if 2 ^ 31 ≤ blocknum then .error .outside
  else .ok (ovbuff.bitfield (blocknum / 64) &&& onarray (blocknum % 64) ≠ 0#64)

def OVBUFF.setUsed (ovbuff : OVBUFF) (blocknum : Nat) (setbitvalue : Bool) : Except Fault OVBUFF :=
  if 2 ^ 31 ≤ blocknum then .error .outside
  else
    let bitlong := ovbuff.bitfield (blocknum / 64)
    let bitlong :=
      if setbitvalue then bitlong ||| onarray (blocknum % 64) else bitlong &&& offarray
      (blocknum % 64)
    .ok { ovbuff with bitfield := Function.update ovbuff.bitfield (blocknum / 64) bitlong }

def OVBUFF.ovnextblock (ovbuff : OVBUFF) : OVBUFF :=
  let left := ovbuff.totalblk % 64
  let last := ovbuff.totalblk / 64 + if left ≠ 0 then 1 else 0
  match (List.range last).find? fun i => ovbuff.bitfield i ≠ BitVec.allOnes 64 with
  | none => { ovbuff with freeblk := ovbuff.totalblk }
  | some i =>
    let lastbit := if 1 ≤ i ∧ last - 1 = i ∧ left ≠ 0 then left else 64
    match (List.range lastbit).find? fun j => ovbuff.bitfield i &&& onarray j = 0#64 with
    | none => { ovbuff with freeblk := ovbuff.totalblk }
    | some j => { ovbuff with freeblk := i * 64 + j }

def OVBUFF.full (ovbuff : OVBUFF) : Bool :=
    ovbuff.totalblk = ovbuff.usedblk ∨ ovbuff.freeblk = ovbuff.totalblk

def OVBUFF.look (ovbuff : OVBUFF) : OVBUFF :=
  if ovbuff.totalblk ≠ ovbuff.usedblk ∧ ovbuff.freeblk = ovbuff.totalblk then
    ovbuff.ovnextblock else ovbuff

def OVBUFF.occupy (ovbuff : OVBUFF) : Except Fault (Bool × OVBUFF) :=
  match ovbuff.ovusedblock ovbuff.freeblk with
  | .error fault => .error fault
  | .ok used =>
    match ovbuff.setUsed ovbuff.freeblk true with
    | .error fault => .error fault
    | .ok ovbuff =>
      let ovbuff := ovbuff.ovnextblock
      .ok (!used, { ovbuff with usedblk := (ovbuff.usedblk + 1) % 2 ^ 32 })

structure State where
  ovbufftab : List OVBUFF
  ovbuffnext : Nat

def State.findSpace (s : State) : Option (Nat × OVBUFF) :=
  let first := ((List.range s.ovbufftab.length).drop s.ovbuffnext).findSome? fun k =>
    s.ovbufftab[k]?.bind fun ovbuff => if ovbuff.look.full then none else some (k, ovbuff.look)
  match first with
  | some found => some found
  | none =>
    ((List.range s.ovbufftab.length).take s.ovbuffnext).findSome? fun k =>
      s.ovbufftab[k]?.bind fun ovbuff => if ovbuff.full then none else some (k, ovbuff)

def toShort (n : Nat) : Int := Int.bmod n (2 ^ 16)

def State.takeBlock : Nat → State → Except Fault (OV × State)
  | 0, _ => .error .endless
  | turns + 1, s =>
    match s.findSpace with
    | none => .ok (ovnull, s)
    | some (k, ovbuff) =>
      match ovbuff.occupy with
      | .error fault => .error fault
      | .ok (done, after) =>
        let s := ⟨s.ovbufftab.set k after, if k + 1 < s.ovbufftab.length then k + 1 else 0⟩
        if done then .ok (⟨ovbuff.freeblk, toShort ovbuff.index⟩, s) else s.takeBlock turns

def State.ovblocknew (s : State) : Except Fault (OV × State) := s.takeBlock (s.ovbufftab.length + 1)

def State.getovbuff (s : State) (ov : OV) : Option (Nat × OVBUFF) :=
  (List.range s.ovbufftab.length).findSome? fun k =>
    s.ovbufftab[k]?.bind fun ovbuff => if (ovbuff.index : Int) = ov.index % 2 ^ 32 then some (k,
      ovbuff) else none

def State.ovblockfree (s : State) (ov : OV) : Except Fault State :=
  if ov.index = NULLINDEX then .ok s
  else
    match s.getovbuff ov with
    | none => .ok s
    | some (k, ovbuff) =>
      match ovbuff.setUsed ov.blocknum false with
      | .error fault => .error fault
      | .ok ovbuff =>
        let ovbuff :=
          { ovbuff with
            freeblk := if ovbuff.freeblk = ovbuff.totalblk then ov.blocknum else ovbuff.freeblk
            usedblk := (ovbuff.usedblk + (2 ^ 32 - 1)) % 2 ^ 32 }
        .ok { s with ovbufftab := s.ovbufftab.set k ovbuff }

/-- The buffers, and the blocks that are given out. -/
structure Heap where
  state : State
  allocated : List OV

inductive Op
  | ovblocknew
  | ovblockfree (ov : OV)

def Heap.step (heap : Heap) : Op → Except Fault Heap
  | .ovblocknew =>
    match heap.state.ovblocknew with
    | .error fault => .error fault
    | .ok (ov, state) => .ok ⟨state,
        if ov.index = NULLINDEX then heap.allocated else ov :: heap.allocated⟩
  | .ovblockfree ov =>
    if ov ∈ heap.allocated then
      match heap.state.ovblockfree ov with
      | .error fault => .error fault
      | .ok state => .ok ⟨state, heap.allocated.erase ov⟩
    else .ok heap

structure Initialized (ovbuff : OVBUFF) : Prop where
  small : ovbuff.totalblk < 2 ^ 32
  bitfield : ovbuff.bitfield = fun _ => 0#64
  freeblk : ovbuff.freeblk = 0
  usedblk : ovbuff.usedblk = 0

structure Start (heap : Heap) : Prop where
  buffers : ∀ ovbuff ∈ heap.state.ovbufftab, Initialized ovbuff
  distinct : (heap.state.ovbufftab.map OVBUFF.index).Nodup
  next : heap.state.ovbuffnext = 0
  allocated : heap.allocated = []

end Inn.Buffindexed
