import Inn.Foundation.Runs
import Inn.Innfeed.Buffers

/-!
# Reading into and writing from buffers

An end point reads into the free parts of several buffers, and writes what several buffers hold, in
as many calls of `readv` and `writev` as it takes. Both keep the buffer they have come to and a
place in it.
-/

namespace Inn.Innfeed.Transfers

open Buffers Foundation.Runs
open List (length_append length_take length_drop take_nil append_nil map_cons take_append_drop
    length_eq_zero_iff take_succ_cons append_assoc drop_drop)

def IOV_MAX : Nat := 1024

inductive IoStatus
  | IoIncomplete
  | IoProgress
  | IoDone
  | IoEOF
  | IoFailed
  deriving DecidableEq

inductive Errno
  | EINTR
  | EAGAIN
  | other
  deriving DecidableEq

inductive Stop
  | died
  | outside
  deriving DecidableEq

/-- What an endpoint has to read, and how far it has come. -/
structure Input where
  inBuffer : List BufferS
  inBufferIdx : Nat
  inIndex : Nat
  inMinLen : Nat
  inAmtRead : Nat

/-- What an endpoint has to write, and how far it has come. -/
structure Output where
  outBuffer : List BufferS
  outBufferIdx : Nat
  outIndex : Nat
  outSize : Nat
  outAmtWritten : Nat

structure iovec where
  buffer : Nat
  offset : Nat
  iovLen : Nat

def free (b : BufferS) : Nat := b.memSize - b.dataSize

def store (b : BufferS) (offset : Nat) (data : Octets) : Except Stop BufferS :=
  if hroom : offset + data.length ≤ b.mem.length then
    .ok { b with
      mem := b.mem.take offset ++ data ++ b.mem.drop (offset + data.length)
      owned := by
        rw [← b.owned, length_append, length_append, length_take, length_drop]
        omega }
  else .error .outside

def bufferSetDataSize (b : BufferS) (size : Nat) : Except Stop BufferS :=
  if hfits : size ≤ b.memSize then .ok { b with dataSize := size, fits := hfits } else .error .died

def bufferIncrDataSize (b : BufferS) (size : Nat) : Except Stop BufferS :=
    bufferSetDataSize b (b.dataSize + size)

def change (buffers : List BufferS) (i : Nat) (f : BufferS → Except Stop BufferS) :
    Except Stop (List BufferS) := do
  match buffers[i]? with
  | none => throw .outside
  | some b => return buffers.set i (← f b)

def minus (a b : Nat) : Nat := if b ≤ a then a - b else 2 ^ 64 + a - b

def ofInt (total : Nat) : Nat :=
  if total % 2 ^ 32 < 2 ^ 31 then total % 2 ^ 32 else 2 ^ 64 - 2 ^ 32 + total % 2 ^ 32

def prepareRead (buffers : List BufferS) (minlen : Int) : Input where
  inBuffer := buffers
  inBufferIdx := 0
  inIndex := 0
  inMinLen := if 0 < minlen then minlen.toNat else ofInt (buffers.map free).sum
  inAmtRead := 0

def Input.bCount (ep : Input) : Nat := min (ep.inBuffer.length - ep.inBufferIdx) IOV_MAX

def Input.entry (ep : Input) (idx : Nat) : iovec :=
  if ep.inBufferIdx + 1 ≤ idx then
    match ep.inBuffer[idx]? with
    | some b => ⟨idx, 0, free b⟩
    | none => ⟨0, 0, 0⟩
  else ⟨0, 0, 0⟩

def Input.first (ep : Input) (b : BufferS) : iovec :=
    ⟨ep.inBufferIdx, b.dataSize + ep.inIndex, minus (free b) ep.inIndex⟩

def Input.vp (ep : Input) (b : BufferS) : List iovec :=
  ep.first b :: (List.range' 1 (ep.bCount - 1)).map ep.entry

def scatter : List iovec → Octets → List BufferS → Except Stop (List BufferS)
  | [], _, buffers => .ok buffers
  | v :: vp, data, buffers =>
    if data.take v.iovLen = [] then scatter vp data buffers
    else do
      let buffers ← change buffers v.buffer fun b => store b v.offset (data.take v.iovLen)
      scatter vp (data.drop v.iovLen) buffers

def account (currIdx : Nat) : Nat → Nat → Nat → Input → Except Stop Input
  | 0, _, readAmt, ep => if readAmt = 0 then .ok ep else .error .died
  | fuel + 1, idx, readAmt, ep =>
    if readAmt = 0 then .ok ep
    else
      match ep.inBuffer[currIdx + idx]? with
      | none => .error .outside
      | some b =>
        if free b ≤ readAmt then do
          let inBuffer ← change ep.inBuffer (currIdx + idx) (bufferSetDataSize · b.memSize)
          account currIdx fuel (idx + 1) (minus readAmt b.memSize)
            { ep with inBuffer, inBufferIdx := ep.inBufferIdx + 1 }
        else do
          let inBuffer ← change ep.inBuffer (currIdx + idx) fun b => do
            let b' ← bufferIncrDataSize b readAmt
            store b' (b.dataSize + readAmt) (List.replicate (free b - readAmt) 0)
          return { ep with inBuffer, inIndex := readAmt }

def accountFirst (ep : Input) (iovLen readAmt : Nat) : Except Stop (Input × Nat) :=
  if iovLen ≤ readAmt then do
    let inBuffer ← change ep.inBuffer ep.inBufferIdx (bufferIncrDataSize · iovLen)
    return ({ ep with inBuffer, inBufferIdx := ep.inBufferIdx + 1 }, readAmt - iovLen)
  else do
    let inBuffer ← change ep.inBuffer ep.inBufferIdx (bufferIncrDataSize · readAmt)
    return ({ ep with inBuffer, inIndex := ep.inIndex + readAmt }, 0)

def doRead (ep : Input) (readv : Except Errno Octets) : Except Stop (IoStatus × Input) :=
  match ep.inBuffer[ep.inBufferIdx]? with
  | none => .ok (.IoDone, ep)
  | some b =>
    match readv with
    | .error .other => .ok (.IoFailed, ep)
    | .error _ => .ok (.IoIncomplete, ep)
    | .ok [] => .ok (.IoEOF, ep)
    | .ok data => do
        let inBuffer ← scatter (ep.vp b) data ep.inBuffer
        let currIdx := ep.inBufferIdx
        let ep' := { ep with inBuffer, inAmtRead := ep.inAmtRead + data.length }
        let (ep', readAmt) ← accountFirst ep' (ep.first b).iovLen data.length
        let ep' ← account currIdx (ep.bCount - 1) 1 readAmt ep'
        if ep'.inMinLen ≤ ep'.inAmtRead then return (.IoDone, { ep' with inIndex := 0 })
        else return (.IoIncomplete, ep')

def prepareWrite (buffers : List BufferS) : Output where
  outBuffer := buffers
  outBufferIdx := 0
  outIndex := 0
  outSize := ofInt (buffers.map (·.dataSize)).sum
  outAmtWritten := 0

def Output.vp (ep : Output) : List Octets :=
  match (ep.outBuffer.drop ep.outBufferIdx).take IOV_MAX with
  | [] => []
  | b :: rest => b.contents.drop ep.outIndex :: rest.map BufferS.contents

def written : List Octets → Nat → Output → Except Stop Output
  | [], writeAmt, ep => if writeAmt = 0 then .ok ep else .error .outside
  | v :: vp, writeAmt, ep =>
    if writeAmt = 0 then .ok ep
    else if v.length ≤ writeAmt then
      written vp (writeAmt - v.length) { ep with outBufferIdx := ep.outBufferIdx + 1, outIndex := 0 }
    else .ok { ep with outIndex := ep.outIndex + writeAmt }

def doWrite (ep : Output) (writev : Except Errno Nat) : Except Stop (IoStatus × Output × Octets) :=
  if ep.vp = [] then .ok (.IoDone, ep, [])
  else
    match writev with
    | .error .other => .ok (.IoFailed, ep, [])
    | .error _ => .ok (.IoIncomplete, ep, [])
    | .ok 0 => .ok (.IoIncomplete, ep, [])
    | .ok writeAmt => do
        let ep' ← written ep.vp writeAmt { ep with outAmtWritten := ep.outAmtWritten + writeAmt }
        return (if ep'.outAmtWritten = ep'.outSize then .IoDone else .IoProgress, ep',
          ep.vp.flatten.take writeAmt)

section Specification

def total (buffers : List BufferS) : Nat := (buffers.map free).sum

def pour : List BufferS → Octets → List Octets
  | [], _ => []
  | b :: rest, data => (b.contents ++ data.take (free b)) :: pour rest (data.drop (free b))

/-- The octets received are poured into the buffers, in order. -/
structure Filled (old : List BufferS) (received : Octets) (buffers : List BufferS) : Prop where
  contents : buffers.map BufferS.contents = pour old received
  dataSize : buffers.map (·.dataSize) = (pour old received).map List.length
  room : received.length ≤ total old

/-- As much has come as was asked for. -/
def Arrived (old : List BufferS) (minlen : Int) (received : Octets) : Prop :=
  if 0 < minlen then minlen ≤ received.length else received.length = total old

structure Session where
  input : Input
  output : Output
  old : List BufferS
  minlen : Int
  received : Octets
  readStatus : IoStatus
  sent : Octets
  writeStatus : IoStatus

def prepare (inBuffer : List BufferS) (minlen : Int) (outBuffer : List BufferS) : Session where
  input := prepareRead inBuffer minlen
  output := prepareWrite outBuffer
  old := inBuffer
  minlen := minlen
  received := []
  readStatus := .IoIncomplete
  sent := []
  writeStatus := .IoIncomplete

inductive Ready
  | read (readv : Except Errno Octets)
  | write (writev : Except Errno Nat)

def taken (ep : Input) : Except Errno Octets → Octets
  | .ok data => if ep.inBufferIdx < ep.inBuffer.length then data else []
  | .error _ => []

def step (s : Session) : Ready → Except Stop Session
  | .read readv =>
    if s.readStatus = .IoIncomplete then do
      let (readStatus, input) ← doRead s.input readv
      return { s with input, readStatus, received := s.received ++ taken s.input readv }
    else .ok s
  | .write writev =>
    if s.writeStatus = .IoIncomplete ∨ s.writeStatus = .IoProgress then do
      let (writeStatus, output, octets) ← doWrite s.output writev
      return { s with output, writeStatus, sent := s.sent ++ octets }
    else .ok s

def Session.contents (s : Session) : Octets := s.output.outBuffer.flatMap BufferS.contents

namespace Session

variable (s : Session)

/-- What a read that is done has done. -/
structure Reads : Prop where
  filled : s.readStatus = .IoDone → Filled s.old s.received s.input.inBuffer
  done : s.readStatus = .IoDone ↔ Arrived s.old s.minlen s.received

/-- What is sent comes first of the contents, and all of it in the end. -/
structure Writes : Prop where
  sent : s.sent <+: s.contents
  complete : s.writeStatus = .IoDone → s.sent = s.contents
  done : s.contents ≠ [] → s.sent = s.contents → s.writeStatus = .IoDone

def Right : Ready → Prop
  | .read readv => ∃ s', step s (.read readv) = .ok s' ∧ s'.Reads
  | .write writev => ∃ s', step s (.write writev) = .ok s' ∧ s'.Writes

end Session

def Empty : List BufferS → Nat → Prop
  | [], _ => True
  | b :: rest, n => n = 0 ∨ b.dataSize = 0 ∧ Empty rest (n - free b)

def EndsAtEnd : List BufferS → Nat → Prop
  | [], n => n = 0
  | b :: rest, n => n = 0 ∨ free b ≤ n ∧ EndsAtEnd rest (n - free b)

def Feasible (old : List BufferS) (minlen : Int) : Prop :=
  old = [] ∧ minlen ≤ 0 ∨ 0 < total old ∧ minlen ≤ total old ∧ (minlen ≤ 0 → total old < 2 ^ 31)

def Arrives (ep : Input) (data : Octets) : Prop :=
  match ep.inBuffer.drop ep.inBufferIdx with
  | [] => True
  | b :: rest => data.length ≤ ((ep.vp b).map iovec.iovLen).sum ∧
      Empty rest (data.length - free b) ∧
      (ep.inMinLen ≤ ep.inAmtRead + data.length ∨ EndsAtEnd (b :: rest) data.length)

def Session.Possible (s : Session) : Ready → Prop
  | .read readv => ∀ data b, readv = .ok data → s.input.inBuffer[s.input.inBufferIdx]? = some b →
      data.length ≤ ((s.input.vp b).map iovec.iovLen).sum
  | .write writev => ∀ n, writev = .ok n → n ≤ s.output.vp.flatten.length

def Session.Condition (s : Session) : Ready → Prop
  | .read readv => Feasible s.old s.minlen ∧ ∀ data, readv = .ok data →
      s.readStatus = .IoIncomplete → Arrives s.input data
  | .write writev => s.contents.length < 2 ^ 31 ∧ ∀ n, writev = .ok n →
      n ≤ s.output.vp.flatten.length

end Specification

section Buffers

variable {b : BufferS} {rest : List BufferS} {data : Octets}

theorem contents_length (b : BufferS) : b.contents.length = b.dataSize :=
  List.length_take_of_le (dataSize_le_length b)

theorem memSize_le_length (b : BufferS) : b.memSize ≤ b.mem.length := b.owned ▸ Nat.le_add_right ..

theorem change_ok {front : List BufferS} {f : BufferS → Except Stop BufferS} {b' : BufferS}
    (hf : f b = .ok b') :
    change (front ++ b :: rest) front.length f = .ok (front ++ b' :: rest) := by
  rw [change, List.getElem?_append_right (Nat.le_refl _), Nat.sub_self, List.getElem?_cons_zero]
  simp only [hf, List.set_append_right _ _ (Nat.le_refl _), Nat.sub_self, List.set_cons_zero]
  rfl

theorem store_ok {offset : Nat} (hroom : offset + data.length ≤ b.mem.length) :
    ∃ b', store b offset data = .ok b' ∧ b'.memSize = b.memSize ∧ b'.dataSize = b.dataSize ∧
      b'.mem = b.mem.take offset ++ data ++ b.mem.drop (offset + data.length) :=
  ⟨_, dif_pos hroom, rfl, rfl, rfl⟩

theorem setDataSize_ok {size : Nat} (hfits : size ≤ b.memSize) :
    ∃ b', bufferSetDataSize b size = .ok b' ∧ b'.memSize = b.memSize ∧ b'.dataSize = size ∧
      b'.mem = b.mem :=
  ⟨_, dif_pos hfits, rfl, rfl, rfl⟩

theorem pour_nil (buffers : List BufferS) : pour buffers [] = buffers.map BufferS.contents := by
  induction buffers with
  | nil => rfl
  | cons b rest ih => rw [pour, take_nil, List.drop_nil, append_nil, ih, map_cons]

theorem total_cons (b : BufferS) (rest : List BufferS) :
    total (b :: rest) = free b + total rest := rfl

theorem total_append (front back : List BufferS) :
    total (front ++ back) = total front + total back := by
  rw [total, List.map_append, List.sum_append]
  rfl

theorem total_take_le (buffers : List BufferS) (n : Nat) :
    total (buffers.take n) ≤ total buffers := by
  have hsplit := total_append (buffers.take n) (buffers.drop n)
  rw [take_append_drop] at hsplit
  omega

theorem length_pour (buffers : List BufferS) (data : Octets) :
    (pour buffers data).length = buffers.length := by
  induction buffers generalizing data with
  | nil => rfl
  | cons b rest ih => rw [pour, List.length_cons, ih, List.length_cons]

theorem pour_append {front : List BufferS} {received : Octets}
    (hfull : received.length = total front) (back : List BufferS) (data : Octets) :
    pour (front ++ back) (received ++ data) = pour front received ++ pour back data := by
  induction front generalizing received with
  | nil =>
    obtain rfl := length_eq_zero_iff.mp hfull
    rfl
  | cons b front ih =>
    rw [total_cons] at hfull
    have hle : free b ≤ received.length := by omega
    rw [List.cons_append, pour, pour, List.take_append_of_le_length hle,
      List.drop_append_of_le_length hle,
      ih (by rw [length_drop]; omega), List.cons_append]

theorem take_pour (buffers : List BufferS) (received : Octets) (n : Nat) :
    (pour buffers received).take n = pour (buffers.take n) received := by
  induction buffers generalizing received n with
  | nil => rw [take_nil, pour, take_nil]
  | cons b rest ih =>
    cases n with
    | zero => rfl
    | succ n => rw [take_succ_cons, pour, pour, take_succ_cons, ih]

end Buffers

section Behind

variable {rest rest' : List BufferS} {data : Octets}

inductive Stored : List BufferS → Octets → List BufferS → Prop
  | done (rest : List BufferS) : Stored rest [] rest
  | next {b b' : BufferS} {rest rest' : List BufferS} {data : Octets} :
      data ≠ [] → b.dataSize = 0 → b'.memSize = b.memSize → b'.dataSize = 0 →
      data.take (free b) <+: b'.mem → Stored rest (data.drop (free b)) rest' →
        Stored (b :: rest) data (b' :: rest')

theorem scatter_nil (vp : List iovec) (buffers : List BufferS) :
    scatter vp [] buffers = .ok buffers := by
  induction vp with
  | nil => rfl
  | cons v vp ih => rw [scatter, if_pos take_nil, ih]

theorem free_le_length (b : BufferS) : free b ≤ b.mem.length :=
  Nat.le_trans (Nat.sub_le ..) (memSize_le_length b)

theorem scatter_rest (m : Nat) (front : List BufferS) (entry : Nat → iovec)
    (hentry : ∀ j b, rest[j]? = some b → entry (front.length + j) = ⟨front.length + j, 0, free b⟩)
    (hroom : data.length ≤ total (rest.take m)) (hempty : Empty rest data.length) :
    ∃ rest', scatter ((List.range' front.length m).map entry) data (front ++ rest) =
      .ok (front ++ rest') ∧
      Stored rest data rest' := by
  induction m generalizing front rest data with
  | zero =>
    obtain rfl := length_eq_zero_iff.mp (Nat.le_zero.mp hroom)
    exact ⟨rest, rfl, .done rest⟩
  | succ m ih =>
    by_cases hdata : data = []
    · subst hdata
      exact ⟨rest, scatter_nil .., .done rest⟩
    cases rest with
    | nil => exact absurd (length_eq_zero_iff.mp (Nat.le_zero.mp hroom)) hdata
    | cons b rest =>
      obtain ⟨hsize, hempty⟩ := hempty.resolve_left (mt length_eq_zero_iff.mp hdata)
      rw [take_succ_cons, total_cons] at hroom
      have hnext (b' : BufferS) := @ih rest (data.drop (free b)) (front ++ [b']) (fun j c hj => by
        have := hentry (j + 1) c hj
        rw [length_append, List.length_singleton, Nat.add_assoc, Nat.add_comm 1 j]
        exact this) (by rw [length_drop]; omega) (by rwa [length_drop])
      have hfirst := hentry 0 b rfl
      rw [Nat.add_zero] at hfirst
      rw [List.range'_succ, map_cons, hfirst, scatter]
      by_cases hpiece : data.take (free b) = []
      · obtain ⟨rest', hscatter, hstored⟩ := hnext b
        rw [length_append, append_assoc, append_assoc] at hscatter
        have hall : data.drop (free b) = data := by
          have hsplit := take_append_drop (free b) data
          rwa [hpiece] at hsplit
        rw [if_pos hpiece]
        refine ⟨b :: rest', hall ▸ hscatter, .next hdata hsize rfl hsize ?_ hstored⟩
        rw [hpiece]
        exact List.nil_prefix
      · have hlength : 0 + (data.take (free b)).length ≤ b.mem.length := by
          rw [Nat.zero_add, length_take]
          exact Nat.le_trans (Nat.min_le_left ..) (free_le_length b)
        obtain ⟨b', hstore, hmemSize, hdataSize, hmem⟩ := store_ok hlength
        obtain ⟨rest', hscatter, hstored⟩ := hnext b'
        rw [length_append, append_assoc, append_assoc] at hscatter
        rw [if_neg hpiece, change_ok hstore]
        refine ⟨b' :: rest', hscatter,
          .next hdata hsize hmemSize (hdataSize.trans hsize) ?_ hstored⟩
        rw [hmem, List.take_zero, List.nil_append]
        exact List.prefix_append ..

theorem Stored.eq_of_nil (hstored : Stored rest [] rest') : rest' = rest := by
  cases hstored with
  | done => rfl
  | next hne => exact absurd rfl hne

structure Accounted (front rest : List BufferS) (data : Octets) (ep ep' : Input) : Prop where
  minLen : ep'.inMinLen = ep.inMinLen
  amtRead : ep'.inAmtRead = ep.inAmtRead
  buffers :
    ∃ rest'', ep'.inBuffer = front ++ rest'' ∧ rest''.map BufferS.contents = pour rest data ∧
    (EndsAtEnd rest data.length → ∃ k, ep'.inBufferIdx = ep.inBufferIdx + k ∧
      ep'.inIndex = ep.inIndex ∧
      rest''.drop k = rest.drop k ∧ data.length = total (rest.take k))

theorem account_rest (currIdx idx : Nat) (front : List BufferS) (ep : Input) {fuel m : Nat}
    (hstored : Stored rest data rest')
    (hroom : data.length ≤ total (rest.take m)) (hfuel : m ≤ fuel)
    (hbuffers : ep.inBuffer = front ++ rest') (hfront : front.length = currIdx + idx) :
    ∃ ep', account currIdx fuel idx data.length ep = .ok ep' ∧
      Accounted front rest data ep ep' := by
  induction hstored generalizing front ep idx fuel m with
  | done rest =>
    refine ⟨ep, ?_, rfl, rfl, rest, hbuffers, (pour_nil rest).symm,
      fun _ => ⟨0, rfl, rfl, rfl, rfl⟩⟩
    cases fuel <;> exact if_pos rfl
  | @next b b' rest rest' data hdata hsize hmemSize hdataSize hstart hstored ih =>
    obtain ⟨m, rfl⟩ : ∃ n, m = n + 1 := by
      cases m with
      | zero => exact absurd (length_eq_zero_iff.mp (Nat.le_zero.mp hroom)) hdata
      | succ n => exact ⟨n, rfl⟩
    obtain ⟨fuel, rfl⟩ : ∃ n, fuel = n + 1 := ⟨fuel - 1, by omega⟩
    rw [take_succ_cons, total_cons] at hroom
    have hfree : free b' = b.memSize ∧ free b = b.memSize := by
      rw [free, free, hmemSize, hdataSize, hsize]
      exact ⟨rfl, rfl⟩
    have hold : b.contents = [] := by rw [BufferS.contents, hsize, List.take_zero]
    have hget : ep.inBuffer[currIdx + idx]? = some b' := by
      rw [hbuffers, ← hfront, List.getElem?_append_right (Nat.le_refl _), Nat.sub_self]
      rfl
    rw [account, if_neg (mt length_eq_zero_iff.mp hdata), hget]
    dsimp only
    rw [hbuffers, ← hfront]
    by_cases hfull : free b' ≤ data.length
    · obtain ⟨b'', hset, hmemSize'', hdataSize'', hmem''⟩ := setDataSize_ok (Nat.le_refl b'.memSize)
      have hamt : minus data.length b'.memSize = (data.drop (free b)).length := by
        rw [minus, if_pos (by omega), length_drop, hfree.2, hmemSize]
      obtain ⟨ep', haccount, hminLen, hamtRead, rest'', hbuffers', hcontents, hends⟩ :=
        @ih (idx + 1) (front ++ [b'']) { ep with
          inBuffer := front ++ b'' :: rest', inBufferIdx := ep.inBufferIdx + 1 } fuel m
          (by rw [length_drop]; omega) (by omega) (by rw [append_assoc]; rfl)
          (by rw [length_append, hfront]; rfl)
      rw [if_pos hfull, change_ok hset, hamt]
      refine ⟨ep', haccount, hminLen, hamtRead, b'' :: rest'', ?_, ?_, fun h => ?_⟩
      · rw [hbuffers', append_assoc]
        rfl
      · have hcontents'' : b''.contents = data.take (free b) := by
          rw [BufferS.contents, hmem'', hdataSize'', List.prefix_iff_eq_take.mp hstart, length_take,
            Nat.min_eq_left (by omega), hfree.2, hmemSize]
        rw [map_cons, hcontents, hcontents'', pour, hold, List.nil_append]
      · obtain ⟨k, hidx, hindex, hdrop, hlength⟩ := hends (by
          rw [length_drop]
          exact (h.resolve_left (mt length_eq_zero_iff.mp hdata)).2)
        refine ⟨k + 1, ?_, hindex, hdrop, ?_⟩
        · rw [hidx]
          exact Nat.add_right_comm ..
        · rw [take_succ_cons, total_cons, ← hlength, length_drop]
          omega
    · have hshort : data.length < b.memSize := by omega
      have hfits : b'.dataSize + data.length ≤ b'.memSize := by omega
      obtain ⟨b'', hset, hmemSize'', hdataSize'', hmem''⟩ := setDataSize_ok hfits
      have hroom'' : b'.dataSize + data.length +
          (List.replicate (free b' - data.length) (0 : UInt8)).length ≤
          b''.mem.length := by
        have := memSize_le_length b'
        rw [List.length_replicate, hmem'']
        omega
      obtain ⟨b₃, hstore, -, hdataSize₃, hmem₃⟩ := store_ok hroom''
      have hpiece : data.take (free b) = data := List.take_of_length_le (by omega)
      have hnone : data.drop (free b) = [] := List.drop_of_length_le (by omega)
      rw [hnone] at hstored
      obtain rfl := hstored.eq_of_nil
      have hboth : (do
          let b'' ← bufferIncrDataSize b' data.length
          store b'' (b'.dataSize + data.length) (List.replicate (free b' - data.length) 0)) =
            .ok b₃ := by
        rw [bufferIncrDataSize, hset]
        exact hstore
      have hchange : change (front ++ b' :: rest') front.length (fun b => do
          let b'' ← bufferIncrDataSize b data.length
          store b'' (b.dataSize + data.length) (List.replicate (free b - data.length) 0)) =
            .ok (front ++ b₃ :: rest') := change_ok hboth
      rw [if_neg hfull, hchange]
      refine ⟨_, rfl, rfl, rfl, b₃ :: rest', rfl, ?_, fun h => ?_⟩
      · have hcontents₃ : b₃.contents = data := by
          rw [hpiece] at hstart
          rw [BufferS.contents, hdataSize₃, hdataSize'', hdataSize, Nat.zero_add, hmem₃,
            hmem'', hdataSize,
            Nat.zero_add, append_assoc, List.take_append_of_le_length (Nat.le_of_eq
              (List.length_take_of_le hstart.length_le).symm), List.take_take, Nat.min_self]
          exact (List.prefix_iff_eq_take.mp hstart).symm
        rw [map_cons, hcontents₃, pour, hold, List.nil_append, hpiece, hnone, pour_nil]
      · rcases h with h | h
        · exact absurd (length_eq_zero_iff.mp h) hdata
        · omega

end Behind

section Vector

variable {ep : Input} {front rest : List BufferS} {b : BufferS} {data : Octets}

theorem scatter_append {nulls : List iovec} (hnulls : ∀ v ∈ nulls, v.iovLen = 0) (vp : List iovec)
    (buffers : List BufferS) : scatter (nulls ++ vp) data buffers = scatter vp data buffers := by
  induction nulls with
  | nil => rfl
  | cons v nulls ih =>
    have hlen : v.iovLen = 0 := hnulls v List.mem_cons_self
    rw [List.cons_append, scatter, hlen, if_pos List.take_zero,
      ih fun v hv => hnulls v (List.mem_cons_of_mem _ hv)]

theorem sum_append {nulls : List iovec} (hnulls : ∀ v ∈ nulls, v.iovLen = 0) (vp : List iovec) :
    ((nulls ++ vp).map iovec.iovLen).sum = (vp.map iovec.iovLen).sum := by
  induction nulls with
  | nil => rfl
  | cons v nulls ih =>
    have hlen : v.iovLen = 0 := hnulls v List.mem_cons_self
    rw [List.cons_append, map_cons, List.sum_cons, hlen, Nat.zero_add,
      ih fun v hv => hnulls v (List.mem_cons_of_mem _ hv)]

theorem entries_eq (hbuffers : ep.inBuffer = front ++ b :: rest)
    (hidx : ep.inBufferIdx = front.length) :
    ∃ nulls m, (List.range' 1 (ep.bCount - 1)).map ep.entry =
        nulls ++ (List.range' (front.length + 1) m).map ep.entry ∧
      (∀ v ∈ nulls, v.iovLen = 0) ∧ m ≤ ep.bCount - 1 ∧ m ≤ rest.length := by
  have hnull {idx : Nat} (h : idx ≤ front.length) : (ep.entry idx).iovLen = 0 := by
    rw [Input.entry, hidx, if_neg (by omega)]
  have hcount : ep.bCount ≤ rest.length + 1 := by
    rw [Input.bCount, hbuffers, hidx, length_append, List.length_cons]
    omega
  rcases Nat.le_total (ep.bCount - 1) front.length with hle | hle
  · refine ⟨_, 0, (append_nil _).symm, fun v hv => ?_, Nat.zero_le _, Nat.zero_le _⟩
    obtain ⟨idx, hmem, rfl⟩ := List.mem_map.mp hv
    have := List.mem_range'_1.mp hmem
    exact hnull (by omega)
  · refine ⟨(List.range' 1 front.length).map ep.entry, ep.bCount - 1 - front.length, ?_,
      fun v hv => ?_,
      Nat.sub_le .., by omega⟩
    · rw [← List.map_append, Nat.add_comm front.length 1, List.range'_append_1]
      congr 2
      omega
    · obtain ⟨idx, hmem, rfl⟩ := List.mem_map.mp hv
      have := List.mem_range'_1.mp hmem
      exact hnull (by omega)

theorem entry_eq (hbuffers : ep.inBuffer = front ++ b :: rest)
    (hidx : ep.inBufferIdx = front.length) {j : Nat} {c : BufferS} (hj : rest[j]? = some c) :
    ep.entry (front.length + 1 + j) = ⟨front.length + 1 + j, 0, free c⟩ := by
  have hget : ep.inBuffer[front.length + 1 + j]? = some c := by
    rw [hbuffers, List.getElem?_append_right (by omega), show front.length + 1 + j - front.length =
      j + 1 by omega]
    exact hj
  rw [Input.entry, hidx, if_pos (by omega), hget]

theorem sum_entries (hbuffers : ep.inBuffer = front ++ b :: rest)
    (hidx : ep.inBufferIdx = front.length) {m : Nat} (hm : m ≤ rest.length) :
    (((List.range' (front.length + 1) m).map ep.entry).map iovec.iovLen).sum = total
    (rest.take m) := by
  have hmap : ((List.range' (front.length + 1) m).map ep.entry).map iovec.iovLen =
      (rest.take m).map free := by
    refine List.ext_getElem? fun j => ?_
    by_cases hj : j < m
    · have hrest : rest[j]? = some rest[j] := List.getElem?_eq_getElem (by omega)
      rw [List.getElem?_map, List.getElem?_map, List.getElem?_map,
        List.getElem?_take_of_lt hj, hrest,
        List.getElem?_range' hj, Nat.one_mul]
      simp only [Option.map_some, entry_eq hbuffers hidx hrest]
    · rw [List.getElem?_eq_none, List.getElem?_eq_none]
      · rw [List.length_map, length_take]
        omega
      · rw [List.length_map, List.length_map, List.length_range']
        omega
  rw [hmap]
  rfl

theorem scatter_first (b : BufferS) (rest : List BufferS) (data : Octets)
    (hidx : ep.inBufferIdx = front.length) (hindex : ep.inIndex = 0) (vp : List iovec) :
    ∃ b₁, scatter (ep.first b :: vp) data (front ++ b :: rest) =
        scatter vp (data.drop (free b)) (front ++ b₁ :: rest) ∧
      b₁.memSize = b.memSize ∧ b₁.dataSize = b.dataSize ∧
        b.contents ++ data.take (free b) <+: b₁.mem := by
  have hfirst : ep.first b = ⟨front.length, b.dataSize, free b⟩ := by
    rw [Input.first, hidx, hindex]
    rfl
  rw [hfirst, scatter]
  by_cases hpiece : data.take (free b) = []
  · have hall : data.drop (free b) = data := by
      have hsplit := take_append_drop (free b) data
      rwa [hpiece] at hsplit
    refine ⟨b, by rw [if_pos hpiece, hall], rfl, rfl, ?_⟩
    rw [hpiece, append_nil]
    exact List.take_prefix ..
  · have hroom : b.dataSize + (data.take (free b)).length ≤ b.mem.length := by
      have hle := memSize_le_length b
      have hfits := b.fits
      rw [length_take, free]
      omega
    obtain ⟨b₁, hstore, hmemSize, hdataSize, hmem⟩ := store_ok hroom
    refine ⟨b₁, by rw [if_neg hpiece, change_ok hstore]; rfl, hmemSize, hdataSize, ?_⟩
    rw [hmem]
    exact List.prefix_append ..

theorem accountFirst_eq (ep : Input) (data : Octets) {b₁ : BufferS} {rest' : List BufferS}
    (hbuffers : ep.inBuffer = front ++ b₁ :: rest')
    (hidx : ep.inBufferIdx = front.length) (hmemSize : b₁.memSize = b.memSize)
    (hdataSize : b₁.dataSize = b.dataSize) (hstart : b.contents ++ data.take (free b) <+: b₁.mem) :
    ∃ b₂ idx inIndex, accountFirst ep (free b) data.length =
        .ok ({ ep with inBuffer := front ++ b₂ :: rest', inBufferIdx := idx, inIndex },
          (data.drop (free b)).length) ∧
      b₂.contents = b.contents ++ data.take (free b) ∧
      (free b ≤ data.length → idx = front.length + 1 ∧ inIndex = ep.inIndex) := by
  have hcontents {b₂ : BufferS} (hmem : b₂.mem = b₁.mem)
      (hsize : b₂.dataSize = b.dataSize + (data.take (free b)).length) :
      b₂.contents = b.contents ++ data.take (free b) := by
    rw [BufferS.contents, hmem, hsize, ← contents_length b, ← length_append]
    exact (List.prefix_iff_eq_take.mp hstart).symm
  have hfits := b.fits
  rw [accountFirst, hbuffers, hidx]
  by_cases hfull : free b ≤ data.length
  · have hroom : b₁.dataSize + free b ≤ b₁.memSize := by
      rw [hmemSize, hdataSize, free]
      omega
    obtain ⟨b₂, hset, -, hsize, hmem⟩ := setDataSize_ok hroom
    rw [if_pos hfull, change_ok (f := (bufferIncrDataSize · (free b))) hset, length_drop]
    refine ⟨b₂, front.length + 1, ep.inIndex, rfl, hcontents hmem ?_, fun _ => ⟨rfl, rfl⟩⟩
    rw [hsize, hdataSize, length_take, Nat.min_eq_left hfull]
  · have hshort : data.length ≤ free b := by omega
    have hroom : b₁.dataSize + data.length ≤ b₁.memSize := by
      rw [hmemSize, hdataSize]
      rw [free] at hshort
      omega
    obtain ⟨b₂, hset, -, hsize, hmem⟩ := setDataSize_ok hroom
    rw [if_neg hfull, change_ok (f := (bufferIncrDataSize · data.length)) hset,
      List.drop_of_length_le hshort]
    refine ⟨b₂, front.length, ep.inIndex + data.length, rfl, hcontents hmem ?_,
      fun h => absurd h hfull⟩
    rw [hsize, hdataSize, length_take, Nat.min_eq_right hshort]

theorem doRead_data (hbuffers : ep.inBuffer = front ++ b :: rest)
    (hidx : ep.inBufferIdx = front.length)
    (hindex : ep.inIndex = 0) (hdata : data ≠ []) (harrives : Arrives ep data) :
    ∃ ep' buffers', doRead ep (.ok data) =
        .ok (if ep.inMinLen ≤ ep.inAmtRead + data.length then .IoDone else .IoIncomplete, ep') ∧
      ep'.inMinLen = ep.inMinLen ∧ ep'.inAmtRead = ep.inAmtRead + data.length ∧
        ep'.inBuffer = front ++ buffers' ∧
      buffers'.map BufferS.contents = pour (b :: rest) data ∧ data.length ≤ total (b :: rest) ∧
      (¬ep.inMinLen ≤ ep.inAmtRead + data.length → ∃ k, ep'.inBufferIdx = front.length + k ∧
        ep'.inIndex = 0 ∧
        buffers'.drop k = (b :: rest).drop k ∧ data.length = total ((b :: rest).take k)) := by
  have hdrop : ep.inBuffer.drop ep.inBufferIdx = b :: rest := by rw [hbuffers, hidx, List.drop_left]
  have hget : ep.inBuffer[ep.inBufferIdx]? = some b := by
    rw [hbuffers, hidx, List.getElem?_append_right (Nat.le_refl _), Nat.sub_self]
    rfl
  rw [Arrives, hdrop] at harrives
  obtain ⟨hroom, hempty, hend⟩ := harrives
  obtain ⟨nulls, m, hentries, hnulls, hmcount, hmrest⟩ := entries_eq hbuffers hidx
  have hlen : (ep.first b).iovLen = free b := by
    rw [Input.first, hindex]
    rfl
  have hroom' : (data.drop (free b)).length ≤ total (rest.take m) := by
    rw [Input.vp, hentries, map_cons, List.sum_cons, hlen, sum_append hnulls,
      sum_entries hbuffers hidx hmrest] at hroom
    rw [length_drop]
    omega
  have hall : data.length ≤ total (b :: rest) := by
    have := total_take_le rest m
    rw [length_drop] at hroom'
    rw [total_cons]
    omega
  obtain ⟨b₁, hscatter₁, hmemSize, hdataSize, hstart⟩ :=
    scatter_first b rest data hidx hindex ((List.range' 1 (ep.bCount - 1)).map ep.entry)
  obtain ⟨rest', hscatter₂, hstored⟩ := scatter_rest m (front ++ [b₁]) ep.entry
    (fun j c hj => by
      rw [length_append, List.length_singleton]
      exact entry_eq hbuffers hidx hj)
    hroom' (by rwa [length_drop])
  have hscatter : scatter (ep.vp b) data ep.inBuffer = .ok (front ++ b₁ :: rest') := by
    rw [length_append, append_assoc, append_assoc] at hscatter₂
    rw [Input.vp, hbuffers, hscatter₁, hentries, scatter_append hnulls]
    exact hscatter₂
  obtain ⟨b₂, idx, inIndex, hfirst, hcontents, hfull⟩ := accountFirst_eq
    { ep with
      inBuffer := front ++ b₁ :: rest',
      inAmtRead := ep.inAmtRead + data.length } data rfl hidx hmemSize hdataSize hstart
  obtain ⟨ep₃, haccount, hminLen, hamtRead, rest'', hbuffers'', hcontents'', hends⟩ :=
    account_rest ep.inBufferIdx 1
    (front ++ [b₂]) { ep with
      inBuffer := front ++ b₂ :: rest', inBufferIdx := idx, inIndex,
        inAmtRead := ep.inAmtRead + data.length } hstored hroom' hmcount (by rw [append_assoc]; rfl)
        (by rw [length_append, hidx]; rfl)
  have hbuffers₃ : ep₃.inBuffer = front ++ b₂ :: rest'' := by
    rw [hbuffers'', append_assoc]
    rfl
  have hcontents₃ : (b₂ :: rest'').map BufferS.contents = pour (b :: rest) data := by
    rw [map_cons, hcontents, hcontents'', pour]
  have hread : doRead ep (.ok data) =
      .ok (if ep₃.inMinLen ≤ ep₃.inAmtRead then (.IoDone, { ep₃ with inIndex := 0 })
      else (.IoIncomplete, ep₃)) := by
    rw [doRead, hget]
    cases data with
    | nil => exact absurd rfl hdata
    | cons c cs =>
      dsimp only
      rw [hscatter, hlen]
      dsimp only [bind, Except.bind]
      rw [hfirst]
      dsimp only
      rw [haccount]
      dsimp only
      split <;> rfl
  rw [hminLen, hamtRead] at hread
  dsimp only at hread
  by_cases hdone : ep.inMinLen ≤ ep.inAmtRead + data.length
  · rw [if_pos hdone] at hread ⊢
    exact ⟨_, _, hread, rfl, rfl, hbuffers₃, hcontents₃, hall, fun h => absurd hdone h⟩
  · rw [if_neg hdone] at hread ⊢
    refine ⟨_, _, hread, hminLen, hamtRead, hbuffers₃, hcontents₃, hall, fun _ => ?_⟩
    obtain ⟨hle, hend⟩ := (hend.resolve_left hdone).resolve_left (mt length_eq_zero_iff.mp hdata)
    obtain ⟨hidx', hindex'⟩ := hfull hle
    obtain ⟨k, hk, hindex₃, hdrop₃, hlength⟩ := hends (by rwa [length_drop])
    refine ⟨k + 1, ?_, hindex₃.trans (hindex'.trans hindex), hdrop₃, ?_⟩
    · rw [hk]
      dsimp only
      omega
    · rw [take_succ_cons, total_cons, ← hlength, length_drop]
      omega

end Vector

section Reads

structure Reading (ep : Input) (old : List BufferS) (minlen : Int) (received : Octets) : Prop where
  minLen : ep.inMinLen = if 0 < minlen then minlen.toNat else ofInt (total old)
  amtRead : ep.inAmtRead = received.length
  index : ep.inIndex = 0
  contents : ep.inBuffer.map BufferS.contents = pour old received
  behind : ep.inBuffer.drop ep.inBufferIdx = old.drop ep.inBufferIdx
  filled : received.length = total (old.take ep.inBufferIdx)
  short : received = [] ∨ received.length < ep.inMinLen

variable {ep : Input} {old : List BufferS} {minlen : Int} {received : Octets}

theorem reading_prepareRead (old : List BufferS) (minlen : Int) :
    Reading (prepareRead old minlen) old minlen [] where
  minLen := rfl
  amtRead := rfl
  index := rfl
  contents := (pour_nil old).symm
  behind := rfl
  filled := rfl
  short := .inl rfl

theorem filled_of_contents {buffers : List BufferS}
    (hcontents : buffers.map BufferS.contents = pour old received)
    (hroom : received.length ≤ total old) : Filled old received buffers where
  contents := hcontents
  dataSize := by
    rw [← hcontents, List.map_map]
    exact List.map_congr_left fun b _ => (contents_length b).symm
  room := hroom

theorem ofInt_eq {n : Nat} (hint : n < 2 ^ 31) : ofInt n = n := by
  rw [ofInt]
  have hmod : n % 2 ^ 32 = n := Nat.mod_eq_of_lt (by omega)
  rw [hmod, if_pos hint]

theorem arrived_iff (hfeasible : Feasible old minlen) (hold : old ≠ [])
    (hroom : received.length ≤ total old) {n : Nat}
    (hminLen : n = if 0 < minlen then minlen.toNat else ofInt (total old)) :
    0 < n ∧ (Arrived old minlen received ↔ n ≤ received.length) := by
  obtain ⟨hnil, -⟩ | ⟨htotal, -, hint⟩ := hfeasible
  · exact absurd hnil hold
  rw [Arrived, hminLen]
  by_cases hpos : 0 < minlen
  · rw [if_pos hpos, if_pos hpos]
    omega
  · rw [if_neg hpos, if_neg hpos, ofInt_eq (hint (by omega))]
    omega

section Reading

variable (hreading : Reading ep old minlen received)

include hreading

theorem Reading.length_eq : ep.inBuffer.length = old.length := by
  have hlength := congrArg List.length hreading.contents
  rwa [List.length_map, length_pour] at hlength

theorem Reading.room : received.length ≤ total old :=
  hreading.filled ▸ total_take_le ..

theorem Reading.full (hend : ep.inBuffer.length ≤ ep.inBufferIdx) :
    received.length = total old := by
  rw [hreading.filled, List.take_of_length_le (hreading.length_eq ▸ hend)]

omit hreading in
theorem arrived_of_full (hfeasible : Feasible old minlen) (hfull : received.length = total old) :
    Arrived old minlen received := by
  rw [Arrived]
  split
  next hpos =>
    obtain ⟨-, hle⟩ | ⟨-, hle, -⟩ := hfeasible
    · omega
    · exact hfull ▸ hle
  next => exact hfull

theorem Reading.not_arrived (hfeasible : Feasible old minlen)
    (hold : old ≠ []) : ¬Arrived old minlen received := by
  obtain ⟨hpos, harrived⟩ := arrived_iff hfeasible hold hreading.room hreading.minLen
  rw [harrived]
  rcases hreading.short with rfl | hshort
  · exact Nat.not_le_of_lt hpos
  · exact Nat.not_le_of_lt hshort

structure ReadTo (old : List BufferS) (minlen : Int) (received : Octets) (status : IoStatus)
    (ep : Input) : Prop where
  reading : status = .IoIncomplete → Reading ep old minlen received
  filled : status = .IoDone → Filled old received ep.inBuffer
  done : status = .IoDone ↔ Arrived old minlen received

theorem Reading.readTo {status : IoStatus}
    (hfeasible : Feasible old minlen) (hold : old ≠ []) (hstatus : status ≠ .IoDone) :
    ReadTo old minlen received status ep :=
  ⟨fun _ => hreading, fun h => absurd h hstatus,
    ⟨fun h => absurd h hstatus, fun h => absurd h (hreading.not_arrived hfeasible hold)⟩⟩

theorem Reading.ne_nil (hlt : ep.inBufferIdx < ep.inBuffer.length) :
    old ≠ [] := by
  rintro rfl
  rw [hreading.length_eq] at hlt
  exact Nat.not_lt_zero _ hlt

theorem doRead_data_readTo {data : Octets} (hfeasible : Feasible old minlen)
    (harrives : Arrives ep data) (hlt : ep.inBufferIdx < ep.inBuffer.length) (hdata : data ≠ []) :
    ∃ status ep', doRead ep (.ok data) = .ok (status, ep') ∧
      ReadTo old minlen (received ++ data) status ep' := by
  have hfront : (ep.inBuffer.take ep.inBufferIdx).length = ep.inBufferIdx :=
    List.length_take_of_le (Nat.le_of_lt hlt)
  have hsplit : ep.inBuffer =
      ep.inBuffer.take ep.inBufferIdx ++ ep.inBuffer[ep.inBufferIdx] ::
        ep.inBuffer.drop (ep.inBufferIdx + 1) := by
    rw [List.getElem_cons_drop, take_append_drop]
  have hcurrent : ep.inBuffer[ep.inBufferIdx] :: ep.inBuffer.drop (ep.inBufferIdx + 1) =
      old.drop ep.inBufferIdx := by
    rw [List.getElem_cons_drop, hreading.behind]
  obtain ⟨ep', buffers', hread, hminLen, hamtRead, hbuffers, hcontents, hroom, hmore⟩ :=
    doRead_data hsplit hfront.symm hreading.index hdata harrives
  rw [hcurrent] at hcontents hroom hmore
  rw [hreading.amtRead] at hread hamtRead hmore
  have hpoured : ep'.inBuffer.map BufferS.contents = pour old (received ++ data) := by
    rw [hbuffers, List.map_append, hcontents, List.map_take, hreading.contents, take_pour,
      ← pour_append hreading.filled, take_append_drop]
  have hlength : (received ++ data).length ≤ total old := by
    have hsplit := total_append (old.take ep.inBufferIdx) (old.drop ep.inBufferIdx)
    rw [take_append_drop, ← hreading.filled] at hsplit
    rw [length_append]
    omega
  obtain ⟨-, harrived⟩ := arrived_iff hfeasible (hreading.ne_nil hlt) hlength hreading.minLen
  rw [length_append] at harrived
  refine ⟨_, ep', hread, ?_⟩
  by_cases hdone : ep.inMinLen ≤ received.length + data.length
  · rw [if_pos hdone]
    exact ⟨nofun, fun _ => filled_of_contents hpoured hlength, iff_of_true rfl (harrived.mpr hdone)⟩
  · rw [if_neg hdone]
    refine ⟨fun _ => ?_, nofun, iff_of_false nofun (mt harrived.mp hdone)⟩
    obtain ⟨k, hidx, hindex, hdrop, hcount⟩ := hmore hdone
    rw [hfront] at hidx
    exact {
      minLen := hminLen.trans hreading.minLen
      amtRead := by rw [hamtRead, length_append]
      index := hindex
      contents := hpoured
      behind := by
        rw [hbuffers, hidx, ← drop_drop, ← drop_drop, List.drop_left' hfront, hdrop]
      filled := by rw [hidx, List.take_add, total_append, length_append, hreading.filled, hcount]
      short := .inr (by rw [hminLen, length_append]; omega) }

theorem doRead_readTo {readv : Except Errno Octets}
    (hfeasible : Feasible old minlen) (harrives : ∀ data, readv = .ok data → Arrives ep data) :
    ∃ status ep', doRead ep readv = .ok (status, ep') ∧
      ReadTo old minlen (received ++ taken ep readv) status ep' := by
  by_cases hend : ep.inBuffer.length ≤ ep.inBufferIdx
  · have hfull := hreading.full hend
    have htaken : taken ep readv = [] := by
      cases readv with
      | error e => rfl
      | ok data => exact if_neg (Nat.not_lt.mpr hend)
    refine ⟨.IoDone, ep, by rw [doRead, List.getElem?_eq_none hend], ?_⟩
    rw [htaken, append_nil]
    exact ⟨nofun, fun _ => filled_of_contents hreading.contents (Nat.le_of_eq hfull),
      iff_of_true rfl (arrived_of_full hfeasible hfull)⟩
  · have hlt : ep.inBufferIdx < ep.inBuffer.length := Nat.not_le.mp hend
    have hget := List.getElem?_eq_getElem hlt
    have hnothing (status : IoStatus) (hdone : status ≠ .IoDone) (hread : doRead ep readv =
        .ok (status, ep))
        (htaken : taken ep readv = []) : ∃ status ep', doRead ep readv = .ok (status, ep') ∧
          ReadTo old minlen (received ++ taken ep readv) status ep' := by
      refine ⟨status, ep, hread, ?_⟩
      rw [htaken, append_nil]
      exact hreading.readTo hfeasible (hreading.ne_nil hlt) hdone
    match readv with
    | .error .EINTR | .error .EAGAIN =>
        exact hnothing .IoIncomplete nofun (by rw [doRead, hget]) rfl
    | .error .other => exact hnothing .IoFailed nofun (by rw [doRead, hget]) rfl
    | .ok [] => exact hnothing .IoEOF nofun (by rw [doRead, hget]) (if_pos hlt)
    | .ok (c :: data) =>
      rw [show taken ep (.ok (c :: data)) = c :: data from if_pos hlt]
      exact doRead_data_readTo hreading hfeasible (harrives _ rfl) hlt nofun

end Reading

end Reads

section Writes

def Output.remaining (ep : Output) : Octets :=
  match ep.outBuffer.drop ep.outBufferIdx with
  | [] => []
  | b :: rest => b.contents.drop ep.outIndex ++ rest.flatMap BufferS.contents

theorem remaining_of_outIndex {ep : Output} (hindex : ep.outIndex = 0) :
    ep.remaining = (ep.outBuffer.drop ep.outBufferIdx).flatMap BufferS.contents := by
  rw [Output.remaining, hindex]
  cases ep.outBuffer.drop ep.outBufferIdx <;> rfl

theorem remaining_of_drop {ep : Output} {b : BufferS} {rest : List BufferS}
    (hdrop : ep.outBuffer.drop ep.outBufferIdx = b :: rest) :
    ep.remaining = b.contents.drop ep.outIndex ++ rest.flatMap BufferS.contents := by
  rw [Output.remaining, hdrop]

theorem drop_next {ep : Output} {b : BufferS} {rest : List BufferS}
    (hdrop : ep.outBuffer.drop ep.outBufferIdx = b :: rest) :
    ep.outBuffer.drop (ep.outBufferIdx + 1) = rest := by
  rw [← drop_drop, hdrop]
  rfl

def TakesAway (vp : List Octets) (n : Nat) (ep : Output) : Prop :=
  ∃ idx outIndex, written vp n ep = .ok { ep with outBufferIdx := idx, outIndex } ∧
    Output.remaining { ep with outBufferIdx := idx, outIndex } = ep.remaining.drop n

theorem takesAway_cons {ep : Output} {b : BufferS} {rest : List BufferS}
    {vp : List Octets} {n : Nat} (hdrop : ep.outBuffer.drop ep.outBufferIdx = b :: rest)
    (hmore : (b.contents.drop ep.outIndex).length ≤ n → TakesAway vp (n - (b.contents.drop ep.outIndex).length)
      { ep with outBufferIdx := ep.outBufferIdx + 1, outIndex := 0 }) :
    TakesAway (b.contents.drop ep.outIndex :: vp) n ep := by
  have hremaining := remaining_of_drop hdrop
  rw [TakesAway, written]
  by_cases hzero : n = 0
  · subst hzero
    exact ⟨ep.outBufferIdx, ep.outIndex, if_pos rfl, rfl⟩
  rw [if_neg hzero]
  by_cases hfull : (b.contents.drop ep.outIndex).length ≤ n
  · have hafter : Output.remaining { ep with outBufferIdx := ep.outBufferIdx + 1, outIndex := 0 } =
        ep.remaining.drop (b.contents.drop ep.outIndex).length := by
      rw [hremaining, List.drop_left, remaining_of_outIndex rfl]
      exact congrArg (List.flatMap BufferS.contents) (drop_next hdrop)
    obtain ⟨idx, outIndex, hwritten, hrest⟩ := hmore hfull
    rw [if_pos hfull]
    refine ⟨idx, outIndex, hwritten, hrest.trans ?_⟩
    rw [hafter, drop_drop, Nat.add_sub_cancel' hfull]
  · have hpart : n ≤ (b.contents.drop ep.outIndex).length := by omega
    rw [if_neg hfull]
    refine ⟨ep.outBufferIdx, ep.outIndex + n, rfl, ?_⟩
    rw [hremaining, List.drop_append_of_le_length hpart, drop_drop]
    exact remaining_of_drop hdrop

theorem takesAway {tail : List BufferS} {ep : Output} {b : BufferS} {rest : List BufferS} {n : Nat}
    (hdrop : ep.outBuffer.drop ep.outBufferIdx = b :: rest) (htail : tail <+: rest)
    (hroom : n ≤ (b.contents.drop ep.outIndex :: tail.map BufferS.contents).flatten.length) :
    TakesAway (b.contents.drop ep.outIndex :: tail.map BufferS.contents) n ep := by
  refine takesAway_cons hdrop fun hfull => ?_
  rw [List.flatten_cons, length_append] at hroom
  induction tail generalizing ep b rest n with
  | nil =>
    have hend : n - (b.contents.drop ep.outIndex).length = 0 := Nat.sub_eq_zero_of_le hroom
    rw [hend]
    exact ⟨ep.outBufferIdx + 1, 0, rfl, rfl⟩
  | cons c tail ih =>
    cases rest with
    | nil => exact absurd htail.length_le (Nat.not_succ_le_zero _)
    | cons c' rest =>
      obtain ⟨rfl, htail'⟩ := List.cons_prefix_cons.mp htail
      rw [map_cons, List.flatten_cons, length_append] at hroom
      have hrest : n - (b.contents.drop ep.outIndex).length ≤
          c.contents.length + (tail.map BufferS.contents).flatten.length := by omega
      let ep' : Output := { ep with outBufferIdx := ep.outBufferIdx + 1, outIndex := 0 }
      have hdrop' : ep'.outBuffer.drop ep'.outBufferIdx = c :: rest := drop_next hdrop
      exact takesAway_cons hdrop' fun hfull => ih hdrop' htail' hrest hfull

theorem flatten_vp_prefix (ep : Output) : ep.vp.flatten <+: ep.remaining := by
  rw [Output.vp, Output.remaining]
  cases ep.outBuffer.drop ep.outBufferIdx with
  | nil => exact List.nil_prefix
  | cons b rest =>
    refine (List.prefix_append_right_inj _).mpr
      ⟨(rest.drop (IOV_MAX - 1)).flatMap BufferS.contents, ?_⟩
    exact List.flatMap_append.symm.trans
      (congrArg (List.flatMap BufferS.contents) (take_append_drop _ rest))

structure Writing (ep : Output) (contents sent : Octets) : Prop where
  size : ep.outSize = ofInt contents.length
  amtWritten : ep.outAmtWritten = sent.length
  rest : sent ++ ep.remaining = contents
  short : sent = [] ∨ ep.outAmtWritten ≠ ep.outSize

structure WrittenTo (contents sent : Octets) (status : IoStatus) (ep : Output) : Prop where
  writing : status = .IoIncomplete ∨ status = .IoProgress → Writing ep contents sent
  inOrder : sent <+: contents
  complete : status = .IoDone → sent = contents
  done : contents ≠ [] → sent = contents → status = .IoDone

variable {ep : Output} {contents sent : Octets}

theorem writing_prepareWrite (buffers : List BufferS) :
    Writing (prepareWrite buffers) (buffers.flatMap BufferS.contents) [] where
  size := by
    rw [List.length_flatMap, List.map_congr_left fun b _ => contents_length b]
    rfl
  amtWritten := rfl
  rest := remaining_of_outIndex rfl
  short := .inl rfl

theorem Writing.sent_ne (hwriting : Writing ep contents sent) (hint : contents.length < 2 ^ 31)
    (hcontents : contents ≠ []) : sent ≠ contents := by
  rintro rfl
  obtain hnil | hshort := hwriting.short
  · exact hcontents hnil
  · rw [hwriting.size, hwriting.amtWritten, ofInt_eq hint] at hshort
    exact hshort rfl

theorem Writing.writtenTo {status : IoStatus} (hwriting : Writing ep contents sent)
    (hint : contents.length < 2 ^ 31)
    (hstatus : status ≠ .IoDone) : WrittenTo contents sent status ep :=
  ⟨fun _ => hwriting, ⟨_, hwriting.rest⟩, fun h => absurd h hstatus,
    fun hne heq => absurd heq (hwriting.sent_ne hint hne)⟩

theorem vp_eq {b : BufferS} {rest : List BufferS}
    (hdrop : ep.outBuffer.drop ep.outBufferIdx = b :: rest) :
    ep.vp = b.contents.drop ep.outIndex :: (rest.take (IOV_MAX - 1)).map BufferS.contents := by
  rw [Output.vp, hdrop]
  rfl

theorem doWrite_some_writtenTo {n : Nat} (hwriting : Writing ep contents sent)
    (hint : contents.length < 2 ^ 31) (hvp : ep.vp ≠ []) (hroom : n + 1 ≤ ep.vp.flatten.length) :
    ∃ status ep' octets, doWrite ep (.ok (n + 1)) = .ok (status, ep', octets) ∧
      ep'.outBuffer = ep.outBuffer ∧
      WrittenTo contents (sent ++ octets) status ep' := by
  obtain ⟨idx, outIndex, hwritten, hremaining⟩ : TakesAway ep.vp (n + 1)
      { ep with outAmtWritten := ep.outAmtWritten + (n + 1) } := by
    cases hdrop : ep.outBuffer.drop ep.outBufferIdx with
    | nil => exact absurd (by rw [Output.vp, hdrop]; rfl) hvp
    | cons b rest =>
      rw [vp_eq hdrop] at hroom ⊢
      exact takesAway hdrop (List.take_prefix ..) hroom
  have htake : ep.vp.flatten.take (n + 1) = ep.remaining.take (n + 1) := by
    obtain ⟨behind, hbehind⟩ := flatten_vp_prefix ep
    rw [← hbehind, List.take_append_of_le_length hroom]
  have hrest : sent ++ ep.vp.flatten.take (n + 1) ++ ep.remaining.drop (n + 1) = contents := by
    rw [htake, append_assoc, take_append_drop, hwriting.rest]
  have hlength : (sent ++ ep.vp.flatten.take (n + 1)).length = ep.outAmtWritten + (n + 1) := by
    rw [length_append, List.length_take_of_le hroom, hwriting.amtWritten]
  have hwrite : doWrite ep (.ok (n + 1)) =
      .ok (if ep.outAmtWritten + (n + 1) = ep.outSize then .IoDone else .IoProgress,
      { ep with outBufferIdx := idx, outIndex, outAmtWritten := ep.outAmtWritten + (n + 1) },
      ep.vp.flatten.take (n + 1)) := by
    rw [doWrite, if_neg hvp, hwritten]
    · rfl
    · exact Nat.succ_ne_zero n
  refine ⟨_, _, _, hwrite, rfl, ?_⟩
  rw [hwriting.size, ofInt_eq hint, ← hlength]
  have hstart : sent ++ ep.vp.flatten.take (n + 1) <+: contents := ⟨_, hrest⟩
  by_cases hdone : (sent ++ ep.vp.flatten.take (n + 1)).length = contents.length
  · rw [if_pos hdone]
    exact ⟨nofun, hstart, fun _ => hstart.eq_of_length hdone, fun _ _ => rfl⟩
  · rw [if_neg hdone]
    refine ⟨fun _ => ?_, hstart, nofun, fun _ heq => absurd (congrArg List.length heq) hdone⟩
    exact {
      size := (ofInt_eq hint).symm
      amtWritten := rfl
      rest := (congrArg (sent ++ ep.vp.flatten.take (n + 1) ++ ·) hremaining).trans hrest
      short := .inr hdone }

theorem doWrite_writtenTo {writev : Except Errno Nat} (hwriting : Writing ep contents sent)
    (hint : contents.length < 2 ^ 31) (hroom : ∀ n, writev = .ok n → n ≤ ep.vp.flatten.length) :
    ∃ status ep' octets, doWrite ep writev = .ok (status, ep', octets) ∧
      ep'.outBuffer = ep.outBuffer ∧
      WrittenTo contents (sent ++ octets) status ep' := by
  by_cases hvp : ep.vp = []
  · have hend : ep.outBuffer.drop ep.outBufferIdx = [] := by
      cases hdrop : ep.outBuffer.drop ep.outBufferIdx with
      | nil => rfl
      | cons b rest => exact absurd ((vp_eq hdrop).symm.trans hvp) (List.cons_ne_nil _ _)
    have hsent : sent = contents := by
      rw [← hwriting.rest, Output.remaining, hend, append_nil]
    refine ⟨.IoDone, ep, [], if_pos hvp, rfl, ?_⟩
    rw [append_nil]
    exact ⟨nofun, hsent ▸ List.prefix_rfl, fun _ => hsent, fun _ _ => rfl⟩
  · have hnothing (status : IoStatus) (hdone : status ≠ .IoDone) (hwrite : doWrite ep writev =
        .ok (status, ep, [])) :
        ∃ status ep' octets, doWrite ep writev = .ok (status, ep', octets) ∧
          ep'.outBuffer = ep.outBuffer ∧
          WrittenTo contents (sent ++ octets) status ep' := by
      refine ⟨status, ep, [], hwrite, rfl, ?_⟩
      rw [append_nil]
      exact hwriting.writtenTo hint hdone
    match writev with
    | .error .EINTR | .error .EAGAIN => exact hnothing .IoIncomplete nofun (if_neg hvp)
    | .error .other => exact hnothing .IoFailed nofun (if_neg hvp)
    | .ok 0 => exact hnothing .IoIncomplete nofun (if_neg hvp)
    | .ok (n + 1) => exact doWrite_some_writtenTo hwriting hint hvp (hroom _ rfl)

end Writes

section Session

structure Kept (s : Session) : Prop where
  reading : s.readStatus = .IoIncomplete → Reading s.input s.old s.minlen s.received
  reads : s.readStatus ≠ .IoIncomplete → s.Reads
  writing : s.writeStatus = .IoIncomplete ∨ s.writeStatus = .IoProgress →
    Writing s.output s.contents s.sent
  writes : ¬(s.writeStatus = .IoIncomplete ∨ s.writeStatus = .IoProgress) → s.Writes

theorem kept_prepare (inBuffer : List BufferS) (minlen : Int) (outBuffer : List BufferS) :
    Kept (prepare inBuffer minlen outBuffer) where
  reading _ := reading_prepareRead inBuffer minlen
  reads h := absurd rfl h
  writing _ := writing_prepareWrite outBuffer
  writes h := absurd (.inl rfl) h

variable {s : Session}

theorem Kept.read {readv : Except Errno Octets} (hkept : Kept s)
    (hcondition : s.Condition (.read readv)) :
    ∃ s', step s (.read readv) = .ok s' ∧ Kept s' ∧ s'.Reads := by
  by_cases hstatus : s.readStatus = .IoIncomplete
  · obtain ⟨status, ep', hread, hreading, hfilled, hdone⟩ :=
      doRead_readTo (hkept.reading hstatus) hcondition.1
      fun data hdata => hcondition.2 data hdata hstatus
    have hreads : Session.Reads { s with
        input := ep', readStatus := status, received := s.received ++ taken s.input readv } :=
          ⟨hfilled, hdone⟩
    refine ⟨_, ?_, ⟨hreading, fun _ => hreads, hkept.writing, fun h => ?_⟩, hreads⟩
    · rw [step, if_pos hstatus, hread]
      rfl
    · obtain ⟨hsent, hcomplete, hend⟩ := hkept.writes h
      exact ⟨hsent, hcomplete, hend⟩
  · exact ⟨s, if_neg hstatus, hkept, hkept.reads hstatus⟩

theorem Kept.write {writev : Except Errno Nat} (hkept : Kept s)
    (hcondition : s.Condition (.write writev)) :
    ∃ s', step s (.write writev) = .ok s' ∧ Kept s' ∧ s'.Writes := by
  by_cases hstatus : s.writeStatus = .IoIncomplete ∨ s.writeStatus = .IoProgress
  · obtain ⟨status, ep', octets, hwrite, hbuffers, hwritten⟩ :=
      doWrite_writtenTo (hkept.writing hstatus) hcondition.1 hcondition.2
    have hcontents : ep'.outBuffer.flatMap BufferS.contents = s.contents :=
      congrArg (List.flatMap BufferS.contents) hbuffers
    rw [← hcontents] at hwritten
    have hwrites : Session.Writes { s with
        output := ep', writeStatus := status, sent := s.sent ++ octets } :=
      ⟨hwritten.inOrder, hwritten.complete, hwritten.done⟩
    refine ⟨{ s with output := ep', writeStatus := status, sent := s.sent ++ octets }, ?_,
      ⟨hkept.reading, fun h => ?_, hwritten.writing, fun _ => hwrites⟩, hwrites⟩
    · rw [step, if_pos hstatus, hwrite]
      rfl
    · obtain ⟨hfilled, hdone⟩ := hkept.reads h
      exact ⟨hfilled, hdone⟩
  · exact ⟨s, if_neg hstatus, hkept, hkept.writes hstatus⟩

theorem kept_step {ready : Ready} (hkept : Kept s) (hcondition : s.Condition ready) :
    s.Right ready ∧ ∀ s', step s ready = .ok s' → Kept s' := by
  cases ready with
  | read readv =>
    obtain ⟨s', hstep, hkept', hreads⟩ := hkept.read hcondition
    exact ⟨⟨s', hstep, hreads⟩, fun s'' hstep' => Except.ok.inj (hstep.symm.trans hstep') ▸ hkept'⟩
  | write writev =>
    obtain ⟨s', hstep, hkept', hwrites⟩ := hkept.write hcondition
    exact ⟨⟨s', hstep, hwrites⟩, fun s'' hstep' => Except.ok.inj (hstep.symm.trans hstep') ▸ hkept'⟩

theorem right_of_kept (ready : List Ready) (hkept : Kept s)
    (hmeets : Meets step Session.Condition ready s) :
    Meets step Session.Right ready s := by
  induction ready generalizing s with
  | nil => trivial
  | cons first rest ih =>
    obtain ⟨hright, hnext⟩ := kept_step hkept hmeets.1
    exact ⟨hright, fun s' hstep => ih (hnext s' hstep) (hmeets.2 s' hstep)⟩

/-- Reads and writes of any number of buffers do what is promised, however little the calls
transfer, as long as what is read fits into the vector, comes to no buffer behind the first that
holds data, and ends at the end of a buffer where the minimum has not been reached. -/
theorem transfers_right (inBuffer : List BufferS) (minlen : Int) (outBuffer : List BufferS)
    (ready : List Ready)
    (hmeets : Meets step Session.Condition ready (prepare inBuffer minlen outBuffer)) :
    Meets step Session.Right ready (prepare inBuffer minlen outBuffer) :=
  right_of_kept ready (kept_prepare inBuffer minlen outBuffer) hmeets

def vacant (memSize : Nat) : BufferS where
  mem := List.replicate memSize 0
  memSize := memSize
  dataSize := 0
  deletable := false
  fits := Nat.zero_le _
  owned := by rw [List.length_replicate]; rfl

def letters : BufferS where
  mem := [97, 98]
  memSize := 2
  dataSize := 2
  deletable := false
  fits := Nat.le_refl _
  owned := rfl

theorem transfers_right_two :
    Meets step Session.Right [.read (.ok [97, 98]), .write (.ok 1), .read (.error .EAGAIN),
      .read (.ok [99]), .write (.ok 1)]
      (prepare [vacant 2, vacant 1] 0 [letters]) := by
  have hfeasible : Feasible [vacant 2, vacant 1] 0 := .inr (by decide)
  have hmeets : Meets step Session.Condition
      [.read (.ok [97, 98]), .write (.ok 1), .read (.error .EAGAIN), .read (.ok [99]), .write (.ok 1)]
      (prepare [vacant 2, vacant 1] 0 [letters]) := by
    refine ⟨⟨hfeasible, ?_⟩, ?_⟩
    · rintro _ ⟨⟩ -
      exact ⟨by decide, .inl (by decide), .inr (.inr ⟨by decide, .inl (by decide)⟩)⟩
    rintro s₁ hstep
    obtain rfl := Except.ok.inj hstep
    refine ⟨⟨by decide, ?_⟩, ?_⟩
    · rintro _ ⟨⟩
      decide
    rintro s₂ hstep
    obtain rfl := Except.ok.inj hstep
    refine ⟨⟨hfeasible, nofun⟩, ?_⟩
    rintro s₃ hstep
    obtain rfl := Except.ok.inj hstep
    refine ⟨⟨hfeasible, ?_⟩, ?_⟩
    · rintro _ ⟨⟩ -
      exact ⟨by decide, trivial, .inl (by decide)⟩
    rintro s₄ hstep
    obtain rfl := Except.ok.inj hstep
    refine ⟨⟨by decide, ?_⟩, fun _ _ => trivial⟩
    rintro _ ⟨⟩
    decide
  exact transfers_right [vacant 2, vacant 1] 0 [letters] _ hmeets

/-- An octet is read into the middle of a buffer, and the next two leave a gap behind it. -/
theorem not_transfers_right :
    ¬∀ (inBuffer : List BufferS) (minlen : Int) (outBuffer : List BufferS) (ready : List Ready),
      Meets step Session.Possible ready (prepare inBuffer minlen outBuffer) →
      Meets step Session.Right ready (prepare inBuffer minlen outBuffer) := by
  intro hall
  have hpossible : Meets step Session.Possible [.read (.ok [97]),
      .read (.ok [98, 99])] (prepare [vacant 4] 3 []) := by
    refine ⟨?_, fun s₁ hstep => ⟨?_, fun _ _ => trivial⟩⟩
    · rintro _ _ ⟨⟩ ⟨⟩
      decide
    · obtain rfl := Except.ok.inj hstep
      rintro _ _ ⟨⟩ ⟨⟩
      decide
  obtain ⟨-, hsecond⟩ := hall [vacant 4] 3 [] _ hpossible
  obtain ⟨⟨s₂, hstep, hreads⟩, -⟩ := hsecond _ rfl
  obtain rfl := Except.ok.inj hstep
  exact absurd (hreads.filled rfl).contents (by decide)

end Session

end Inn.Innfeed.Transfers
