import Inn.Foundation.Lines
import Inn.Innd.Channel

/-!
# The articles in memory

`innfeed` has one object for each message-ID that is being sent, however many peers it
goes to. The object counts its references, and so do the buffers that hold its text and
the mappings that the buffers lie over. The contents are read when they are first
needed, and given back when memory runs short.
-/

namespace Inn.Innfeed.Articles

open Function (update)
open Foundation.Lines

structure Mapping where
  arthandle : Option Nat
  mMapping : Nat
  deriving DecidableEq

structure MapInfo where
  size : Nat
  refCount : Nat
  deriving DecidableEq

structure Buffer where
  refCount : Nat
  text : Octets
  deletable : Bool
  /-- `delMapInfo` is called with this when the buffer is freed. -/
  bufferDeletedCbk : Option Mapping
  deriving DecidableEq

structure Article where
  refCount : Nat
  fname : Octets
  msgid : Octets
  contents : Option Nat
  nntpBuffers : Option (List Nat)
  mapInfo : Option Mapping
  articleOk : Bool
  inWireFormat : Bool
  deriving DecidableEq

structure HashEntry where
  hash : UInt32
  article : Nat
  deriving DecidableEq

structure Memory where
  article : Nat → Option Article
  hashTable : Nat → List HashEntry
  chronList : List HashEntry
  buffer : Nat → Option Buffer
  gBufferList : List Nat
  mapInfo : Mapping → Option MapInfo
  dotBuffer : Option Nat
  bytesInUse : UInt32
  articlesInUse : UInt32
  maxBytesInUse : UInt32
  next : Nat
  /-- The buffers that are being written to peers. -/
  held : List Nat
  /-- What has been mapped, and what of it has been released. -/
  opened : List Mapping
  released : List Mapping

inductive Stored
  /-- It cannot be opened, or is not a regular file, or is empty. -/
  | missing
  /-- It has been mapped, or can be read with or without an error. -/
  | found (text : Octets) (mapping : Option Mapping) (readable : Bool)
  deriving DecidableEq

def Memory.setArticle (memory : Memory) (a : Nat) (article : Article) : Memory :=
  { memory with article := update memory.article a (some article) }

def Memory.setBuffer (memory : Memory) (b : Nat) (buffer : Buffer) : Memory :=
  { memory with buffer := update memory.buffer b (some buffer) }

def Memory.getMapInfo (memory : Memory) (m : Mapping) (size : Nat) : Memory :=
  match memory.mapInfo m with
  | some info => { memory with mapInfo := update memory.mapInfo m (some { info with
    refCount := info.refCount + 1 }) }
  | none => { memory with mapInfo := update memory.mapInfo m (some ⟨size, 1⟩) }

def Memory.takeMapInfo (memory : Memory) (m : Mapping) : Memory :=
  match memory.mapInfo m with
  | some info => { memory with mapInfo := update memory.mapInfo m (some { info with
    refCount := info.refCount + 1 }) }
  | none => memory

def Memory.delMapInfo (memory : Memory) (m : Mapping) : Memory :=
  match memory.mapInfo m with
  | none => memory
  | some info =>
    if 0 < info.refCount - 1 then
      { memory with mapInfo := update memory.mapInfo m (some { info with
        refCount := info.refCount - 1 }) }
    else
      { memory with
        mapInfo := update memory.mapInfo m none
        released := m :: memory.released }

def Memory.newBuffer (memory : Memory) (text : Octets) (deletable : Bool) : Memory :=
  { memory with
    buffer := update memory.buffer memory.next (some ⟨1, text, deletable, none⟩)
    gBufferList := memory.next :: memory.gBufferList
    next := memory.next + 1 }

def Memory.bufferTakeRef (memory : Memory) (b : Nat) : Memory :=
  match memory.buffer b with
  | some buffer => memory.setBuffer b { buffer with refCount := buffer.refCount + 1 }
  | none => memory

def Memory.bufferSetDeletedCbk (memory : Memory) (b : Nat) (m : Mapping) : Memory :=
  match memory.buffer b with
  | some buffer => memory.setBuffer b { buffer with bufferDeletedCbk := some m }
  | none => memory

def Memory.delBuffer (memory : Memory) (b : Nat) : Memory :=
  match memory.buffer b with
  | none => memory
  | some buffer =>
    if 0 < buffer.refCount - 1 then
      memory.setBuffer b { buffer with refCount := buffer.refCount - 1 }
    else
      let memory := { memory with
        buffer := update memory.buffer b none
        gBufferList := memory.gBufferList.erase b }
      match buffer.bufferDeletedCbk with
      | some m => memory.delMapInfo m
      | none => memory

def Memory.freeBufferArray (memory : Memory) (bs : List Nat) : Memory :=
    bs.foldl Memory.delBuffer memory

def Memory.bufferDataSize (memory : Memory) (b : Nat) : Nat :=
    (memory.buffer b).elim 0 fun buffer => buffer.text.length

def Memory.bufferRefCount (memory : Memory) (b : Nat) : Nat :=
    (memory.buffer b).elim 0 Buffer.refCount

def TABLE_SIZE : Nat := 2048

def hashString (text : Octets) : UInt32 := text.foldl (fun i c => 33 * i + c.toUInt32) 0

def TABLE_ENTRY (hash : UInt32) : Nat := hash.toNat % TABLE_SIZE

def Memory.isEntry (memory : Memory) (msgid : Octets) (h : HashEntry) : Bool :=
  hashString msgid = h.hash && (memory.article h.article).any fun article => article.msgid = msgid

def Memory.hashFindEntry (memory : Memory) (msgid : Octets) : Option HashEntry :=
  (memory.hashTable (TABLE_ENTRY (hashString msgid))).find? (memory.isEntry msgid)

def Memory.hashFindArticle (memory : Memory) (msgid : Octets) : Option Nat :=
  (memory.hashFindEntry msgid).map HashEntry.article

def Memory.hashAddArticle (memory : Memory) (a : Nat) (msgid : Octets) : Memory :=
  let hash := hashString msgid
  { memory with
    hashTable :=
      update memory.hashTable (TABLE_ENTRY hash) (⟨hash, a⟩ :: memory.hashTable (TABLE_ENTRY hash))
    chronList := ⟨hash, a⟩ :: memory.chronList }

def Memory.hashRemoveArticle (memory : Memory) (msgid : Octets) : Memory :=
  let hash := hashString msgid
  match memory.hashFindEntry msgid with
  | none => memory
  | some h =>
    { memory with
      hashTable :=
        update memory.hashTable (TABLE_ENTRY hash) ((memory.hashTable (TABLE_ENTRY hash)).erase h)
      chronList := memory.chronList.erase h }

def Memory.newArticle (memory : Memory) (fname msgid : Octets) : Memory :=
  match memory.hashFindArticle msgid with
  | none =>
    let a := memory.next
    let memory := { memory.setArticle a ⟨1, fname, msgid, none, none, none, true, false⟩ with
      articlesInUse := memory.articlesInUse + 1
      next := memory.next + 1 }
    memory.hashAddArticle a msgid
  | some a =>
    match memory.article a with
    | some article => memory.setArticle a { article with refCount := article.refCount + 1 }
    | none => memory

def Memory.artTakeRef (memory : Memory) (a : Nat) : Memory :=
  match memory.article a with
  | some article => memory.setArticle a { article with refCount := article.refCount + 1 }
  | none => memory

def Memory.unmap (memory : Memory) (mapping : Option Mapping) (contents : Nat) : Memory :=
  match mapping with
  | some m => memory.delMapInfo m
  | none => { memory with
    bytesInUse := memory.bytesInUse - UInt32.ofNat (memory.bufferDataSize contents) }

def Memory.delContents (memory : Memory) (article : Article) : Memory :=
  match article.contents with
  | none => memory
  | some b => ((memory.unmap article.mapInfo b).freeBufferArray
      (article.nntpBuffers.getD [])).delBuffer b

def Memory.delArticle (memory : Memory) (a : Nat) : Memory :=
  match memory.article a with
  | none => memory
  | some article =>
    if article.refCount - 1 = 0 then
      let memory := memory.hashRemoveArticle article.msgid
      let memory := { memory with
        article := update memory.article a none
        articlesInUse := memory.articlesInUse - 1 }
      memory.delContents article
    else
      memory.setArticle a { article with refCount := article.refCount - 1 }

def Memory.artFreeContents (memory : Memory) (a : Nat) : Bool × Memory :=
  match memory.article a with
  | none => (false, memory)
  | some article =>
    match article.contents with
    | none => (false, memory)
    | some b =>
      if (article.nntpBuffers.getD []).head?.any (fun b => 1 < memory.bufferRefCount b) then
        (false, memory)
      else
        let memory := memory.setArticle a { article with contents := none, nntpBuffers := none, mapInfo := none }
        let memory := memory.freeBufferArray (article.nntpBuffers.getD [])
        (true, (memory.unmap article.mapInfo b).delBuffer b)

def freeOlder (amtToRead : Nat) : List HashEntry → Memory → Memory
  | [], memory => memory
  | h :: rest, memory =>
    match memory.artFreeContents h.article with
    | (freed, memory) =>
      if freed && amtToRead + memory.bytesInUse.toNat ≤ memory.maxBytesInUse.toNat then memory
      else freeOlder amtToRead rest memory

inductive Format
  | munged
  | wire
  | native
  deriving DecidableEq

def format (text : Octets) : Format :=
  match (text.takeWhile (· ≠ 0)).idxOf? LF with
  | none => .munged
  | some p => if 0 < p && text[p - 1]? = some CR then .wire else .native

def escapeLines : Octets → Octets
  | [] => []
  | c :: rest =>
    if c = LF then CR :: LF :: (if rest.head? = some 46 then [46] else []) ++ escapeLines rest
    else c :: escapeLines rest

def nntpPrepareBuffer (text : Octets) : Octets :=
  escapeLines text ++ (if text ≠ [] ∧ text.getLast? ≠ some LF then [CR, LF] else []) ++ [46, CR, LF]

def Memory.copyContents (memory : Memory) (a : Nat) (text : Octets) (mapping : Option Mapping)
    (readable : Bool) :
    Memory :=
  let articlesize := text.length
  let memory :=
    if memory.maxBytesInUse.toNat < articlesize + memory.bytesInUse.toNat then
      freeOlder articlesize memory.chronList memory
    else memory
  let bytesInUse := memory.bytesInUse + UInt32.ofNat articlesize
  match memory.article a with
  | none => memory
  | some article =>
    let b := memory.next
    if readable then
      let contents := if format text = .native then nntpPrepareBuffer text else text
      let memory := { memory.newBuffer contents true with
        bytesInUse := bytesInUse + UInt32.ofNat (contents.length - articlesize) }
      let memory := mapping.elim memory memory.delMapInfo
      memory.setArticle a { article with
        contents := some b
        mapInfo := none
        articleOk := if format text = .munged then false else article.articleOk
        inWireFormat := if format text = .munged then article.inWireFormat else true }
    else
      let memory := mapping.elim memory memory.delMapInfo
      ({ memory.newBuffer [] true with bytesInUse := bytesInUse - UInt32.ofNat articlesize
        }).delBuffer b

def Memory.mapContents (memory : Memory) (text : Octets) (m : Mapping) : Memory :=
  let b := memory.next
  let memory := ({ memory with opened := m :: memory.opened }).getMapInfo m text.length
  ((memory.newBuffer text false).takeMapInfo m).bufferSetDeletedCbk b m

def Memory.fillContents (memory : Memory) (a : Nat) (stored : Stored) : Memory :=
  match memory.article a with
  | none => memory
  | some article =>
    match stored with
    | .missing => memory.setArticle a { article with articleOk := false }
    | .found text none readable => memory.copyContents a text none readable
    | .found text (some m) _ =>
      let b := memory.next
      let memory := memory.mapContents text m
      match format text with
      | .munged => (memory.delBuffer b).setArticle a { article with mapInfo := some m, articleOk := false }
      | .wire => memory.setArticle a { article with contents := some b, mapInfo := some m, inWireFormat := true }
      | .native => (memory.delBuffer b).copyContents a text (some m) true

def Memory.artGetContents (memory : Memory) (a : Nat) (stored : Stored) : Option Nat × Memory :=
  match memory.article a with
  | none => (none, memory)
  | some article =>
    if article.articleOk then
      let memory := if article.contents = none then memory.fillContents a stored else memory
      match (memory.article a).bind Article.contents with
      | some b => (some b, memory.bufferTakeRef b)
      | none => (none, memory)
    else
      (none, memory)

def bodyLines (text : Octets) : List Octets :=
  match pieces LF (text.takeWhile (· ≠ 0)) with
  | (lines, last) => if last = [] ∧ lines ≠ [] then lines else lines ++ [last]

def appendBuffers : List Octets → List Nat → Memory → List Nat × Memory
  | [], bs, memory => (bs, memory)
  | line :: rest, bs, memory =>
      appendBuffers rest (bs ++ [memory.next]) (memory.newBuffer line false)

def Memory.overlay (memory : Memory) (article : Article) (text : Octets) : List Nat × Memory :=
  if article.inWireFormat then
    let b := memory.next
    let memory := memory.newBuffer text false
    ([b], article.mapInfo.elim memory fun m => (memory.takeMapInfo m).bufferSetDeletedCbk b m)
  else
    let (bs, memory) := appendBuffers (bodyLines text) [] memory
    match memory.dotBuffer with
    | some dot => (bs ++ [dot], memory.bufferTakeRef dot)
    | none => (bs, memory)

def Memory.makeDotBuffer (memory : Memory) : Memory :=
  if memory.dotBuffer.isNone then
    { memory.newBuffer [46, CR, LF] false with dotBuffer := some memory.next }
  else memory

def Memory.prepareArticleForNNTP (memory : Memory) (a : Nat) (stored : Stored) : Bool × Memory :=
  match memory.artGetContents a stored with
  | (none, memory) => (false, memory)
  | (some contents, memory) =>
    match memory.article a with
    | none => (false, memory)
    | some article =>
      if article.nntpBuffers.isSome then
        (true, memory.delBuffer contents)
      else
        let memory := memory.makeDotBuffer
        let text := (memory.buffer contents).elim [] Buffer.text
        match memory.overlay article text with
        | (bs, memory) => (true,
            (memory.delBuffer contents).setArticle a { article with nntpBuffers := some bs })

def Memory.artGetNntpBuffers (memory : Memory) (a : Nat) (stored : Stored) : Memory :=
  match memory.prepareArticleForNNTP a stored with
  | (false, memory) => memory
  | (true, memory) =>
    let bs := ((memory.article a).bind Article.nntpBuffers).getD []
    { bs.foldl Memory.bufferTakeRef memory with held := bs ++ memory.held }

inductive Action
  | newArticle (fname msgid : Octets)
  | artTakeRef (a : Nat)
  | delArticle (a : Nat)
  /-- `artContentsOk`, `artNntpBufferCount` -/
  | artContentsOk (a : Nat) (stored : Stored)
  | artGetNntpBuffers (a : Nat) (stored : Stored)
  /-- A peer is done with a buffer. -/
  | delBuffer (b : Nat)

def Memory.live (memory : Memory) (m : Mapping) : Bool :=
    memory.released.count m < memory.opened.count m

def Stored.fits (memory : Memory) : Stored → Bool
  | .found _ (some m) _ => !memory.live m
  | _ => true

def step (memory : Memory) : Action → Memory
  | .newArticle fname msgid => memory.newArticle fname msgid
  | .artTakeRef a => memory.artTakeRef a
  | .delArticle a => memory.delArticle a
  | .artContentsOk a stored =>
      if stored.fits memory then (memory.prepareArticleForNNTP a stored).2 else memory
  | .artGetNntpBuffers a stored =>
      if stored.fits memory then memory.artGetNntpBuffers a stored else memory
  | .delBuffer b =>
    if b ∈ memory.held then ({ memory with held := memory.held.erase b }).delBuffer b else memory

def Memory.start (maxBytesInUse : UInt32) : Memory where
  article := fun _ => none
  hashTable := fun _ => []
  chronList := []
  buffer := fun _ => none
  gBufferList := []
  mapInfo := fun _ => none
  dotBuffer := none
  bytesInUse := 0
  articlesInUse := 0
  maxBytesInUse := maxBytesInUse
  next := 0
  held := []
  opened := []
  released := []

end Inn.Innfeed.Articles
