import Inn.Innfeed.ArticleRefs

/-!
# The article table

Every article is in the table under the hash of its message-ID, and in the chronological
list. The counters are the totals over the articles. What is done with buffers and
mappings keeps both.
-/

namespace Inn.Innfeed.Articles

open Foundation.Counting

def Memory.contentsSize (memory : Memory) (article : Article) : Nat :=
  if article.mapInfo = none then article.contents.elim 0 memory.bufferDataSize else 0

def Memory.total (memory : Memory) : Nat := tally memory.keys memory.article memory.contentsSize

/-- The hash chains and the list of all entries have the same articles. -/
structure Table (memory : Memory) : Prop where
  entry : ∀ h ∈ memory.chronList, ∃ article, memory.article h.article = some article ∧
    h.hash = hashString article.msgid
  bucket : ∀ i h, h ∈ memory.hashTable i ↔ h ∈ memory.chronList ∧ TABLE_ENTRY h.hash = i
  nodup : ∀ i, (memory.hashTable i).Nodup
  unique : ∀ a a' article article', memory.article a = some article →
    memory.article a' = some article' →
    article.msgid = article'.msgid → a = a'

structure Article.Sound (article : Article) : Prop where
  positive : 0 < article.refCount
  buffers : article.contents = none → article.nntpBuffers = none
  unmapped : article.contents = none → article.articleOk = true → article.mapInfo = none

/-- The counts are right while a caller holds the buffers `bs` and more. -/
structure Inv (memory : Memory) (bs : List Nat) (ms : List Mapping) (n : Nat) : Prop where
  refs : Referenced memory bs ms
  table : Table memory
  article : ∀ a article, memory.article a = some article → article.Sound
  bytes : memory.bytesInUse = UInt32.ofNat (memory.total + n)
  articles : memory.articlesInUse = UInt32.ofNat memory.keys.length

structure Keeps (memory memory' : Memory) : Prop where
  article : memory'.article = memory.article
  hashTable : memory'.hashTable = memory.hashTable
  chronList : memory'.chronList = memory.chronList
  articlesInUse : memory'.articlesInUse = memory.articlesInUse
  bytesInUse : memory'.bytesInUse = memory.bytesInUse
  held : memory'.held = memory.held
  dotBuffer : memory'.dotBuffer = memory.dotBuffer
  size : ∀ b, 0 < memory.bufferRefs b → memory'.bufferDataSize b = memory.bufferDataSize b

theorem Keeps.refl (memory : Memory) : Keeps memory memory :=
    ⟨rfl, rfl, rfl, rfl, rfl, rfl, rfl, fun _ _ => rfl⟩

theorem Keeps.keys {memory memory' : Memory} (hkeeps : Keeps memory memory') :
    memory'.keys = memory.keys := by
  rw [Memory.keys, hkeeps.chronList, Memory.keys]

theorem Keeps.bufferRefs {memory memory' : Memory} (hkeeps : Keeps memory memory') (b : Nat) :
    memory'.bufferRefs b = memory.bufferRefs b := by
  rw [Memory.bufferRefs, hkeeps.keys, hkeeps.article, hkeeps.held, hkeeps.dotBuffer,
    Memory.bufferRefs]

variable {memory memory' : Memory} {bs bs' : List Nat} {ms ms' : List Mapping} {n n' : Nat}

theorem Referenced.contents_pos (href : Referenced memory bs ms) {a b : Nat} {article : Article}
    (harticle : memory.article a = some article) (hcontents : article.contents = some b) :
    0 < memory.bufferRefs b := by
  have hkey : a ∈ memory.keys := (href.present a).mpr (by rw [harticle]; rfl)
  have hle : article.bufferRefs b ≤ tally memory.keys memory.article (Article.bufferRefs b) :=
    le_tally hkey harticle
  have hone : 1 ≤ article.bufferRefs b := by
    rw [Article.bufferRefs, hcontents, Option.toList_some, List.count_singleton_self]
    exact Nat.le_add_right 1 _
  rw [Memory.bufferRefs]
  omega

theorem Keeps.total (hkeeps : Keeps memory memory') (href : Referenced memory bs ms) :
    memory'.total = memory.total := by
  rw [Memory.total, Memory.total, hkeeps.keys, hkeeps.article]
  refine tally_congr fun a _ => ?_
  cases harticle : memory.article a with
  | none => rfl
  | some article =>
    change memory'.contentsSize article = memory.contentsSize article
    rw [Memory.contentsSize, Memory.contentsSize]
    cases hcontents : article.contents with
    | none => rfl
    | some b =>
      change (if article.mapInfo = none then memory'.bufferDataSize b else 0) =
        if article.mapInfo = none then memory.bufferDataSize b else 0
      rw [hkeeps.size b (href.contents_pos harticle hcontents)]

theorem Keeps.table (hkeeps : Keeps memory memory') (htable : Table memory) : Table memory' := by
  refine ⟨?_, ?_, ?_, ?_⟩
  · rw [hkeeps.chronList, hkeeps.article]
    exact htable.entry
  · rw [hkeeps.hashTable, hkeeps.chronList]
    exact htable.bucket
  · rw [hkeeps.hashTable]
    exact htable.nodup
  · rw [hkeeps.article]
    exact htable.unique

theorem Inv.keep (hinv : Inv memory bs ms n) (hkeeps : Keeps memory memory')
    (href : Referenced memory' bs' ms') :
    Inv memory' bs' ms' n := by
  refine ⟨href, hkeeps.table hinv.table, ?_, ?_, ?_⟩
  · rw [hkeeps.article]
    exact hinv.article
  · rw [hkeeps.bytesInUse, hkeeps.total hinv.refs]
    exact hinv.bytes
  · rw [hkeeps.articlesInUse, hkeeps.keys]
    exact hinv.articles

theorem keeps_newBuffer (href : Referenced memory bs ms) (text : Octets) (deletable : Bool) :
    Keeps memory (memory.newBuffer text deletable) := by
  refine ⟨rfl, rfl, rfl, rfl, rfl, rfl, rfl, fun b hb => ?_⟩
  have hne : b ≠ memory.next := by
    rintro rfl
    have hzero := bufferRefs_zero href (href.fresh memory.next (Nat.le_refl _)).1
    omega
  change (Function.update memory.buffer memory.next (some _) b).elim 0 _ = _
  rw [Function.update_of_ne hne]
  rfl

theorem takeMapInfo_buffer (memory : Memory) (m : Mapping) :
    (memory.takeMapInfo m).buffer = memory.buffer := by
  unfold Memory.takeMapInfo
  split <;> rfl

theorem delMapInfo_buffer (memory : Memory) (m : Mapping) :
    (memory.delMapInfo m).buffer = memory.buffer := by
  unfold Memory.delMapInfo
  split
  · rfl
  · split <;> rfl

theorem setBuffer_bufferDataSize {b : Nat} {old new : Buffer} (hold : memory.buffer b = some old)
    (htext : new.text = old.text) (b' : Nat) :
    (memory.setBuffer b new).bufferDataSize b' = memory.bufferDataSize b' := by
  change (Function.update memory.buffer b (some new) b').elim 0 _ = (memory.buffer b').elim 0 _
  by_cases h : b' = b
  · rw [h, Function.update_self, hold]
    exact congrArg List.length htext
  · rw [Function.update_of_ne h]

theorem keeps_setBuffer {b : Nat} {old new : Buffer} (hold : memory.buffer b = some old)
    (htext : new.text = old.text) :
    Keeps memory (memory.setBuffer b new) :=
  ⟨rfl, rfl, rfl, rfl, rfl, rfl, rfl, fun b' _ => setBuffer_bufferDataSize hold htext b'⟩

theorem keeps_bufferTakeRef (memory : Memory) (b : Nat) :
    Keeps memory (memory.bufferTakeRef b) := by
  unfold Memory.bufferTakeRef
  split
  next hbuffer => exact keeps_setBuffer hbuffer rfl
  · exact Keeps.refl memory

theorem keeps_bufferSetDeletedCbk (memory : Memory) (b : Nat) (m : Mapping) :
    Keeps memory (memory.bufferSetDeletedCbk b m) := by
  unfold Memory.bufferSetDeletedCbk
  split
  next hbuffer => exact keeps_setBuffer hbuffer rfl
  · exact Keeps.refl memory

theorem keeps_getMapInfo (memory : Memory) (m : Mapping) (size : Nat) :
    Keeps memory (({ memory with opened := m :: memory.opened }).getMapInfo m size) := by
  unfold Memory.getMapInfo
  split <;> exact ⟨rfl, rfl, rfl, rfl, rfl, rfl, rfl, fun _ _ => rfl⟩

theorem keeps_takeMapInfo (memory : Memory) (m : Mapping) :
    Keeps memory (memory.takeMapInfo m) := by
  unfold Memory.takeMapInfo
  split <;> exact ⟨rfl, rfl, rfl, rfl, rfl, rfl, rfl, fun _ _ => rfl⟩

theorem keeps_delMapInfo (memory : Memory) (m : Mapping) : Keeps memory (memory.delMapInfo m) := by
  unfold Memory.delMapInfo
  split
  · exact Keeps.refl memory
  · split <;> exact ⟨rfl, rfl, rfl, rfl, rfl, rfl, rfl, fun _ _ => rfl⟩

theorem Referenced.delBuffer_bufferDataSize {b b' : Nat} (href : Referenced memory (b :: bs) ms)
    (hpos : 0 < memory.bufferRefs b' + bs.count b') :
    (memory.delBuffer b).bufferDataSize b' = memory.bufferDataSize b' := by
  unfold Memory.delBuffer
  split
  · rfl
  next buffer hbuffer =>
    split
    · refine setBuffer_bufferDataSize hbuffer ?_ b'
      rfl
    next hlast =>
      have hcount := (href.buffer.eq_some (k := b) (n := buffer.refCount) (by rw [hbuffer]; rfl)).1
      have hne : b' ≠ b := by
        rintro rfl
        rw [List.count_cons_self] at hcount
        omega
      have hfree :
          (Function.update memory.buffer b none b').elim 0 (fun buffer => buffer.text.length) =
          memory.bufferDataSize b' := by
        rw [Function.update_of_ne hne]
        rfl
      simp only
      split
      · rw [← hfree, Memory.bufferDataSize, delMapInfo_buffer]
      · exact hfree

theorem delMapInfo_article (memory : Memory) (m : Mapping) :
    (memory.delMapInfo m).article = memory.article :=
  (keeps_delMapInfo memory m).article

theorem delBuffer_article (memory : Memory) (b : Nat) :
    (memory.delBuffer b).article = memory.article := by
  unfold Memory.delBuffer
  split
  · rfl
  · split
    · rfl
    · simp only
      split
      · exact delMapInfo_article _ _
      · rfl

theorem freeBufferArray_article (memory : Memory) (bs : List Nat) :
    (memory.freeBufferArray bs).article = memory.article := by
  induction bs generalizing memory with
  | nil => rfl
  | cons b bs ih => exact (ih (memory.delBuffer b)).trans (delBuffer_article memory b)

theorem keeps_delBuffer {b : Nat} (href : Referenced memory (b :: bs) ms) :
    Keeps memory (memory.delBuffer b) := by
  refine ⟨?_, ?_, ?_, ?_, ?_, ?_, ?_, fun b' hb' => href.delBuffer_bufferDataSize (by omega)⟩
  all_goals
    unfold Memory.delBuffer
    split
    · rfl
    · split
      · rfl
      · simp only
        split
        next m _ =>
          unfold Memory.delMapInfo
          split
          · rfl
          · split <;> rfl
        · rfl

theorem Inv.delBuffer {b : Nat} (hinv : Inv memory (b :: bs) ms n) :
    Inv (memory.delBuffer b) bs ms n :=
  hinv.keep (keeps_delBuffer hinv.refs) hinv.refs.delBuffer

theorem Inv.newBuffer (hinv : Inv memory bs ms n) (text : Octets) (deletable : Bool) :
    Inv (memory.newBuffer text deletable) (memory.next :: bs) ms n :=
  hinv.keep (keeps_newBuffer hinv.refs text deletable) (hinv.refs.newBuffer text deletable)

theorem Inv.bufferTakeRef (hinv : Inv memory bs ms n) {b : Nat}
    (hpos : 0 < memory.bufferRefs b + bs.count b) :
    Inv (memory.bufferTakeRef b) (b :: bs) ms n :=
  hinv.keep (keeps_bufferTakeRef memory b) (hinv.refs.bufferTakeRef hpos)

theorem Inv.delMapInfo {m : Mapping} (hinv : Inv memory bs (m :: ms) n) :
    Inv (memory.delMapInfo m) bs ms n :=
  hinv.keep (keeps_delMapInfo memory m) hinv.refs.delMapInfo

theorem Inv.getMapInfo (hinv : Inv memory bs ms n) {m : Mapping} (hnone : memory.mapInfo m = none)
    (size : Nat) :
    Inv (({ memory with opened := m :: memory.opened }).getMapInfo m size) bs (m :: ms) n :=
  hinv.keep (keeps_getMapInfo memory m size) (hinv.refs.getMapInfo hnone size)

theorem Inv.takeMapInfo (hinv : Inv memory bs ms n) {m : Mapping}
    (hpos : 0 < memory.mappingRefs m + ms.count m) :
    Inv (memory.takeMapInfo m) bs (m :: ms) n :=
  hinv.keep (keeps_takeMapInfo memory m) (hinv.refs.takeMapInfo hpos)

theorem Inv.bufferSetDeletedCbk {m : Mapping} (hinv : Inv memory bs (m :: ms) n) {b : Nat}
    {buffer : Buffer}
    (hbuffer : memory.buffer b = some buffer) (hcbk : buffer.bufferDeletedCbk = none) :
    Inv (memory.bufferSetDeletedCbk b m) bs ms n :=
  hinv.keep (keeps_bufferSetDeletedCbk memory b m) (hinv.refs.bufferSetDeletedCbk hbuffer hcbk)

theorem Inv.freeBufferArray {bs₀ : List Nat} (hinv : Inv memory (bs₀ ++ bs) ms n) :
    Inv (memory.freeBufferArray bs₀) bs ms n := by
  induction bs₀ generalizing memory with
  | nil => exact hinv
  | cons b bs₀ ih => exact ih hinv.delBuffer

end Inn.Innfeed.Articles
