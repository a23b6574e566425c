import Inn.Foundation.Counting
import Inn.Innfeed.Article

/-!
# References to buffers and mappings

A buffer counts the articles, the peers and the local variables that refer to it, and a
mapping counts the articles and the buffers. What a function holds in local variables
is a list of its own, so that each primitive moves a reference from one place to another.
-/

namespace Inn.Innfeed.Articles

open Foundation.Counting
open Function (update update_self update_of_ne)

def Article.bufferRefs (b : Nat) (article : Article) : Nat :=
  article.contents.toList.count b + (article.nntpBuffers.getD []).count b

def Article.mappingRefs (m : Mapping) (article : Article) : Nat := article.mapInfo.toList.count m

def Buffer.mappingRefs (m : Mapping) (buffer : Buffer) : Nat :=
    buffer.bufferDeletedCbk.toList.count m

def Memory.keys (memory : Memory) : List Nat := memory.chronList.map HashEntry.article

def Memory.bufferRefs (memory : Memory) (b : Nat) : Nat :=
  tally memory.keys memory.article (Article.bufferRefs b) + memory.held.count b +
    memory.dotBuffer.toList.count b

def Memory.mappingRefs (memory : Memory) (m : Mapping) : Nat :=
  tally memory.keys memory.article (Article.mappingRefs m) + tally memory.gBufferList memory.buffer
    (Buffer.mappingRefs m)

/-- Every count of references is the number of references there are. -/
structure Referenced (memory : Memory) (bs : List Nat) (ms : List Mapping) : Prop where
  keys : memory.keys.Nodup
  present : ∀ a, a ∈ memory.keys ↔ (memory.article a).isSome = true
  buffers : memory.gBufferList.Nodup
  listed : ∀ b, b ∈ memory.gBufferList ↔ (memory.buffer b).isSome = true
  buffer : Counted (fun b => (memory.buffer b).map Buffer.refCount) fun b =>
    memory.bufferRefs b + bs.count b
  mapping : Counted (fun m => (memory.mapInfo m).map MapInfo.refCount) fun m =>
    memory.mappingRefs m + ms.count m
  released : ∀ m, memory.opened.count m = memory.released.count m + (memory.mapInfo m).toList.length
  fresh : ∀ b, memory.next ≤ b → memory.buffer b = none ∧ memory.article b = none

variable {memory : Memory} {bs bs' : List Nat} {ms ms' : List Mapping}

theorem Referenced.congr (href : Referenced memory bs ms) (hbs : ∀ b, bs'.count b = bs.count b)
    (hms : ∀ m, ms'.count m = ms.count m) : Referenced memory bs' ms' :=
  { href with
    buffer := href.buffer.congr fun b => by rw [hbs b]
    mapping := href.mapping.congr fun m => by rw [hms m] }

theorem Referenced.perm (href : Referenced memory bs ms) (hbs : bs'.Perm bs) :
    Referenced memory bs' ms :=
  href.congr (fun b => hbs.count_eq b) fun _ => rfl

section Update

variable {κ α β : Type} [DecidableEq κ] {heap : κ → Option α} {k : κ} {v : α}

theorem isSome_update (hk : (heap k).isSome = true) (v : α) (k' : κ) :
    (update heap k (some v) k').isSome = (heap k').isSome := by
  by_cases h : k' = k
  · rw [h, update_self, hk]
    rfl
  · rw [update_of_ne h]

theorem update_eq_none (hk : (heap k).isSome = true) (v : α) {k' : κ} (hnone : heap k' = none) :
    update heap k (some v) k' = none := by
  rw [← Option.isNone_iff_eq_none, ← Option.not_isSome, isSome_update hk, hnone]
  rfl

theorem map_update (heap : κ → Option α) (k : κ) (o : Option α) (f : α → β) :
    (fun k' => (update heap k o k').map f) = update (fun k' => (heap k').map f) k (o.map f) := by
  funext k'
  by_cases h : k' = k
  · rw [h, update_self, update_self]
  · rw [update_of_ne h, update_of_ne h]

end Update

theorem Referenced.setArticle (href : Referenced memory bs ms) {a : Nat} {old new : Article}
    (hold : memory.article a = some old)
    (hbuffers : ∀ b, new.bufferRefs b + bs'.count b = old.bufferRefs b + bs.count b)
    (hmappings : ∀ m, new.mappingRefs m + ms'.count m = old.mappingRefs m + ms.count m) :
    Referenced (memory.setArticle a new) bs' ms' := by
  have hkey : a ∈ memory.keys := (href.present a).mpr (by rw [hold]; rfl)
  have htally : ∀ f, tally memory.keys (update memory.article a (some new)) f + f old =
      tally memory.keys memory.article f + f new := fun f => tally_update href.keys hkey hold new
  have hsome : (memory.article a).isSome = true := by rw [hold]; rfl
  refine ⟨href.keys, fun k => ?_, href.buffers, href.listed, ?_, ?_, href.released, fun b hb => ?_⟩
  · change k ∈ memory.keys ↔ (update memory.article a (some new) k).isSome = true
    rw [isSome_update hsome]
    exact href.present k
  · refine href.buffer.congr fun b => ?_
    have hb := htally (Article.bufferRefs b)
    have hmove := hbuffers b
    change tally memory.keys (update memory.article a (some new)) _ + memory.held.count b +
      memory.dotBuffer.toList.count b + bs'.count b = tally memory.keys memory.article _ +
        memory.held.count b +
        memory.dotBuffer.toList.count b + bs.count b
    omega
  · refine href.mapping.congr fun m => ?_
    have hm := htally (Article.mappingRefs m)
    have hmove := hmappings m
    change tally memory.keys (update memory.article a (some new)) _ + _ + ms'.count m =
      tally memory.keys memory.article _ + _ + ms.count m
    change _ + tally memory.gBufferList memory.buffer _ + ms'.count m =
      _ + tally memory.gBufferList memory.buffer _ + ms.count m
    omega
  · exact ⟨(href.fresh b hb).1, update_eq_none hsome new (href.fresh b hb).2⟩

theorem Referenced.setBuffer (href : Referenced memory bs ms) {b : Nat} {old new : Buffer}
    (hold : memory.buffer b = some old)
    (hcbk : ∀ m, new.mappingRefs m + ms'.count m = old.mappingRefs m + ms.count m)
    (hcount : Counted (update (fun b => (memory.buffer b).map Buffer.refCount) b
      (some new.refCount))
      fun b => memory.bufferRefs b + bs'.count b) :
        Referenced (memory.setBuffer b new) bs' ms' := by
  have hlisted : b ∈ memory.gBufferList := (href.listed b).mpr (by rw [hold]; rfl)
  have hsome : (memory.buffer b).isSome = true := by rw [hold]; rfl
  refine ⟨href.keys, href.present, href.buffers, fun k => ?_, ?_, ?_, href.released, fun k hk => ?_⟩
  · change k ∈ memory.gBufferList ↔ (update memory.buffer b (some new) k).isSome = true
    rw [isSome_update hsome]
    exact href.listed k
  · rw [Memory.setBuffer, map_update]
    exact hcount
  · refine href.mapping.congr fun m => ?_
    have hm : tally memory.gBufferList (update memory.buffer b (some new)) (Buffer.mappingRefs m) +
        old.mappingRefs m = tally memory.gBufferList memory.buffer (Buffer.mappingRefs m) +
          new.mappingRefs m :=
      tally_update href.buffers hlisted hold new
    have hmove := hcbk m
    change tally memory.keys memory.article _ +
      tally memory.gBufferList (update memory.buffer b (some new)) _ + ms'.count m =
        tally memory.keys memory.article _ + tally memory.gBufferList memory.buffer _ + ms.count m
    omega
  · exact ⟨update_eq_none hsome new (href.fresh k hk).1, (href.fresh k hk).2⟩

theorem count_cons_eq {κ : Type} [DecidableEq κ] (k k' : κ) (l : List κ) :
    (k :: l).count k' = l.count k' + if k' = k then 1 else 0 := by
  rw [List.count_cons]
  congr 1
  by_cases h : k' = k
  · rw [if_pos h, if_pos (beq_iff_eq.mpr h.symm)]
  · rw [if_neg h, if_neg fun heq => h (beq_iff_eq.mp heq).symm]

theorem Referenced.setMapInfo (href : Referenced memory bs ms) {mapInfo : Mapping → Option MapInfo}
    {opened released : List Mapping}
    (hcount : Counted (fun m => (mapInfo m).map MapInfo.refCount) fun m =>
      memory.mappingRefs m + ms'.count m)
    (hreleased : ∀ m, opened.count m = released.count m + (mapInfo m).toList.length) :
    Referenced { memory with mapInfo := mapInfo, opened := opened, released := released } bs ms' :=
  ⟨href.keys, href.present, href.buffers, href.listed, href.buffer, hcount, hreleased, href.fresh⟩

theorem Referenced.takeMapInfo (href : Referenced memory bs ms) {m : Mapping}
    (hpos : 0 < memory.mappingRefs m + ms.count m) :
    Referenced (memory.takeMapInfo m) bs (m :: ms) := by
  have hcount := href.mapping.exists_of_pos hpos
  obtain ⟨info, hinfo, hrefs⟩ := Option.map_eq_some_iff.mp hcount
  unfold Memory.takeMapInfo
  rw [hinfo]
  refine href.setMapInfo ?_ fun m' => ?_
  · rw [map_update]
    have htake := href.mapping.take m
    rw [← hrefs] at htake
    exact htake.congr fun m' => by rw [count_cons_eq, Nat.add_assoc]
  · rw [href.released m']
    by_cases h : m' = m
    · rw [h, update_self, hinfo]
      rfl
    · rw [update_of_ne h]

theorem Referenced.getMapInfo (href : Referenced memory bs ms) {m : Mapping}
    (hnone : memory.mapInfo m = none)
    (size : Nat) : Referenced (({ memory with opened := m :: memory.opened }).getMapInfo m size) bs
    (m :: ms) := by
  have hzero : memory.mappingRefs m + ms.count m = 0 := href.mapping.eq_none (by rw [hnone]; rfl)
  unfold Memory.getMapInfo
  simp only [hnone]
  refine href.setMapInfo ?_ fun m' => ?_
  · rw [map_update]
    have htake := href.mapping.take m
    rw [hzero] at htake
    exact htake.congr fun m' => by rw [count_cons_eq, Nat.add_assoc]
  · rw [count_cons_eq, href.released m']
    by_cases h : m' = m
    · rw [h, update_self, hnone, if_pos rfl]
      rfl
    · rw [update_of_ne h, if_neg h]
      rfl

theorem Referenced.delMapInfo {m : Mapping} (href : Referenced memory bs (m :: ms)) :
    Referenced (memory.delMapInfo m) bs ms := by
  have hrefs : ∀ m', memory.mappingRefs m' + (m :: ms).count m' =
      memory.mappingRefs m' + ms.count m' + if m' = m then 1 else 0 := fun m' => by
    rw [count_cons_eq, Nat.add_assoc]
  have hself := hrefs m
  rw [if_pos rfl] at hself
  have hcount := href.mapping.exists_of_pos (k := m) (by omega)
  obtain ⟨info, hinfo, hrefCount⟩ := Option.map_eq_some_iff.mp hcount
  have hrelease := Counted.release hrefs href.mapping
  unfold Memory.delMapInfo
  rw [hinfo]
  simp only
  split
  next hmore =>
    refine href.setMapInfo ?_ fun m' => ?_
    · rw [if_neg (by omega)] at hrelease
      rw [map_update, show (some { info with refCount := info.refCount - 1 } : Option MapInfo).map
        MapInfo.refCount =
        some (memory.mappingRefs m + ms.count m) from congrArg some
          (by change info.refCount - 1 = _; omega)]
      exact hrelease
    · rw [href.released m']
      by_cases h : m' = m
      · rw [h, update_self, hinfo]
        rfl
      · rw [update_of_ne h]
  next hlast =>
    refine href.setMapInfo ?_ fun m' => ?_
    · rw [if_pos (by omega)] at hrelease
      rw [map_update]
      exact hrelease
    · rw [href.released m', count_cons_eq]
      by_cases h : m' = m
      · rw [h, update_self, hinfo, if_pos rfl]
        rfl
      · rw [update_of_ne h, if_neg h]
        rfl

theorem bufferRefs_zero (href : Referenced memory bs ms) {b : Nat}
    (hnone : memory.buffer b = none) :
    memory.bufferRefs b + bs.count b = 0 :=
  href.buffer.eq_none (by rw [hnone]; rfl)

theorem Referenced.newBuffer (href : Referenced memory bs ms) (text : Octets) (deletable : Bool) :
    Referenced (memory.newBuffer text deletable) (memory.next :: bs) ms := by
  have hnone := (href.fresh memory.next (Nat.le_refl _)).1
  have hnot : memory.next ∉ memory.gBufferList := by
    rw [href.listed, hnone]
    nofun
  refine ⟨href.keys, href.present, List.nodup_cons.mpr ⟨hnot, href.buffers⟩, fun b => ?_, ?_, ?_,
    href.released, fun b hb => ?_⟩
  · change b ∈ memory.next :: memory.gBufferList ↔
      (update memory.buffer memory.next (some _) b).isSome = true
    rw [List.mem_cons]
    by_cases h : b = memory.next
    · rw [h, update_self]
      exact iff_of_true (.inl rfl) rfl
    · rw [update_of_ne h, ← href.listed b]
      exact or_iff_right h
  · change Counted (fun b => (update memory.buffer memory.next (some _) b).map Buffer.refCount) _
    rw [map_update]
    have htake := href.buffer.take memory.next
    rw [bufferRefs_zero href hnone] at htake
    exact htake.congr fun b => by rw [count_cons_eq, Nat.add_assoc]; rfl
  · refine href.mapping.congr fun m => ?_
    have hm : tally (memory.next :: memory.gBufferList)
        (update memory.buffer memory.next (some ⟨1, text, deletable, none⟩))
          (Buffer.mappingRefs m) =
          0 + tally memory.gBufferList memory.buffer (Buffer.mappingRefs m) := tally_cons hnot
    change tally memory.keys memory.article _ + tally (memory.next :: memory.gBufferList)
      (update memory.buffer memory.next (some ⟨1, text, deletable, none⟩)) _ + ms.count m = _
    rw [hm, Nat.zero_add]
    rfl
  · change memory.next + 1 ≤ b at hb
    refine ⟨?_, (href.fresh b (by omega)).2⟩
    change update memory.buffer memory.next (some _) b = none
    rw [update_of_ne (by omega)]
    exact (href.fresh b (by omega)).1

theorem Referenced.bufferTakeRef (href : Referenced memory bs ms) {b : Nat}
    (hpos : 0 < memory.bufferRefs b + bs.count b) :
    Referenced (memory.bufferTakeRef b) (b :: bs) ms := by
  have hcount := href.buffer.exists_of_pos hpos
  obtain ⟨buffer, hbuffer, hrefs⟩ := Option.map_eq_some_iff.mp hcount
  unfold Memory.bufferTakeRef
  rw [hbuffer]
  refine href.setBuffer hbuffer (fun m => rfl) ?_
  have htake := href.buffer.take b
  rw [← hrefs] at htake
  exact htake.congr fun b' => by rw [count_cons_eq, Nat.add_assoc]

theorem Referenced.bufferSetDeletedCbk {m : Mapping} (href : Referenced memory bs (m :: ms))
    {b : Nat} {buffer : Buffer}
    (hbuffer : memory.buffer b = some buffer) (hcbk : buffer.bufferDeletedCbk = none) :
    Referenced (memory.bufferSetDeletedCbk b m) bs ms := by
  unfold Memory.bufferSetDeletedCbk
  rw [hbuffer]
  refine href.setBuffer hbuffer (fun m' => ?_) ?_
  · change [m].count m' + ms.count m' = buffer.bufferDeletedCbk.toList.count m' + (m :: ms).count m'
    rw [hcbk, count_cons_eq, count_cons_eq]
    change 0 + _ + _ = 0 + _
    omega
  · have hself : (memory.buffer b).map Buffer.refCount = some buffer.refCount := by
      rw [hbuffer]; rfl
    rw [← hself, Function.update_eq_self_iff.mpr rfl]
    exact href.buffer

theorem Referenced.free {b : Nat} {buffer : Buffer} (href : Referenced memory bs ms)
    (hbuffer : memory.buffer b = some buffer)
    (hcount : Counted (update (fun b => (memory.buffer b).map Buffer.refCount) b none)
      fun b => memory.bufferRefs b + bs'.count b) :
    Referenced { memory with
      buffer := update memory.buffer b none, gBufferList := memory.gBufferList.erase b }
      bs' (buffer.bufferDeletedCbk.toList ++ ms) := by
  have hlisted : b ∈ memory.gBufferList := (href.listed b).mpr (by rw [hbuffer]; rfl)
  refine ⟨href.keys, href.present, href.buffers.erase b, fun k => ?_, ?_, ?_, href.released,
    fun k hk => ?_⟩
  · change k ∈ memory.gBufferList.erase b ↔ (update memory.buffer b none k).isSome = true
    rw [href.buffers.mem_erase_iff]
    by_cases h : k = b
    · rw [h, update_self]
      exact iff_of_false (fun h => h.1 rfl) nofun
    · rw [update_of_ne h, ← href.listed k]
      exact and_iff_right h
  · change Counted (fun k => (update memory.buffer b none k).map Buffer.refCount) _
    rw [map_update]
    exact hcount
  · refine href.mapping.congr fun m => ?_
    have hm :
        tally (memory.gBufferList.erase b) (update memory.buffer b none) (Buffer.mappingRefs m) +
        buffer.bufferDeletedCbk.toList.count m =
          tally memory.gBufferList memory.buffer (Buffer.mappingRefs m) :=
      tally_erase href.buffers hlisted hbuffer
    change tally memory.keys memory.article _ +
      tally (memory.gBufferList.erase b) (update memory.buffer b none) _ +
        (buffer.bufferDeletedCbk.toList ++ ms).count m =
          tally memory.keys memory.article _ + tally memory.gBufferList memory.buffer _ + ms.count m
    rw [List.count_append]
    omega
  · refine ⟨?_, (href.fresh k hk).2⟩
    change update memory.buffer b none k = none
    by_cases h : k = b
    · rw [h, update_self]
    · rw [update_of_ne h]
      exact (href.fresh k hk).1

theorem Referenced.delBuffer {b : Nat} (href : Referenced memory (b :: bs) ms) :
    Referenced (memory.delBuffer b) bs ms := by
  have hrefs : ∀ b', memory.bufferRefs b' + (b :: bs).count b' =
      memory.bufferRefs b' + bs.count b' + if b' = b then 1 else 0 := fun b' => by
    rw [count_cons_eq, Nat.add_assoc]
  have hself := hrefs b
  rw [if_pos rfl] at hself
  have hcount := href.buffer.exists_of_pos (k := b) (by omega)
  obtain ⟨buffer, hbuffer, hrefCount⟩ := Option.map_eq_some_iff.mp hcount
  have hrelease := Counted.release hrefs href.buffer
  unfold Memory.delBuffer
  rw [hbuffer]
  simp only
  split
  next hmore =>
    rw [if_neg (by omega),
      show memory.bufferRefs b + bs.count b = buffer.refCount - 1 by omega] at hrelease
    exact href.setBuffer hbuffer (fun m => rfl) hrelease
  next hlast =>
    rw [if_pos (by omega)] at hrelease
    have hfree := href.free hbuffer hrelease
    split
    next m hcbk =>
      rw [hcbk] at hfree
      exact hfree.delMapInfo
    next hcbk =>
      rw [hcbk] at hfree
      exact hfree

theorem Referenced.hold {held' : List Nat} (href : Referenced memory bs ms)
    (hcount : ∀ b, held'.count b + bs'.count b = memory.held.count b + bs.count b) :
    Referenced { memory with held := held' } bs' ms :=
  ⟨href.keys, href.present, href.buffers, href.listed, href.buffer.congr fun b => by
    have hb := hcount b
    change tally memory.keys memory.article _ + held'.count b +
      memory.dotBuffer.toList.count b + bs'.count b =
      tally memory.keys memory.article _ + memory.held.count b +
        memory.dotBuffer.toList.count b + bs.count b
    omega, href.mapping, href.released, href.fresh⟩

theorem Referenced.setDotBuffer {b : Nat} (href : Referenced memory (b :: bs) ms)
    (hnone : memory.dotBuffer = none) :
    Referenced { memory with dotBuffer := some b } bs ms :=
  ⟨href.keys, href.present, href.buffers, href.listed, href.buffer.congr fun b' => by
    change tally memory.keys memory.article _ + memory.held.count b' + [b].count b' + bs.count b' =
      tally memory.keys memory.article _ + memory.held.count b' + memory.dotBuffer.toList.count b' +
        (b :: bs).count b'
    rw [hnone, count_cons_eq b b' bs, count_cons_eq b b' []]
    change _ + _ + (0 + _) + _ = _ + _ + 0 + _
    omega, href.mapping, href.released, href.fresh⟩

end Inn.Innfeed.Articles
