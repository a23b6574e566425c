import Inn.Foundation.Runs
import Inn.Innfeed.ArticleContents

/-!
# Articles over a run

Articles are made, shared, filled and given up in any order. The table has the articles
that are referred to, the counters are their totals, and a mapping is released with the
last reference to it, unless an article that refers to one is freed without contents.
-/

namespace Inn.Innfeed.Articles

open Function (update update_self update_of_ne)
open Foundation.Counting Foundation.Runs

variable {memory : Memory} {bs : List Nat} {ms : List Mapping}

theorem Inv.hashFindEntry {n : Nat} (hinv : Inv memory bs ms n) {a : Nat} {article : Article}
    (harticle : memory.article a = some article) :
    ∃ h, memory.hashFindEntry article.msgid = some h ∧ h ∈ memory.chronList ∧ h.article = a ∧
      h.hash = hashString article.msgid := by
  have hkey : a ∈ memory.keys := (hinv.refs.present a).mpr (by rw [harticle]; rfl)
  obtain ⟨h, hh, rfl⟩ := List.mem_map.mp hkey
  obtain ⟨article', harticle', hhash⟩ := hinv.table.entry h hh
  cases harticle.symm.trans harticle'
  have hbucket :=
    (hinv.table.bucket (TABLE_ENTRY (hashString article.msgid)) h).mpr ⟨hh, by rw [hhash]⟩
  have hentry : memory.isEntry article.msgid h = true := by
    rw [Memory.isEntry, hhash, harticle]
    exact Bool.and_eq_true_iff.mpr ⟨decide_eq_true rfl, decide_eq_true rfl⟩
  obtain ⟨h', hfind⟩ := Option.isSome_iff_exists.mp (List.find?_isSome.mpr ⟨h, hbucket, hentry⟩)
  have hmem := ((hinv.table.bucket _ h').mp (List.mem_of_find?_eq_some hfind)).1
  have hsame := List.find?_some hfind
  rw [Memory.isEntry, Bool.and_eq_true_iff, decide_eq_true_iff] at hsame
  obtain ⟨article', harticle', hmsgid⟩ := (Option.any_eq_true _ _).mp hsame.2
  exact ⟨h', hfind, hmem,
    hinv.table.unique _ _ _ _ harticle' harticle (decide_eq_true_iff.mp hmsgid), hsame.1.symm⟩

theorem Inv.hashFindArticle_iff {n : Nat} (hinv : Inv memory bs ms n) {a : Nat} {msgid : Octets} :
    memory.hashFindArticle msgid = some a ↔ ∃ article, memory.article a = some article ∧
      article.msgid = msgid := by
  constructor
  · intro hfind
    obtain ⟨h, hfound, rfl⟩ := Option.map_eq_some_iff.mp hfind
    have hsame := List.find?_some hfound
    rw [Memory.isEntry, Bool.and_eq_true_iff] at hsame
    obtain ⟨article, harticle, hmsgid⟩ := (Option.any_eq_true _ _).mp hsame.2
    exact ⟨article, harticle, decide_eq_true_iff.mp hmsgid⟩
  · rintro ⟨article, harticle, rfl⟩
    obtain ⟨h, hfind, _, rfl, _⟩ := hinv.hashFindEntry harticle
    rw [Memory.hashFindArticle, hfind]
    rfl

theorem Inv.mem_table {n : Nat} (hinv : Inv memory bs ms n) (a : Nat) :
    (∃ i, ∃ h ∈ memory.hashTable i, h.article = a) ↔ (memory.article a).isSome = true := by
  rw [← hinv.refs.present a, Memory.keys, List.mem_map]
  constructor
  · rintro ⟨i, h, hh, rfl⟩
    exact ⟨h, ((hinv.table.bucket i h).mp hh).1, rfl⟩
  · rintro ⟨h, hh, rfl⟩
    exact ⟨_, h, (hinv.table.bucket _ h).mpr ⟨hh, rfl⟩, rfl⟩

def freshArticle (fname msgid : Octets) : Article :=
    ⟨1, fname, msgid, none, none, none, true, false⟩

def Memory.addArticle (memory : Memory) (fname msgid : Octets) : Memory :=
  Memory.hashAddArticle { memory.setArticle memory.next (freshArticle fname msgid) with
    articlesInUse := memory.articlesInUse + 1
    next := memory.next + 1 } memory.next msgid

theorem Referenced.addArticle (href : Referenced memory bs ms) (fname msgid : Octets) :
    Referenced (memory.addArticle fname msgid) bs ms := by
  have hnone := (href.fresh memory.next (Nat.le_refl _)).2
  have hnot : memory.next ∉ memory.keys := by
    rw [href.present, hnone]
    nofun
  have htally : ∀ f : Article → Nat, f (freshArticle fname msgid) = 0 →
      tally (memory.next :: memory.keys)
        (update memory.article memory.next (some (freshArticle fname msgid))) f =
        tally memory.keys memory.article f := fun f hf => by rw [tally_cons hnot, hf, Nat.zero_add]
  refine ⟨List.nodup_cons.mpr ⟨hnot, href.keys⟩, fun a => ?_, href.buffers, href.listed, ?_, ?_,
    href.released, fun b hb => ?_⟩
  · change a ∈ memory.next :: memory.keys ↔
      (update memory.article memory.next (some _) a).isSome = true
    rw [List.mem_cons]
    by_cases h : a = memory.next
    · rw [h, update_self]
      exact iff_of_true (.inl rfl) rfl
    · rw [update_of_ne h, ← href.present a]
      exact or_iff_right h
  · refine href.buffer.congr fun b => ?_
    change tally (memory.next :: memory.keys) (update memory.article memory.next (some _)) _ + _ +
      _ + bs.count b = _
    rw [htally _ rfl]
    rfl
  · refine href.mapping.congr fun m => ?_
    change tally (memory.next :: memory.keys) (update memory.article memory.next (some _)) _ + _ +
      ms.count m = _
    rw [htally _ rfl]
    rfl
  · change memory.next + 1 ≤ b at hb
    refine ⟨(href.fresh b (by omega)).1, ?_⟩
    change update memory.article memory.next (some _) b = none
    rw [update_of_ne (by omega)]
    exact (href.fresh b (by omega)).2

theorem Table.addArticle (htable : Table memory) (hnone : memory.article memory.next = none)
    {fname msgid : Octets}
    (hnew : ∀ a article, memory.article a = some article → article.msgid ≠ msgid) :
    Table (memory.addArticle fname msgid) := by
  have harticle : (memory.addArticle fname msgid).article =
      update memory.article memory.next (some (freshArticle fname msgid)) := rfl
  have hother : ∀ h ∈ memory.chronList, h.article ≠ memory.next := by
    intro h hh heq
    obtain ⟨article, hsome, _⟩ := htable.entry h hh
    rw [heq, hnone] at hsome
    cases hsome
  have hnotMem : (⟨hashString msgid, memory.next⟩ : HashEntry) ∉ memory.chronList :=
    fun h => hother _ h rfl
  refine ⟨?_, ?_, ?_, ?_⟩
  · intro h hh
    rw [harticle]
    cases List.mem_cons.mp hh with
    | inl heq => exact ⟨_, by rw [heq]; exact update_self .., by rw [heq]; rfl⟩
    | inr hold =>
      obtain ⟨article, hsome, hhash⟩ := htable.entry h hold
      exact ⟨article, by rw [update_of_ne (hother h hold)]; exact hsome, hhash⟩
  · intro i h
    change h ∈ update memory.hashTable (TABLE_ENTRY (hashString msgid))
      (_ :: memory.hashTable _) i ↔
      h ∈ ⟨hashString msgid, memory.next⟩ :: memory.chronList ∧ TABLE_ENTRY h.hash = i
    rw [List.mem_cons]
    by_cases hi : i = TABLE_ENTRY (hashString msgid)
    · rw [hi, update_self, List.mem_cons, htable.bucket]
      constructor
      · rintro (rfl | ⟨hh, hentry⟩)
        · exact ⟨.inl rfl, rfl⟩
        · exact ⟨.inr hh, hentry⟩
      · rintro ⟨heq | hh, hentry⟩
        · exact .inl heq
        · exact .inr ⟨hh, hentry⟩
    · rw [update_of_ne hi, htable.bucket]
      constructor
      · rintro ⟨hh, hentry⟩
        exact ⟨.inr hh, hentry⟩
      · rintro ⟨rfl | hh, hentry⟩
        · exact absurd hentry.symm hi
        · exact ⟨hh, hentry⟩
  · intro i
    change (update memory.hashTable (TABLE_ENTRY (hashString msgid))
      (_ :: memory.hashTable _) i).Nodup
    by_cases hi : i = TABLE_ENTRY (hashString msgid)
    · rw [hi, update_self]
      exact List.nodup_cons.mpr ⟨fun h => hnotMem ((htable.bucket _ _).mp h).1, htable.nodup _⟩
    · rw [update_of_ne hi]
      exact htable.nodup i
  · intro a a' article article' ha ha' hsame
    rw [harticle] at ha ha'
    by_cases h : a = memory.next
    · by_cases h' : a' = memory.next
      · rw [h, h']
      · rw [h, update_self] at ha
        rw [update_of_ne h'] at ha'
        cases ha
        exact absurd hsame.symm (hnew a' article' ha')
    · rw [update_of_ne h] at ha
      by_cases h' : a' = memory.next
      · rw [h', update_self] at ha'
        cases ha'
        exact absurd hsame (hnew a article ha)
      · rw [update_of_ne h'] at ha'
        exact htable.unique a a' article article' ha ha' hsame

theorem Inv.addArticle (hinv : Inv memory bs ms 0) {fname msgid : Octets}
    (hnew : ∀ a article, memory.article a = some article → article.msgid ≠ msgid) :
    Inv (memory.addArticle fname msgid) bs ms 0 := by
  have hnone := (hinv.refs.fresh memory.next (Nat.le_refl _)).2
  have hnot : memory.next ∉ memory.keys := by
    rw [hinv.refs.present, hnone]
    nofun
  refine ⟨hinv.refs.addArticle fname msgid, hinv.table.addArticle hnone hnew, ?_, ?_, ?_⟩
  · intro a article harticle
    change update memory.article memory.next (some (freshArticle fname msgid)) a =
      some article at harticle
    by_cases h : a = memory.next
    · rw [h, update_self] at harticle
      cases harticle
      exact ⟨Nat.one_pos, fun _ => rfl, fun _ _ => rfl⟩
    · rw [update_of_ne h] at harticle
      exact hinv.article a article harticle
  · have htotal : tally (memory.next :: memory.keys)
        (update memory.article memory.next (some (freshArticle fname msgid))) memory.contentsSize =
          memory.contentsSize (freshArticle fname msgid) + memory.total := tally_cons hnot
    rw [contentsSize_none rfl, Nat.zero_add] at htotal
    exact hinv.bytes.trans (congrArg UInt32.ofNat htotal.symm)
  · change memory.articlesInUse + 1 = UInt32.ofNat (memory.keys.length + 1)
    rw [hinv.articles, UInt32.ofNat_add]
    rfl

theorem Inv.artTakeRef (hinv : Inv memory bs ms 0) (a : Nat) :
    Inv (memory.artTakeRef a) bs ms 0 := by
  unfold Memory.artTakeRef
  split
  next article harticle =>
    have hsound := hinv.article a article harticle
    exact hinv.setArticle harticle ⟨Nat.succ_pos _, hsound.buffers, hsound.unmapped⟩ rfl (fun _ =>
      rfl) (fun _ => rfl) rfl
  · exact hinv

theorem Inv.newArticle (hinv : Inv memory bs ms 0) (fname msgid : Octets) :
    Inv (memory.newArticle fname msgid) bs ms 0 := by
  unfold Memory.newArticle
  split
  next hfind =>
    refine hinv.addArticle fun a article harticle hmsgid => ?_
    have hsome := hinv.hashFindArticle_iff.mpr ⟨article, harticle, hmsgid⟩
    rw [hfind] at hsome
    cases hsome
  next a _ => exact hinv.artTakeRef a

section Removing

theorem keys_erase {hs : List HashEntry} {h : HashEntry} (hh : h ∈ hs) :
    (hs.map HashEntry.article).Perm (h.article :: (hs.erase h).map HashEntry.article) :=
  (List.perm_cons_erase hh).map HashEntry.article

def Memory.removeArticle (memory : Memory) (h : HashEntry) : Memory :=
  { memory with
    hashTable :=
      update memory.hashTable (TABLE_ENTRY h.hash) ((memory.hashTable (TABLE_ENTRY h.hash)).erase h)
    chronList := memory.chronList.erase h
    article := update memory.article h.article none
    articlesInUse := memory.articlesInUse - 1 }

variable {h : HashEntry} {article : Article}

theorem Memory.keys_removeArticle (hh : h ∈ memory.chronList) :
    memory.keys.Perm (h.article :: (memory.removeArticle h).keys) := keys_erase hh

theorem notMem_removeArticle (href : Referenced memory bs ms) (hh : h ∈ memory.chronList) :
    h.article ∉ (memory.removeArticle h).keys :=
  (List.nodup_cons.mp ((Memory.keys_removeArticle hh).nodup_iff.mp href.keys)).1

theorem tally_removeArticle (href : Referenced memory bs ms) (hh : h ∈ memory.chronList)
    (harticle : memory.article h.article = some article) (f : Article → Nat) :
    tally memory.keys memory.article f =
      f article + tally (memory.removeArticle h).keys (memory.removeArticle h).article f := by
  rw [tally_perm (Memory.keys_removeArticle hh)]
  change _ = f article + tally (memory.removeArticle h).keys
    (update memory.article h.article none) f
  rw [tally_update_of_notMem (notMem_removeArticle href hh)]
  change (memory.article h.article).elim 0 f +
    tally (memory.removeArticle h).keys memory.article f = _
  rw [harticle]
  rfl

theorem Referenced.removeArticle (href : Referenced memory bs ms) (hh : h ∈ memory.chronList)
    (harticle : memory.article h.article = some article) :
    Referenced (memory.removeArticle h)
      (article.nntpBuffers.getD [] ++ (article.contents.toList ++ bs))
      (article.mapInfo.toList ++ ms) := by
  have hnot := notMem_removeArticle href hh
  have hmem : ∀ a, a ∈ memory.keys ↔ a = h.article ∨ a ∈ (memory.removeArticle h).keys :=
    fun a => by
    rw [(Memory.keys_removeArticle hh).mem_iff, List.mem_cons]
  refine ⟨(List.nodup_cons.mp ((Memory.keys_removeArticle hh).nodup_iff.mp href.keys)).2,
    fun a => ?_, href.buffers,
    href.listed, ?_, ?_, href.released, fun b hb => ?_⟩
  · change _ ↔ (update memory.article h.article none a).isSome = true
    by_cases heq : a = h.article
    · rw [heq, update_self]
      exact iff_of_false hnot nofun
    · rw [update_of_ne heq, ← href.present a, hmem]
      exact (or_iff_right heq).symm
  · refine href.buffer.congr fun b => ?_
    have htally := tally_removeArticle href hh harticle (Article.bufferRefs b)
    rw [Article.bufferRefs] at htally
    rw [List.count_append, List.count_append]
    change tally (memory.removeArticle h).keys _ _ + memory.held.count b +
      memory.dotBuffer.toList.count b + _ =
      tally memory.keys memory.article (Article.bufferRefs b) + memory.held.count b +
        memory.dotBuffer.toList.count b + _
    omega
  · refine href.mapping.congr fun m => ?_
    have htally := tally_removeArticle href hh harticle (Article.mappingRefs m)
    rw [Article.mappingRefs] at htally
    rw [List.count_append]
    change tally (memory.removeArticle h).keys _ _ + tally memory.gBufferList memory.buffer _ + _ =
      tally memory.keys memory.article (Article.mappingRefs m) +
        tally memory.gBufferList memory.buffer _ + _
    omega
  · refine ⟨(href.fresh b hb).1, ?_⟩
    change update memory.article h.article none b = none
    by_cases heq : b = h.article
    · rw [heq, update_self]
    · rw [update_of_ne heq]
      exact (href.fresh b hb).2

theorem Table.removeArticle (htable : Table memory) (href : Referenced memory bs ms)
    (hh : h ∈ memory.chronList) :
    Table (memory.removeArticle h) := by
  have hchron : memory.chronList.Nodup := List.Nodup.of_map HashEntry.article href.keys
  have hother : ∀ h' ∈ memory.chronList.erase h, h'.article ≠ h.article := fun h' hh' heq =>
    notMem_removeArticle href hh (List.mem_map.mpr ⟨h', hh', heq⟩)
  have hold : ∀ {a article'}, (memory.removeArticle h).article a = some article' →
      memory.article a = some article' := by
    intro a article' hsome
    change update memory.article h.article none a = some article' at hsome
    by_cases heq : a = h.article
    · rw [heq, update_self] at hsome
      cases hsome
    · rwa [update_of_ne heq] at hsome
  refine ⟨?_, ?_, ?_, ?_⟩
  · intro h' hh'
    obtain ⟨article', hsome, hhash⟩ := htable.entry h' (List.mem_of_mem_erase hh')
    refine ⟨article', ?_, hhash⟩
    change update memory.article h.article none h'.article = some article'
    rw [update_of_ne (hother h' hh')]
    exact hsome
  · intro i h'
    change h' ∈ update memory.hashTable (TABLE_ENTRY h.hash) _ i ↔
      h' ∈ memory.chronList.erase h ∧ TABLE_ENTRY h'.hash = i
    rw [hchron.mem_erase_iff]
    by_cases hi : i = TABLE_ENTRY h.hash
    · rw [hi, update_self, (htable.nodup _).mem_erase_iff, htable.bucket, and_assoc]
    · rw [update_of_ne hi, htable.bucket]
      constructor
      · rintro ⟨hh', hentry⟩
        exact ⟨⟨by rintro rfl; exact hi hentry.symm, hh'⟩, hentry⟩
      · rintro ⟨⟨_, hh'⟩, hentry⟩
        exact ⟨hh', hentry⟩
  · intro i
    change (update memory.hashTable (TABLE_ENTRY h.hash) _ i).Nodup
    by_cases hi : i = TABLE_ENTRY h.hash
    · rw [hi, update_self]
      exact (htable.nodup _).erase h
    · rw [update_of_ne hi]
      exact htable.nodup i
  · intro a a' article₁ article₂ h₁ h₂ hsame
    exact htable.unique a a' article₁ article₂ (hold h₁) (hold h₂) hsame

theorem Inv.removeArticle (hinv : Inv memory bs ms 0) (hh : h ∈ memory.chronList)
    (harticle : memory.article h.article = some article) :
    Inv (memory.removeArticle h) (article.nntpBuffers.getD [] ++ (article.contents.toList ++ bs))
      (article.mapInfo.toList ++ ms) (memory.contentsSize article) := by
  refine ⟨hinv.refs.removeArticle hh harticle, hinv.table.removeArticle hinv.refs hh, ?_, ?_, ?_⟩
  · intro a article' hsome
    change update memory.article h.article none a = some article' at hsome
    by_cases heq : a = h.article
    · rw [heq, update_self] at hsome
      cases hsome
    · rw [update_of_ne heq] at hsome
      exact hinv.article a article' hsome
  · have htotal : memory.total + 0 = (memory.removeArticle h).total + memory.contentsSize article :=
      (tally_removeArticle hinv.refs hh harticle memory.contentsSize).trans (Nat.add_comm _ _)
    exact hinv.bytes.trans (congrArg UInt32.ofNat htotal)
  · have hlength := (Memory.keys_removeArticle hh).length_eq
    change memory.articlesInUse - 1 = UInt32.ofNat (memory.removeArticle h).keys.length
    rw [hinv.articles, hlength, List.length_cons, UInt32.ofNat_add]
    exact UInt32.add_sub_cancel _ _

theorem Inv.delContents
    (hinv : Inv memory (article.nntpBuffers.getD [] ++ (article.contents.toList ++ bs))
      (article.mapInfo.toList ++ ms) (memory.contentsSize article))
    (hsound : article.Sound) (hunmapped : article.contents = none → article.mapInfo = none) :
    Inv (memory.delContents article) bs ms 0 := by
  unfold Memory.delContents
  cases hcontents : article.contents with
  | none =>
    rw [hsound.buffers hcontents, hunmapped hcontents, contentsSize_none hcontents,
      hcontents] at hinv
    exact hinv
  | some b =>
    rw [contentsSize_some hcontents, hcontents] at hinv
    exact hinv.unmap.freeBufferArray.delBuffer

theorem Inv.delArticle (hinv : Inv memory bs ms 0) {a : Nat}
    (hunmapped : ∀ article, memory.article a = some article → article.refCount = 1 →
      article.contents = none →
      article.mapInfo = none) : Inv (memory.delArticle a) bs ms 0 := by
  unfold Memory.delArticle
  split
  · exact hinv
  next article harticle =>
    have hsound := hinv.article a article harticle
    have hpos := hsound.positive
    split
    next hlast =>
      obtain ⟨h, hfind, hh, rfl, hhash⟩ := hinv.hashFindEntry harticle
      have hremoved := hinv.removeArticle hh harticle
      have heq : { memory.hashRemoveArticle article.msgid with
          article := update memory.article h.article none
          articlesInUse := memory.articlesInUse - 1 } = memory.removeArticle h := by
        rw [Memory.hashRemoveArticle, hfind, Memory.removeArticle, hhash]
      have hsame : (memory.hashRemoveArticle article.msgid).article = memory.article ∧
          (memory.hashRemoveArticle article.msgid).articlesInUse = memory.articlesInUse := by
        rw [Memory.hashRemoveArticle, hfind]
        exact ⟨rfl, rfl⟩
      simp only [hsame.1, hsame.2, heq]
      exact hremoved.delContents hsound (hunmapped article harticle (by omega))
    · exact hinv.setArticle harticle
        ⟨by change 0 < article.refCount - 1; omega, hsound.buffers, hsound.unmapped⟩ rfl
        (fun _ => rfl) (fun _ => rfl) rfl

end Removing

/-- What holds between calls of the articles, the table and the counts. -/
structure Consistent (memory : Memory) : Prop where
  /-- An article is in the table exactly while there are references to it. -/
  table : ∀ a, (∃ i, ∃ h ∈ memory.hashTable i, h.article = a) ↔
    ∃ article, memory.article a = some article ∧ 0 < article.refCount
  positive : ∀ a article, memory.article a = some article → 0 < article.refCount
  /-- There is one article for a message-ID, and it is the one that is found. -/
  unique : ∀ a a' article article', memory.article a = some article →
    memory.article a' = some article' →
    article.msgid = article'.msgid → a = a'
  found : ∀ a msgid, memory.hashFindArticle msgid = some a ↔
    ∃ article, memory.article a = some article ∧ article.msgid = msgid
  /-- Every mapping but one that something refers to has been released, and that once. -/
  mappings :
    ∀ m, memory.opened.count m = memory.released.count m + if 0 < memory.mappingRefs m then 1 else 0
  /-- The counters are totals over the articles that are there. -/
  articles : memory.keys.Nodup ∧ ∀ a, a ∈ memory.keys ↔ (memory.article a).isSome = true
  articlesInUse : memory.articlesInUse = UInt32.ofNat memory.keys.length
  bytesInUse : memory.bytesInUse = UInt32.ofNat memory.total
  gone : (∀ a, memory.article a = none) → memory.articlesInUse = 0 ∧ memory.bytesInUse = 0

def Allowed (memory : Memory) : Action → Prop
  | .delArticle a => ∀ article ∈ memory.article a, article.refCount = 1 → article.contents = none →
      article.mapInfo = none
  | _ => True

instance instDecidableAllowed (memory : Memory) :
    (action : Action) → Decidable (Allowed memory action)
  | .delArticle a => inferInstanceAs
      (Decidable (∀ article ∈ memory.article a, article.refCount = 1 →
      article.contents = none → article.mapInfo = none))
  | .newArticle _ _ | .artTakeRef _ | .artContentsOk _ _ | .artGetNntpBuffers _ _ | .delBuffer _ =>
      isTrue trivial

theorem start_inv (maxBytesInUse : UInt32) : Inv (Memory.start maxBytesInUse) [] [] 0 where
  refs :=
    { keys := List.nodup_nil
      present := fun _ => iff_of_false List.not_mem_nil nofun
      buffers := List.nodup_nil
      listed := fun _ => iff_of_false List.not_mem_nil nofun
      buffer := fun _ => rfl
      mapping := fun _ => rfl
      released := fun _ => rfl
      fresh := fun _ _ => ⟨rfl, rfl⟩ }
  table :=
    { entry := fun _ h => nomatch h
      bucket := fun _ _ => iff_of_false List.not_mem_nil fun h => nomatch h.1
      nodup := fun _ => List.nodup_nil
      unique := fun _ _ _ _ h => nomatch h }
  article := fun _ _ h => nomatch h
  bytes := rfl
  articles := rfl

theorem step_inv (memory : Memory) (action : Action) (hinv : Inv memory [] [] 0)
    (hallowed : Allowed memory action) :
    Inv (step memory action) [] [] 0 := by
  cases action with
  | newArticle fname msgid => exact hinv.newArticle fname msgid
  | artTakeRef a => exact hinv.artTakeRef a
  | delArticle a => exact hinv.delArticle hallowed
  | artContentsOk a stored =>
    rw [step]
    split
    next hfits => exact hinv.prepareArticleForNNTP hfits
    · exact hinv
  | artGetNntpBuffers a stored =>
    rw [step]
    split
    next hfits => exact hinv.artGetNntpBuffers hfits
    · exact hinv
  | delBuffer b =>
    rw [step]
    split
    next hheld =>
      refine Inv.delBuffer (hinv.hold fun b' => ?_)
      rw [(List.perm_cons_erase hheld).count_eq b', count_cons_eq, count_cons_eq]
      omega
    · exact hinv

theorem Inv.consistent (hinv : Inv memory [] [] 0) : Consistent memory := by
  have hpositive : ∀ a article, memory.article a = some article → 0 < article.refCount :=
    fun a article h => (hinv.article a article h).positive
  refine
    { table := fun a => (hinv.mem_table a).trans (Option.isSome_iff_exists.trans ⟨?_, ?_⟩)
      positive := hpositive
      unique := hinv.table.unique
      found := fun _ _ => hinv.hashFindArticle_iff
      mappings := fun m => ?_
      articles := ⟨hinv.refs.keys, hinv.refs.present⟩
      articlesInUse := hinv.articles
      bytesInUse := hinv.bytes
      gone := fun hnone => ?_ }
  · rintro ⟨article, harticle⟩
    exact ⟨article, harticle, hpositive a article harticle⟩
  · rintro ⟨article, harticle, _⟩
    exact ⟨article, harticle⟩
  · rw [hinv.refs.released m]
    have hcounted := hinv.refs.mapping m
    change (memory.mapInfo m).map MapInfo.refCount =
      if memory.mappingRefs m = 0 then none else some (memory.mappingRefs m)
      at hcounted
    cases hinfo : memory.mapInfo m with
    | none =>
      have hzero : memory.mappingRefs m = 0 := hinv.refs.mapping.eq_none (by rw [hinfo]; rfl)
      rw [hzero]
      rfl
    | some info =>
      rw [hinfo] at hcounted
      split at hcounted
      · cases hcounted
      next hpos =>
        rw [if_pos (Nat.pos_of_ne_zero hpos)]
        rfl
  · have hkeys : memory.keys = [] := List.eq_nil_iff_forall_not_mem.mpr fun a ha => by
      rw [hinv.refs.present a, hnone a] at ha
      cases ha
    rw [hinv.articles, hinv.bytes, Memory.total, hkeys]
    exact ⟨rfl, rfl⟩

/-- Every run in which an article that is freed without contents does not refer to a mapping keeps
the table, the mappings and the counters. -/
theorem consistent_run (maxBytesInUse : UInt32) (actions : List Action)
    (hallowed : Throughout step Allowed actions (Memory.start maxBytesInUse)) :
    Consistent (actions.foldl step (Memory.start maxBytesInUse)) :=
  have hrun : Inv (actions.foldl step (Memory.start maxBytesInUse)) [] [] 0 ∧
      Throughout step (fun _ _ => True) actions (Memory.start maxBytesInUse) :=
    throughout_invariant (fun memory action hinv h =>
      ⟨step_inv memory action hinv h, trivial⟩) actions
      (start_inv maxBytesInUse) hallowed
  hrun.1.consistent

/-- An article that has been mapped is freed while a peer still holds the buffer that lies over
it. -/
theorem consistent_run_mapped :
    Consistent ([.newArticle (octets "@1@") (octets "<a@b>"),
      .newArticle (octets "@1@") (octets "<a@b>"),
      .artGetNntpBuffers 0 (.found (octets "A: b\r\n.\r\n") (some ⟨some 1, 0⟩) true), .delArticle 0,
        .delArticle 0,
      .delBuffer 3].foldl step (Memory.start 1000)) :=
  consistent_run 1000 _ (by decide)

def unended : List Action :=
  [.newArticle (octets "@1@") (octets "<a@b>"),
    .artContentsOk 0 (.found (octets "Subject: x") (some ⟨some 1, 0⟩) true), .delArticle 0]

/-- Its mapping is not released, though nothing refers to it. -/
theorem not_consistent_unended : ¬ Consistent (unended.foldl step (Memory.start 1000)) := by
  intro h
  have hmapping := h.mappings ⟨some 1, 0⟩
  exact absurd hmapping (by decide)

end Inn.Innfeed.Articles
