import Inn.Innfeed.ArticleTable

/-!
# The contents of the articles

The contents of an article are read into a buffer, and given back, so that every
reference that is taken on the way goes to the article or is given up.
-/

namespace Inn.Innfeed.Articles

open Function (update update_self update_of_ne)
open Foundation.Counting

variable {memory memory' : Memory} {bs bs' : List Nat} {ms ms' : List Mapping} {n n' : Nat}

theorem Inv.setArticle (hinv : Inv memory bs ms n) {a : Nat} {old new : Article}
    (hold : memory.article a = some old) (hsound : new.Sound) (hmsgid : new.msgid = old.msgid)
    (hbuffers : ∀ b, new.bufferRefs b + bs'.count b = old.bufferRefs b + bs.count b)
    (hmappings : ∀ m, new.mappingRefs m + ms'.count m = old.mappingRefs m + ms.count m)
    (hsize : n' + memory.contentsSize new = n + memory.contentsSize old) :
    Inv (memory.setArticle a new) bs' ms' n' := by
  have hkey : a ∈ memory.keys := (hinv.refs.present a).mpr (by rw [hold]; rfl)
  have hother : ∀ a' article, (memory.setArticle a new).article a' = some article →
      ∃ article', memory.article a' = some article' ∧ article'.msgid = article.msgid ∧
        article.Sound := by
    intro a' article harticle
    change update memory.article a (some new) a' = some article at harticle
    by_cases h : a' = a
    · rw [h, update_self] at harticle
      cases harticle
      exact ⟨old, by rw [h]; exact hold, hmsgid.symm, hsound⟩
    · rw [update_of_ne h] at harticle
      exact ⟨article, harticle, rfl, hinv.article a' article harticle⟩
  refine ⟨hinv.refs.setArticle hold hbuffers hmappings,
    ⟨?_, hinv.table.bucket, hinv.table.nodup, ?_⟩, ?_, ?_, hinv.articles⟩
  · intro h hh
    obtain ⟨article, harticle, hhash⟩ := hinv.table.entry h hh
    change ∃ article, update memory.article a (some new) h.article = some article ∧ _
    by_cases heq : h.article = a
    · rw [heq, hold] at harticle
      cases harticle
      exact ⟨new, by rw [heq, update_self], by rw [hhash, hmsgid]⟩
    · exact ⟨article, by rw [update_of_ne heq]; exact harticle, hhash⟩
  · intro a₁ a₂ article₁ article₂ h₁ h₂ hsame
    obtain ⟨article₁', harticle₁, hmsgid₁, _⟩ := hother a₁ article₁ h₁
    obtain ⟨article₂', harticle₂, hmsgid₂, _⟩ := hother a₂ article₂ h₂
    exact hinv.table.unique a₁ a₂ _ _ harticle₁ harticle₂ (by rw [hmsgid₁, hmsgid₂, hsame])
  · intro a' article harticle
    obtain ⟨_, _, _, hsound'⟩ := hother a' article harticle
    exact hsound'
  · have htally : tally memory.keys (update memory.article a (some new)) memory.contentsSize +
        memory.contentsSize old = memory.total + memory.contentsSize new :=
          tally_update hinv.refs.keys hkey hold new
    have htotal : (memory.setArticle a new).total =
        tally memory.keys (update memory.article a (some new)) memory.contentsSize := rfl
    rw [htotal, show tally memory.keys (update memory.article a (some new))
      memory.contentsSize + n' =
      memory.total + n by omega]
    exact hinv.bytes

def usedBytes (memory : Memory) (mapping : Option Mapping) (b : Nat) : Nat :=
  if mapping = none then memory.bufferDataSize b else 0

theorem unmap_article (memory : Memory) (mapping : Option Mapping) (b : Nat) :
    (memory.unmap mapping b).article = memory.article := by
  cases mapping with
  | none => rfl
  | some m => exact delMapInfo_article memory m

theorem Inv.unmap {mapping : Option Mapping} {b : Nat}
    (hinv : Inv memory bs (mapping.toList ++ ms) (usedBytes memory mapping b)) :
    Inv (memory.unmap mapping b) bs ms 0 := by
  cases mapping with
  | some m => exact hinv.delMapInfo
  | none =>
    obtain ⟨href, htable, harticle, hbytes, harticles⟩ := hinv
    refine ⟨{ href with },
      { htable with }, harticle, ?_, harticles⟩
    change memory.bytesInUse - UInt32.ofNat (memory.bufferDataSize b) =
      UInt32.ofNat (memory.total + 0)
    rw [hbytes, usedBytes, if_pos rfl, UInt32.ofNat_add, UInt32.add_sub_cancel, Nat.add_zero]

theorem contentsSize_some {article : Article} {b : Nat} (hcontents : article.contents = some b) :
    memory.contentsSize article = usedBytes memory article.mapInfo b := by
  rw [Memory.contentsSize, hcontents]
  rfl

theorem contentsSize_none {article : Article} (hcontents : article.contents = none) :
    memory.contentsSize article = 0 := by
  rw [Memory.contentsSize, hcontents]
  split <;> rfl

theorem Referenced.freeBufferArray_bufferDataSize {b : Nat} {bs₀ : List Nat}
    (href : Referenced memory (bs₀ ++ b :: bs) ms) :
    (memory.freeBufferArray bs₀).bufferDataSize b = memory.bufferDataSize b := by
  induction bs₀ generalizing memory with
  | nil => rfl
  | cons b₀ bs₀ ih =>
    have hpos : 0 < (bs₀ ++ b :: bs).count b :=
      List.count_pos_iff.mpr (List.mem_append_right bs₀ List.mem_cons_self)
    rw [← href.delBuffer_bufferDataSize (Nat.lt_of_lt_of_le hpos (Nat.le_add_left _ _))]
    exact ih href.delBuffer

theorem Inv.artFreeContents (hinv : Inv memory bs ms 0) (a : Nat) :
    Inv (memory.artFreeContents a).2 bs ms 0 := by
  unfold Memory.artFreeContents
  split
  · exact hinv
  next article harticle =>
    split
    · exact hinv
    next b hcontents =>
      split
      · exact hinv
      · have hsound := hinv.article a article harticle
        have hset : Inv (memory.setArticle a { article with contents := none, nntpBuffers := none, mapInfo := none })
            (article.nntpBuffers.getD [] ++ b :: bs) (article.mapInfo.toList ++ ms)
              (usedBytes memory article.mapInfo b) := by
          refine hinv.setArticle harticle ⟨hsound.positive, fun _ => rfl,
            fun _ _ => rfl⟩ rfl (fun b' => ?_) (fun m => ?_) ?_
          · rw [List.count_append, count_cons_eq, Article.bufferRefs, Article.bufferRefs, hcontents,
              Option.toList_some,
              count_cons_eq b b' []]
            change 0 + 0 + _ = 0 + _ + _ + _
            omega
          · rw [List.count_append]
            exact Nat.zero_add _
          · rw [contentsSize_none rfl, contentsSize_some hcontents, Nat.zero_add]
            rfl
        have hfreed := hset.freeBufferArray
        have hused := hset.refs.freeBufferArray_bufferDataSize
        refine Inv.delBuffer (Inv.unmap ?_)
        rw [usedBytes] at hfreed ⊢
        rw [hused]
        exact hfreed

theorem artFreeContents_article {a a' : Nat} {article : Article}
    (harticle : memory.article a' = some article) (hcontents : article.contents = none) :
    (memory.artFreeContents a).2.article a' = some article := by
  have hother : ∀ article', memory.article a = some article' →
      article'.contents ≠ none → a' ≠ a := by
    rintro article' harticle' hne rfl
    cases harticle.symm.trans harticle'
    exact hne hcontents
  unfold Memory.artFreeContents
  split
  · exact harticle
  next article' harticle' =>
    split
    · exact harticle
    next b hb =>
      split
      · exact harticle
      · have hset : (memory.setArticle a { article' with contents := none, nntpBuffers := none, mapInfo := none }).article a' =
            some article := by
          change update memory.article a (some _) a' = some article
          rw [update_of_ne (hother article' harticle' (by rw [hb]; nofun))]
          exact harticle
        rw [delBuffer_article, unmap_article, freeBufferArray_article]
        exact hset

theorem freeOlder_inv (amtToRead : Nat) (hs : List HashEntry) (hinv : Inv memory bs ms 0) :
    Inv (freeOlder amtToRead hs memory) bs ms 0 := by
  induction hs generalizing memory with
  | nil => exact hinv
  | cons h hs ih =>
    rw [freeOlder]
    simp only
    split
    · exact hinv.artFreeContents h.article
    · exact ih (hinv.artFreeContents h.article)

theorem freeOlder_article (amtToRead : Nat) (hs : List HashEntry) {a : Nat}
    {article : Article} (harticle : memory.article a = some article)
    (hcontents : article.contents = none) :
    (freeOlder amtToRead hs memory).article a = some article := by
  induction hs generalizing memory with
  | nil => exact harticle
  | cons h hs ih =>
    have hfreed := artFreeContents_article (a := h.article) harticle hcontents
    rw [freeOlder]
    simp only
    split
    · exact hfreed
    · exact ih hfreed

theorem length_escapeLines (text : Octets) : text.length ≤ (escapeLines text).length := by
  induction text with
  | nil => exact Nat.le_refl 0
  | cons c rest ih =>
    rw [escapeLines]
    split
    · simp only [List.length_cons, List.length_append]
      omega
    · simp only [List.length_cons]
      omega

theorem length_nntpPrepareBuffer (text : Octets) :
    text.length ≤ (nntpPrepareBuffer text).length := by
  have hle := length_escapeLines text
  rw [nntpPrepareBuffer, List.length_append, List.length_append]
  omega

theorem Inv.addBytes (hinv : Inv memory bs ms n) (k : Nat) :
    Inv { memory with bytesInUse := memory.bytesInUse + UInt32.ofNat k } bs ms (n + k) := by
  obtain ⟨href, htable, harticle, hbytes, harticles⟩ := hinv
  refine ⟨{ href with },
    { htable with }, harticle, ?_, harticles⟩
  change memory.bytesInUse + UInt32.ofNat k = UInt32.ofNat (memory.total + (n + k))
  rw [hbytes, ← UInt32.ofNat_add, Nat.add_assoc]

theorem Inv.delMapping {mapping : Option Mapping} (hinv : Inv memory bs (mapping.toList ++ ms) n) :
    Inv (mapping.elim memory memory.delMapInfo) bs ms n := by
  cases mapping with
  | none => exact hinv
  | some m => exact hinv.delMapInfo

theorem delMapping_article (memory : Memory) (mapping : Option Mapping) :
    (mapping.elim memory memory.delMapInfo).article = memory.article := by
  cases mapping with
  | none => rfl
  | some m => exact delMapInfo_article memory m

theorem delMapping_bytesInUse (memory : Memory) (mapping : Option Mapping) :
    (mapping.elim memory memory.delMapInfo).bytesInUse = memory.bytesInUse := by
  cases mapping with
  | none => rfl
  | some m => exact (keeps_delMapInfo memory m).bytesInUse

theorem delMapping_next (memory : Memory) (mapping : Option Mapping) :
    (mapping.elim memory memory.delMapInfo).next = memory.next := by
  cases mapping with
  | none => rfl
  | some m =>
    change (memory.delMapInfo m).next = memory.next
    unfold Memory.delMapInfo
    split
    · rfl
    · split <;> rfl

theorem delMapping_buffer (memory : Memory) (mapping : Option Mapping) :
    (mapping.elim memory memory.delMapInfo).buffer = memory.buffer := by
  cases mapping with
  | none => rfl
  | some m => exact delMapInfo_buffer memory m

theorem Inv.copyContents {a : Nat} {article : Article} {text : Octets} {mapping : Option Mapping}
    {readable : Bool}
    (hinv : Inv memory bs (mapping.toList ++ ms) 0) (harticle : memory.article a = some article)
    (hcontents : article.contents = none) (hunmapped : article.mapInfo = none) :
    Inv (memory.copyContents a text mapping readable) bs ms 0 := by
  -- Making room leaves the article as it is.
  obtain ⟨memory₁, hmemory₁, hinv₁, harticle₁⟩ : ∃ memory₁,
      (if memory.maxBytesInUse.toNat < text.length + memory.bytesInUse.toNat then
        freeOlder text.length memory.chronList memory else memory) = memory₁ ∧
        Inv memory₁ bs (mapping.toList ++ ms) 0 ∧ memory₁.article a = some article := by
    refine ⟨_, rfl, ?_, ?_⟩
    · split
      · exact freeOlder_inv _ _ hinv
      · exact hinv
    · split
      · exact freeOlder_article _ _ harticle hcontents
      · exact harticle
  have hsound := hinv₁.article a article harticle₁
  unfold Memory.copyContents
  simp only [hmemory₁, harticle₁]
  split
  · generalize hnew :
      (if format text = Format.native then nntpPrepareBuffer text else text) = contents
    have hlength : text.length ≤ contents.length := by
      rw [← hnew]
      split
      · exact length_nntpPrepareBuffer text
      · exact Nat.le_refl _
    obtain ⟨memory₂, hmemory₂, hinv₂, harticle₂, hbuffer₂⟩ : ∃ memory₂ : Memory,
        { memory₁.newBuffer contents true with
          bytesInUse := memory₁.bytesInUse + UInt32.ofNat text.length +
            UInt32.ofNat (contents.length - text.length) } = memory₂ ∧
          Inv memory₂ (memory₁.next :: bs) (mapping.toList ++ ms) contents.length ∧
          memory₂.article a = some article ∧
            memory₂.buffer memory₁.next = some ⟨1, contents, true, none⟩ := by
      refine ⟨_, rfl, ?_, harticle₁, update_self _ _ _⟩
      have hadded :=
        ((hinv₁.newBuffer contents true).addBytes text.length).addBytes
        (contents.length - text.length)
      rwa [show 0 + text.length + (contents.length - text.length) =
        contents.length by omega] at hadded
    rw [hmemory₂]
    have hgiven := hinv₂.delMapping
    have harticle₃ : (mapping.elim memory₂ memory₂.delMapInfo).article a = some article := by
      rw [delMapping_article]
      exact harticle₂
    refine hgiven.setArticle harticle₃ ⟨hsound.positive, nofun, nofun⟩ rfl (fun b => ?_)
      (fun m => ?_) ?_
    · rw [Article.bufferRefs, Article.bufferRefs, hcontents, hsound.buffers hcontents,
        count_cons_eq]
      change [memory₁.next].count b + 0 + _ = 0 + 0 + _
      rw [count_cons_eq]
      change 0 + _ + 0 + _ = _
      omega
    · rw [Article.mappingRefs, Article.mappingRefs, hunmapped]
    · rw [contentsSize_some rfl, contentsSize_none hcontents, usedBytes, if_pos rfl,
        Memory.bufferDataSize,
        delMapping_buffer, hbuffer₂]
      exact Nat.zero_add _
  · have hgiven := hinv₁.delMapping
    have hnew := hgiven.newBuffer [] true
    refine Inv.delBuffer ?_
    have hbytes : memory₁.bytesInUse + UInt32.ofNat text.length - UInt32.ofNat text.length =
        (mapping.elim memory₁ memory₁.delMapInfo).bytesInUse := by
      rw [UInt32.add_sub_cancel, delMapping_bytesInUse]
    rw [hbytes, ← delMapping_next memory₁ mapping]
    exact hnew

theorem Inv.mapContents {m : Mapping} (hinv : Inv memory bs ms 0) (hnone : memory.mapInfo m = none)
    (text : Octets) :
    Inv (memory.mapContents text m) (memory.next :: bs) (m :: ms) 0 ∧
      (memory.mapContents text m).article = memory.article := by
  have hnext : (({ memory with opened := m :: memory.opened }).getMapInfo m text.length).next =
      memory.next := by
    rw [Memory.getMapInfo]
    split <;> rfl
  have hmapped := hinv.getMapInfo hnone text.length
  have harticle := (keeps_getMapInfo memory m text.length).article
  unfold Memory.mapContents
  generalize ({ memory with opened := m :: memory.opened }).getMapInfo m text.length = memory₁ at *
  rw [← hnext, ← harticle]
  have hpos : 0 < (memory₁.newBuffer text false).mappingRefs m + (m :: ms).count m := by
    rw [List.count_cons_self]
    omega
  have htaken := (hmapped.newBuffer text false).takeMapInfo hpos
  have hbuffer : ((memory₁.newBuffer text false).takeMapInfo m).buffer memory₁.next =
      some ⟨1, text, false, none⟩ := by
    rw [takeMapInfo_buffer]
    exact update_self _ _ _
  refine ⟨htaken.bufferSetDeletedCbk hbuffer rfl, ?_⟩
  rw [(keeps_bufferSetDeletedCbk _ _ _).article, (keeps_takeMapInfo _ _).article]
  rfl

theorem Inv.fillContents {a : Nat} {article : Article} {stored : Stored} (hinv : Inv memory bs ms 0)
    (harticle : memory.article a = some article) (hcontents : article.contents = none)
    (hok : article.articleOk = true) (hfits : stored.fits memory = true) :
    Inv (memory.fillContents a stored) bs ms 0 := by
  have hsound := hinv.article a article harticle
  have hunmapped := hsound.unmapped hcontents hok
  unfold Memory.fillContents
  simp only [harticle]
  cases stored with
  | missing =>
    refine hinv.setArticle harticle ⟨hsound.positive, hsound.buffers, nofun⟩ rfl (fun _ => rfl)
      (fun _ => rfl) rfl
  | found text mapping readable =>
    cases mapping with
    | none => exact hinv.copyContents harticle hcontents hunmapped
    | some m =>
      have hnone : memory.mapInfo m = none := by
        have hreleased := hinv.refs.released m
        rw [Stored.fits, Bool.not_eq_true', Memory.live, decide_eq_false_iff_not] at hfits
        rw [← Option.toList_eq_nil_iff, ← List.length_eq_zero_iff]
        omega
      obtain ⟨hset, harticle₂⟩ := hinv.mapContents hnone text
      rw [← harticle₂] at harticle
      simp only
      generalize memory.mapContents text m = memory₂ at hset harticle
      have harticle₃ : (memory₂.delBuffer memory.next).article a = some article := by
        rw [delBuffer_article]
        exact harticle
      cases format text with
      | munged =>
        simp only
        refine hset.delBuffer.setArticle harticle₃ ⟨hsound.positive, hsound.buffers,
          (fun _ h => nomatch h)⟩ rfl (fun _ => rfl)
          (fun m' => ?_) ?_
        · rw [Article.mappingRefs, Article.mappingRefs, hunmapped, count_cons_eq]
          change [m].count m' + _ = 0 + _
          rw [count_cons_eq]
          change 0 + _ + _ = _
          omega
        · rw [contentsSize_none hcontents, Nat.zero_add]
          exact contentsSize_none hcontents
      | wire =>
        simp only
        refine hset.setArticle harticle ⟨hsound.positive, (fun h => nomatch h),
          (fun h => nomatch h)⟩ rfl (fun b => ?_)
          (fun m' => ?_) ?_
        · rw [Article.bufferRefs, Article.bufferRefs, hcontents, hsound.buffers hcontents,
            count_cons_eq]
          change [memory.next].count b + 0 + _ = 0 + 0 + _
          rw [count_cons_eq]
          change 0 + _ + 0 + _ = _
          omega
        · rw [Article.mappingRefs, Article.mappingRefs, hunmapped, count_cons_eq]
          change [m].count m' + _ = 0 + _
          rw [count_cons_eq]
          change 0 + _ + _ = _
          omega
        · rw [contentsSize_some rfl, contentsSize_none hcontents, usedBytes,
            if_neg (Option.some_ne_none m)]
      | native => exact hset.delBuffer.copyContents harticle₃ hcontents hunmapped

theorem Inv.perm (hinv : Inv memory bs ms n) (hperm : bs'.Perm bs) : Inv memory bs' ms n :=
  { hinv with refs := hinv.refs.perm hperm }

theorem Referenced.mapping_pos (href : Referenced memory bs ms) {a : Nat}
    {article : Article} {m : Mapping}
    (harticle : memory.article a = some article) (hmapping : article.mapInfo = some m) :
    0 < memory.mappingRefs m := by
  have hkey : a ∈ memory.keys := (href.present a).mpr (by rw [harticle]; rfl)
  have hle : article.mappingRefs m ≤ tally memory.keys memory.article (Article.mappingRefs m) :=
    le_tally hkey harticle
  have hone : article.mappingRefs m = 1 := by
    rw [Article.mappingRefs, hmapping, Option.toList_some, List.count_singleton_self]
  rw [Memory.mappingRefs]
  omega

theorem Inv.artGetContents {a : Nat} {stored : Stored} (hinv : Inv memory bs ms 0)
    (hfits : stored.fits memory = true)
    {contents : Option Nat} (heq : memory.artGetContents a stored = (contents, memory')) :
    Inv memory' (contents.toList ++ bs) ms 0 ∧
      ∀ b, contents = some b →
        ∃ article, memory'.article a = some article ∧ article.contents = some b := by
  unfold Memory.artGetContents at heq
  split at heq
  · cases heq
    exact ⟨hinv, nofun⟩
  next article harticle =>
    split at heq
    next hok =>
      obtain ⟨memory₁, hmemory₁, hinv₁⟩ : ∃ memory₁,
          (if article.contents = none then memory.fillContents a stored else memory) = memory₁ ∧
            Inv memory₁ bs ms 0 := by
        refine ⟨_, rfl, ?_⟩
        split
        next hnone => exact hinv.fillContents harticle hnone hok hfits
        · exact hinv
      simp only [hmemory₁] at heq
      split at heq
      next b hb =>
        cases heq
        obtain ⟨article₁, harticle₁, hcontents⟩ := Option.bind_eq_some_iff.mp hb
        have hpos := hinv₁.refs.contents_pos harticle₁ hcontents
        refine ⟨hinv₁.bufferTakeRef (Nat.lt_of_lt_of_le hpos (Nat.le_add_right _ _)), ?_⟩
        rintro _ ⟨⟩
        exact ⟨article₁, by rw [(keeps_bufferTakeRef memory₁ b).article]; exact harticle₁,
          hcontents⟩
      · cases heq
        exact ⟨hinv₁, nofun⟩
    · cases heq
      exact ⟨hinv, nofun⟩

theorem Inv.setDotBuffer {b : Nat} (hinv : Inv memory (b :: bs) ms n)
    (hnone : memory.dotBuffer = none) :
    Inv { memory with dotBuffer := some b } bs ms n :=
  ⟨hinv.refs.setDotBuffer hnone,
    { hinv.table with },
    hinv.article, hinv.bytes, hinv.articles⟩

theorem Inv.appendBuffers (lines : List Octets) {bs₀ : List Nat}
    (hinv : Inv memory (bs₀ ++ bs) ms n) :
    Inv (appendBuffers lines bs₀ memory).2
      ((Articles.appendBuffers lines bs₀ memory).1 ++ bs) ms n ∧
      (Articles.appendBuffers lines bs₀ memory).2.article = memory.article := by
  induction lines generalizing memory bs₀ with
  | nil => exact ⟨hinv, rfl⟩
  | cons line lines ih =>
    rw [Articles.appendBuffers]
    have hperm : (bs₀ ++ [memory.next] ++ bs).Perm (memory.next :: (bs₀ ++ bs)) := by
      rw [List.append_assoc]
      exact List.perm_middle
    have hnew := (hinv.newBuffer line false).perm hperm
    obtain ⟨hrest, harticle⟩ := ih hnew
    exact ⟨hrest, harticle.trans rfl⟩

theorem Inv.overlay {a : Nat} {article : Article} (hinv : Inv memory bs ms n)
    (harticle : memory.article a = some article) (text : Octets) :
    Inv (memory.overlay article text).2 ((memory.overlay article text).1 ++ bs) ms n ∧
      (memory.overlay article text).2.article = memory.article := by
  unfold Memory.overlay
  split
  · have hnew := hinv.newBuffer text false
    simp only
    cases hmapping : article.mapInfo with
    | none => exact ⟨hnew, rfl⟩
    | some m =>
      have hpos := hnew.refs.mapping_pos harticle hmapping
      have htaken := hnew.takeMapInfo (Nat.lt_of_lt_of_le hpos (Nat.le_add_right _ _))
      have hbuffer : ((memory.newBuffer text false).takeMapInfo m).buffer memory.next =
          some ⟨1, text, false, none⟩ := by
        rw [takeMapInfo_buffer]
        exact update_self _ _ _
      refine ⟨htaken.bufferSetDeletedCbk hbuffer rfl, ?_⟩
      change (((memory.newBuffer text false).takeMapInfo m).bufferSetDeletedCbk memory.next
        m).article = memory.article
      rw [(keeps_bufferSetDeletedCbk _ _ _).article, (keeps_takeMapInfo _ _).article]
      rfl
  · have hstart : Inv memory ([] ++ bs) ms n := hinv
    obtain ⟨hlines, harticle'⟩ := hstart.appendBuffers (bodyLines text)
    simp only
    split
    next dot hdot =>
      have hpos : 0 < (Articles.appendBuffers (bodyLines text) [] memory).2.bufferRefs dot := by
        rw [Memory.bufferRefs, hdot, Option.toList_some, List.count_singleton_self]
        omega
      refine ⟨(hlines.bufferTakeRef (Nat.lt_of_lt_of_le hpos (Nat.le_add_right _ _))).perm ?_, ?_⟩
      · rw [List.append_assoc]
        exact List.perm_middle
      · rw [(keeps_bufferTakeRef _ _).article]
        exact harticle'
    · exact ⟨hlines, harticle'⟩

theorem Inv.makeDotBuffer (hinv : Inv memory bs ms n) :
    Inv memory.makeDotBuffer bs ms n ∧ memory.makeDotBuffer.article = memory.article := by
  unfold Memory.makeDotBuffer
  split
  next hnone => exact ⟨(hinv.newBuffer _ false).setDotBuffer (Option.isNone_iff_eq_none.mp hnone),
    rfl⟩
  · exact ⟨hinv, rfl⟩

theorem Inv.prepareArticleForNNTP {a : Nat} {stored : Stored} (hinv : Inv memory bs ms 0)
    (hfits : stored.fits memory = true) :
    Inv (memory.prepareArticleForNNTP a stored).2 bs ms 0 := by
  unfold Memory.prepareArticleForNNTP
  cases hget : memory.artGetContents a stored with
  | mk contents memory₁ =>
    obtain ⟨hinv₁, hcontents⟩ := hinv.artGetContents hfits hget
    cases contents with
    | none => exact hinv₁
    | some contents =>
      obtain ⟨article, harticle, hsome⟩ := hcontents contents rfl
      simp only [harticle]
      split
      · exact hinv₁.delBuffer
      next hnone =>
        have hnone : article.nntpBuffers = none := Option.not_isSome_iff_eq_none.mp hnone
        obtain ⟨hdot, hdotArticle⟩ := hinv₁.makeDotBuffer
        rw [← hdotArticle] at harticle
        obtain ⟨hover, hoverArticle⟩ := hdot.overlay harticle
          ((memory₁.makeDotBuffer.buffer contents).elim [] Buffer.text)
        rw [← hoverArticle] at harticle
        simp only
        generalize memory₁.makeDotBuffer.overlay article
          ((memory₁.makeDotBuffer.buffer contents).elim [] Buffer.text) = laid at *
        obtain ⟨bs₀, memory₂⟩ := laid
        have hsound := hover.article a article harticle
        have hgiven : Inv (memory₂.delBuffer contents) (bs₀ ++ bs) ms 0 :=
          (hover.perm List.perm_middle.symm).delBuffer
        have harticle' : (memory₂.delBuffer contents).article a = some article := by
          rw [delBuffer_article]
          exact harticle
        refine hgiven.setArticle harticle' ⟨hsound.positive, ?_, hsound.unmapped⟩ rfl (fun b => ?_)
          (fun _ => rfl) rfl
        · intro h
          exact absurd (hsome.symm.trans h) (Option.some_ne_none contents)
        · rw [Article.bufferRefs, Article.bufferRefs, hnone, List.count_append]
          change article.contents.toList.count b + bs₀.count b + bs.count b =
            article.contents.toList.count b + 0 + (bs₀.count b + bs.count b)
          omega

theorem Inv.takeRefs {bs₀ : List Nat} (hinv : Inv memory bs ms n)
    (hpos : ∀ b ∈ bs₀, 0 < memory.bufferRefs b) :
    Inv (bs₀.foldl Memory.bufferTakeRef memory) (bs₀ ++ bs) ms n ∧
      (bs₀.foldl Memory.bufferTakeRef memory).held = memory.held := by
  induction bs₀ generalizing memory bs with
  | nil => exact ⟨hinv, rfl⟩
  | cons b bs₀ ih =>
    have hkeeps := keeps_bufferTakeRef memory b
    have htaken :=
      hinv.bufferTakeRef (Nat.lt_of_lt_of_le (hpos b List.mem_cons_self) (Nat.le_add_right _ _))
    obtain ⟨hrest, hheld⟩ := ih htaken fun b' hb' => by
      rw [hkeeps.bufferRefs]
      exact hpos b' (List.mem_cons_of_mem b hb')
    exact ⟨hrest.perm List.perm_middle.symm, hheld.trans hkeeps.held⟩

theorem Inv.hold {held : List Nat} (hinv : Inv memory bs ms n)
    (hcount : ∀ b, held.count b + bs'.count b = memory.held.count b + bs.count b) :
    Inv { memory with held := held } bs' ms n :=
  ⟨hinv.refs.hold hcount,
    { hinv.table with },
    hinv.article, hinv.bytes, hinv.articles⟩

theorem Inv.artGetNntpBuffers {a : Nat} {stored : Stored} (hinv : Inv memory bs ms 0)
    (hfits : stored.fits memory = true) : Inv (memory.artGetNntpBuffers a stored) bs ms 0 := by
  have hprepared := hinv.prepareArticleForNNTP (a := a) hfits
  unfold Memory.artGetNntpBuffers
  cases hcase : memory.prepareArticleForNNTP a stored with
  | mk ok memory₁ =>
    rw [hcase] at hprepared
    cases ok with
    | false => exact hprepared
    | true =>
      have hpos : ∀ b ∈ ((memory₁.article a).bind Article.nntpBuffers).getD [],
          0 < memory₁.bufferRefs b := by
        intro b hb
        cases harticle : memory₁.article a with
        | none =>
          rw [harticle] at hb
          exact absurd hb List.not_mem_nil
        | some article =>
          rw [harticle] at hb
          have hkey : a ∈ memory₁.keys := (hprepared.refs.present a).mpr (by rw [harticle]; rfl)
          have hle :
              article.bufferRefs b ≤ tally memory₁.keys memory₁.article (Article.bufferRefs b) :=
            le_tally hkey harticle
          have hone : 0 < (article.nntpBuffers.getD []).count b := List.count_pos_iff.mpr hb
          rw [Article.bufferRefs] at hle
          rw [Memory.bufferRefs]
          omega
      obtain ⟨htaken, hheld⟩ := hprepared.takeRefs hpos
      refine htaken.hold fun b => ?_
      rw [hheld, List.count_append, List.count_append]
      exact Nat.add_assoc _ _ _ |>.trans (Nat.add_left_comm _ _ _)

end Inn.Innfeed.Articles
