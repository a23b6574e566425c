import Inn.Buffindexed.Chains

/-!
# What a group holds

A call of `ovaddrec` adds the article to what its group holds, or leaves that as it is. The other
groups, whose blocks are others, keep what they hold.
-/

namespace Inn.Buffindexed

open Function (update update_self update_of_ne update_eq_self)
open List (mem_cons mem_append_left mem_append_right mem_append)

variable {v v' v'' : Volume} {allocated allocated' allocated'' : List OV} {ge ge' : GROUPENTRY}
    {blocks datas blocks' datas' : List OV}
  {entries : List OVINDEX} {added : List Overview} {o : Overview} {ov : OV} {first : Nat × Nat}

/-- `ie` says where the octets of `o` lie in the data blocks. -/
structure Stored (disk : Disk) (ge : GROUPENTRY) (datas : List OV) (ie : OVINDEX)
    (o : Overview) : Prop where
  entry : ie = ⟨o.artnum, ie.blocknum, ie.index, o.token, ie.offset, o.data.length,
    o.arrived, o.expires⟩
  place : ie.datablk ∈ datas
  octets : ((List.range o.data.length).map fun i => (disk ie.datablk).octets (ie.offset + i)) =
    o.data
  below : ie.datablk = ge.curdata → ie.offset + o.data.length ≤ ge.curoffset

def Indexed (disk : Disk) (ge : GROUPENTRY) (blocks : List OV) (entries : List OVINDEX) : Prop :=
  (ge.baseindex.index = NULLINDEX ∧ blocks = [] ∧ entries = []) ∨
    (Chain disk ge.curindex ge.curindexoffset ge.baseindex blocks entries ∧
      ge.curindexoffset ≤ OVINDEXMAX)

def numbers (first : Nat × Nat) (added : List Overview) : Nat × Nat :=
  added.foldl (fun n o => (lowered n.1 o.artnum, raised n.2 o.artnum)) first

/-- The blocks of a group, and the articles that its entries stand for. -/
structure Content (v : Volume) (allocated : List OV) (ge : GROUPENTRY) (first : Nat × Nat)
    (blocks datas : List OV) (entries : List OVINDEX) (added : List Overview) : Prop where
  inv : Inv ⟨v.state, allocated⟩
  mine : ∀ ov ∈ blocks ++ datas, ov ∈ allocated
  once : (blocks ++ datas).Nodup
  index : Indexed v.disk ge blocks entries
  data : ge.curdata.index = NULLINDEX ∨ ge.curdata ∈ datas
  stored : List.Forall₂ (Stored v.disk ge datas) entries added
  count : ge.count = Int.bmod added.length (2 ^ 32)
  range : (ge.low, ge.high) = numbers first added
  /-- Each data block is referred to, but for the current one while nothing is in it. -/
  refers : ∀ d ∈ datas, d = ge.curdata ∨ ∃ ie ∈ entries, ie.datablk = d
  filled : 0 < ge.curoffset → ∃ ie ∈ entries, ie.datablk = ge.curdata

/-- New blocks come from outside, and the blocks of others stay as they are. -/
structure Grown (v v' : Volume) (allocated allocated' own own' : List OV) : Prop where
  given : ∀ ov, ov ∈ allocated' ↔ ov ∈ allocated ∨ ov ∈ own'
  more : ∀ ov ∈ own, ov ∈ own'
  fresh : ∀ ov ∈ own', ov ∈ own ∨ ov ∉ allocated
  frame : ∀ ov, ov ∉ own' → v'.disk ov = v.disk ov

theorem Indexed.congr {disk disk' : Disk} (h : Indexed disk ge blocks entries)
    (hsame : ∀ b ∈ blocks, disk' b = disk b) :
    Indexed disk' ge blocks entries :=
  h.imp_right fun ⟨hchain, hle⟩ => ⟨hchain.congr hsame, hle⟩

theorem Stored.congr {disk disk' : Disk} {ie : OVINDEX} (h : Stored disk ge datas ie o)
    (hsame : disk' ie.datablk = disk ie.datablk) (hmore : ∀ d ∈ datas, d ∈ datas')
    (hbelow : ie.datablk = ge'.curdata → ie.offset + o.data.length ≤ ge'.curoffset) :
    Stored disk' ge' datas' ie o where
  entry := h.entry
  place := hmore _ h.place
  octets := by
    rw [hsame]
    exact h.octets
  below := hbelow

theorem Grown.refl {own : List OV} (hmine : ∀ ov ∈ own, ov ∈ allocated) :
    Grown v v allocated allocated own own where
  given ov := ⟨.inl, fun h => h.elim id (hmine ov)⟩
  more _ := id
  fresh _ := .inl
  frame _ _ := rfl

theorem Grown.trans {own own' own'' : List OV} (h : Grown v v' allocated allocated' own own')
    (h' : Grown v' v'' allocated' allocated'' own' own'') :
    Grown v v'' allocated allocated'' own own'' where
  given ov := by
    rw [h'.given, h.given]
    constructor
    · rintro ((hov | hov) | hov)
      · exact .inl hov
      · exact .inr (h'.more ov hov)
      · exact .inr hov
    · exact Or.imp_left .inl
  more ov hov := h'.more ov (h.more ov hov)
  fresh ov hov := by
    rcases h'.fresh ov hov with hold | hnew
    · exact h.fresh ov hold
    · exact .inr fun hold => hnew ((h.given ov).mpr (.inl hold))
  frame ov hov := by
    rw [h'.frame ov hov, h.frame ov fun hold => hov (h'.more ov hold)]

theorem Grown.write {own : List OV} {state : State} {disk : Disk}
    (hmine : ∀ ov ∈ own, ov ∈ allocated) (hframe : ∀ ov, ov ∉ own → disk ov = v.disk ov) :
    Grown v ⟨state, disk⟩ allocated allocated own own :=
  { Grown.refl (v := v) hmine with frame := hframe }

theorem Grown.take {own own' : List OV} (hmine : ∀ ov ∈ own, ov ∈ allocated) (hnew : ov ∉ allocated)
    (hown : ∀ b, b ∈ own' ↔ b = ov ∨ b ∈ own) (hframe : ∀ b, b ∉ own' → v'.disk b = v.disk b) :
    Grown v v' allocated (ov :: allocated) own own' where
  given b := by
    rw [mem_cons, hown, or_comm]
    constructor
    · exact Or.imp_right .inl
    · rintro (h | h | h)
      · exact .inl h
      · exact .inr h
      · exact .inl (hmine b h)
  more b h := (hown b).mpr (.inr h)
  fresh b h := ((hown b).mp h).elim (fun heq => .inr (heq ▸ hnew)) .inl
  frame := hframe

section Content

variable (h : Content v allocated ge first blocks datas entries added)

include h

theorem Content.frame (hinv : Inv ⟨v'.state, allocated'⟩)
    (hmine : ∀ ov ∈ blocks ++ datas, ov ∈ allocated')
    (hsame : ∀ ov ∈ blocks ++ datas, v'.disk ov = v.disk ov) :
    Content v' allocated' ge first blocks datas entries added :=
  { h with
    inv := hinv
    mine := hmine
    index := h.index.congr fun b hb => hsame b (mem_append_left _ hb)
    stored := h.stored.imp fun _ _ hie =>
      hie.congr (hsame _ (mem_append_right _ hie.place)) (fun _ => id) hie.below }

theorem Content.not_data (hov : ov ∈ blocks) : ov ∉ datas :=
  fun hdata => List.disjoint_of_nodup_append h.once hov hdata

omit h in
theorem Content.empty (hinv : Inv ⟨v.state, allocated⟩) (hempty : ge.Empty) :
    Content v allocated ge (ge.low, ge.high) [] [] [] [] where
  inv := hinv
  mine := nofun
  once := List.nodup_nil
  index := .inl ⟨by rw [hempty.baseindex]; rfl, rfl, rfl⟩
  data := .inl (by rw [hempty.curdata]; rfl)
  stored := .nil
  count := hempty.count
  range := rfl
  refers := nofun
  filled hpos := absurd hpos (by rw [hempty.curoffset]; exact Nat.lt_irrefl _)

theorem Content.setcurdata {len : Nat} (hlen : len ≤ OV_BLOCKSIZE) :
    ∃ done v' ge' allocated' datas', setcurdata v ge len = .ok (done, v', ge') ∧
      Content v' allocated' ge' first blocks datas' entries added ∧
      Grown v v' allocated allocated' (blocks ++ datas) (blocks ++ datas') ∧
      (done = true → ge'.curdata ∈ datas' ∧ ge'.curoffset + len ≤ OV_BLOCKSIZE) := by
  have hgrown : Grown v v allocated allocated (blocks ++ datas) (blocks ++ datas) := .refl h.mine
  unfold Buffindexed.setcurdata
  split
  next => exact ⟨_, _, _, _, _, rfl, h, hgrown, nofun⟩
  split
  next hneeded =>
    rcases newBlock_eq h.inv with hnone | ⟨ov, s', hnew, hnot, hinv'⟩
    · rw [hnone]
      exact ⟨_, _, _, _, _, rfl, h, hgrown, nofun⟩
    · rw [hnew]
      have hother (ov' : OV) (hov' : ov' ∈ blocks ++ datas) : ov' ≠ ov :=
        fun heq => hnot (heq ▸ h.mine ov' hov')
      refine ⟨_, _, _, ov :: allocated, ov :: datas, rfl, ?_, ?_, fun _ => ⟨List.mem_cons_self, ?_⟩⟩
      · refine ⟨hinv', fun b hb => ?_, ?_, h.index, .inr List.mem_cons_self, ?_, h.count, h.range,
          fun d hd => ?_, nofun⟩
        · rcases mem_append.mp hb with hb | hb
          · exact List.mem_cons_of_mem _ (h.mine b (mem_append_left _ hb))
          · rcases mem_cons.mp hb with rfl | hb
            · exact List.mem_cons_self
            · exact List.mem_cons_of_mem _ (h.mine b (mem_append_right _ hb))
        · exact List.nodup_middle.mpr (List.nodup_cons.mpr ⟨fun hb => hother ov hb rfl, h.once⟩)
        · refine h.stored.imp fun _ _ hie =>
            hie.congr rfl (fun d => List.mem_cons_of_mem _) fun heq => ?_
          exact absurd heq (hother _ (mem_append_right _ hie.place))
        · refine (mem_cons.mp hd).imp_right fun hd => ?_
          rcases h.refers d hd with rfl | hrefers
          · -- the block that is too short has something in it
            refine h.filled ?_
            have hroom := hneeded.resolve_left (h.inv.index_ne (h.mine _ (mem_append_right _ hd)))
            omega
          · exact hrefers
      · refine .take h.mine hnot (fun b => ?_) fun _ _ => rfl
        rw [mem_append, mem_cons, mem_append]
        exact or_left_comm
      · change 0 + len ≤ OV_BLOCKSIZE
        rwa [Nat.zero_add]
  next hroom =>
    refine ⟨_, _, _, _, _, rfl, h, hgrown,
      fun _ => ⟨h.data.resolve_left fun hnull => hroom (.inl hnull), ?_⟩⟩
    have := mt Or.inr hroom
    omega

theorem Content.writeData (hcur : ge.curdata ∈ datas) {data : List UInt8}
    (hroom : ge.curoffset + data.length ≤ OV_BLOCKSIZE) :
    ∃ disk, v.disk.writeData ge.curdata ge.curoffset data = .ok disk ∧
      Content { v with disk := disk } allocated ge first blocks datas entries added ∧
      Grown v { v with disk := disk } allocated allocated (blocks ++ datas) (blocks ++ datas) ∧
      ((List.range data.length).map fun i =>
          (disk ge.curdata).octets (ge.curoffset + i)) = data := by
  unfold Disk.writeData
  rw [if_neg (Nat.not_lt.mpr hroom)]
  refine ⟨_, rfl, ?_, ?_, ?_⟩
  · have hblocks (b : OV) (hb : b ∈ blocks) : b ≠ ge.curdata :=
      fun heq => h.not_data hb (heq ▸ hcur)
    refine { h with index := h.index.congr fun b hb =>
        update_of_ne (hblocks b hb) _ _, stored := ?_ }
    refine h.stored.imp fun ie _ hie => ⟨hie.entry, hie.place, ?_, hie.below⟩
    -- what is in the same block lies below the place that is written to
    by_cases heq : ie.datablk = ge.curdata
    · have hoctets := hie.octets
      have hbelow := hie.below heq
      rw [heq] at hoctets ⊢
      refine Eq.trans (List.map_congr_left fun i hi => ?_) hoctets
      have hi := List.mem_range.mp hi
      dsimp only
      rw [update_self]
      exact if_neg (by omega)
    · dsimp only
      rw [update_of_ne heq]
      exact hie.octets
  · refine .write h.mine fun b hb => update_of_ne ?_ _ _
    rintro rfl
    exact hb (mem_append_right _ hcur)
  · refine List.ext_getElem (by rw [List.length_map, List.length_range]) fun i hi hi' => ?_
    rw [List.getElem_map, List.getElem_range, update_self]
    dsimp only [OVBLOCK.octets]
    rw [if_pos (Nat.le_add_right _ _), Nat.add_sub_cancel_left, List.getD_eq_getElem?_getD,
      List.getElem?_eq_getElem hi', Option.getD_some]

end Content

theorem writeHead_self {disk : Disk} {head : OVINDEXHEAD} :
    disk.writeHead ov head ov = .index head (disk ov).ovindex :=
  update_self _ _ _

theorem writeHead_of_ne {disk : Disk} {head : OVINDEXHEAD} {b : OV} (hne : b ≠ ov) :
    disk.writeHead ov head b = disk b :=
  update_of_ne hne _ _

theorem Chain.cur_next {disk : Disk} {cur : OV} {offset : Nat}
    (h : Chain disk cur offset ov blocks entries) :
    (disk cur).ovindexhead.next = ovnull := by
  induction h with
  | last _ hnext => exact hnext
  | next _ _ _ ih => exact ih

section Content2

variable (h : Content v allocated ge first blocks datas entries added)

include h

theorem Content.chain (hbase : ge.baseindex.index ≠ NULLINDEX) :
    Chain v.disk ge.curindex ge.curindexoffset ge.baseindex blocks entries ∧
      ge.curindexoffset ≤ OVINDEXMAX :=
  h.index.resolve_left fun hempty => hbase hempty.1

theorem Content.ovsetcurindexblock
    (hfull : ge.baseindex.index = NULLINDEX ∨ ge.curindexoffset = OVINDEXMAX) :
    ∃ done v' ge' allocated' blocks', ovsetcurindexblock v ge = .ok (done, v', ge') ∧
      Content v' allocated' ge' first blocks' datas entries added ∧
      Grown v v' allocated allocated' (blocks ++ datas) (blocks' ++ datas) ∧
        (∀ d ∈ datas, v'.disk d = v.disk d) ∧
      (ge'.curdata = ge.curdata ∧ ge'.curoffset = ge.curoffset) ∧
      (done = true → ge'.baseindex.index ≠ NULLINDEX ∧ ge'.curindexoffset < OVINDEXMAX) ∧
        (done = false → blocks' = blocks) := by
  unfold Buffindexed.ovsetcurindexblock
  rcases newBlock_eq h.inv with hnone | ⟨ov, s', hnew, hnot, hinv'⟩
  · rw [hnone]
    exact ⟨_, _, _, _, _, rfl, h, .refl h.mine, fun _ _ => rfl, ⟨rfl, rfl⟩, nofun, fun _ => rfl⟩
  rw [hnew]
  dsimp only
  -- the new block is none of the group's, so nothing that the group holds is written over
  have hother (b : OV) (hb : b ∈ blocks ++ datas) : b ≠ ov := fun heq => hnot (heq ▸ h.mine b hb)
  have hov := hinv'.index_ne List.mem_cons_self
  have hown (b : OV) : b ∈ blocks ++ [ov] ++ datas ↔ b = ov ∨ b ∈ blocks ++ datas := by
    rw [mem_append, mem_append, mem_append, List.mem_singleton, or_right_comm, or_comm]
  have hmine (b : OV) (hb : b ∈ blocks ++ [ov] ++ datas) : b ∈ ov :: allocated :=
    mem_cons.mpr (((hown b).mp hb).imp_right (h.mine b))
  have honce : (blocks ++ [ov] ++ datas).Nodup := by
    rw [List.append_assoc]
    exact List.nodup_middle.mpr (List.nodup_cons.mpr ⟨fun hb => hother ov hb rfl, h.once⟩)
  have hstored {ge' : GROUPENTRY} {disk : Disk} (hdata : ge'.curdata = ge.curdata)
      (hoffset : ge'.curoffset = ge.curoffset)
      (hsame : ∀ d ∈ datas, disk d = v.disk d) :
        List.Forall₂ (Stored disk ge' datas) entries added :=
    h.stored.imp fun _ _ hie =>
      hie.congr (hsame _ hie.place) (fun _ => id) (by rw [hdata, hoffset]; exact hie.below)
  have hdatas (d : OV) (hd : d ∈ datas) : d ≠ ov := hother d (mem_append_right _ hd)
  have hzero : 0 < OVINDEXMAX := by decide
  split
  next hbase =>
    obtain ⟨_, rfl, rfl⟩ : ge.baseindex.index = NULLINDEX ∧ blocks = [] ∧ entries = [] :=
      h.index.resolve_right fun hchain => hchain.1.first_ne hbase
    have hdisk (d : OV) (hd : d ∈ datas) : v.disk.writeHead ov ⟨ovnull, 0, 0⟩ d = v.disk d :=
      writeHead_of_ne (hdatas d hd)
    refine ⟨_, _, _, ov :: allocated, [ov], rfl, ?_, ?_, hdisk, ⟨rfl, rfl⟩,
      fun _ => ⟨hov, hzero⟩, nofun⟩
    · refine ⟨hinv', hmine, honce, .inr ⟨?_, Nat.zero_le _⟩, h.data, hstored rfl rfl hdisk, h.count,
        h.range, h.refers, h.filled⟩
      refine .last hov ?_
      dsimp only
      rw [writeHead_self]
      rfl
    · exact .take h.mine hnot hown fun b hb => writeHead_of_ne fun heq =>
        hb ((hown b).mpr (.inl heq))
  next hbase =>
    obtain ⟨hchain, -⟩ := h.chain hbase
    rw [hfull.resolve_left hbase] at hchain
    have hcur := hchain.cur_mem
    have hcurov : ge.curindex ≠ ov := hother _ (mem_append_left _ hcur)
    rw [occupied_eq hinv' (List.mem_cons_of_mem _ (h.mine _ (mem_append_left _ hcur)))]
    have hdisk (b : OV) (hb : b ≠ ov) (hb' : b ≠ ge.curindex) :
        (v.disk.writeHead ov ⟨ovnull, 0, 0⟩).writeHead ge.curindex ⟨ov, ge.curlow, ge.curhigh⟩ b =
          v.disk b := by
      rw [writeHead_of_ne hb', writeHead_of_ne hb]
    have hdatas' (d : OV) (hd : d ∈ datas) :
        (v.disk.writeHead ov ⟨ovnull, 0, 0⟩).writeHead ge.curindex ⟨ov, ge.curlow,
          ge.curhigh⟩ d = v.disk d :=
      hdisk d (hdatas d hd) fun heq => h.not_data hcur (heq ▸ hd)
    refine ⟨_, _, _, ov :: allocated, blocks ++ [ov], rfl, ?_, ?_, hdatas', ⟨rfl, rfl⟩,
      fun _ => ⟨hbase, hzero⟩, nofun⟩
    · refine ⟨hinv', hmine, honce, .inr ⟨?_, Nat.zero_le _⟩, h.data, hstored rfl rfl hdatas',
        h.count, h.range, h.refers, h.filled⟩
      refine hchain.addBlock (fun hb => hother ov (mem_append_left _ hb) rfl) hov ?_ ?_ ?_ ?_
      · exact fun b hb hne => hdisk b (hother b (mem_append_left _ hb)) hne
      · dsimp only
        rw [writeHead_self]
        rfl
      · dsimp only
        rw [writeHead_self, writeHead_of_ne hcurov]
        rfl
      · dsimp only
        rw [writeHead_of_ne hcurov.symm, writeHead_self]
        rfl
    · refine .take h.mine hnot hown fun b hb => hdisk b (fun heq => hb ((hown b).mpr (.inl heq))) ?_
      rintro rfl
      exact hb ((hown _).mpr (.inr (mem_append_left _ hcur)))

omit h in
theorem lowered_le (low : Nat) {artnum : Nat} (hpos : 0 < artnum) :
    0 < lowered low artnum ∧ lowered low artnum ≤ artnum ∧
      (0 < low → lowered low artnum ≤ low) := by
  unfold lowered
  split <;> omega

omit h in
theorem le_raised (high artnum : Nat) :
    artnum ≤ raised high artnum ∧ high ≤ raised high artnum := by
  unfold raised
  split <;> omega

omit h in
theorem numbers_append (first : Nat × Nat) (added : List Overview) (o : Overview) :
    numbers first (added ++ [o]) = (lowered (numbers first added).1 o.artnum,
      raised (numbers first added).2 o.artnum) := by
  unfold numbers
  rw [List.foldl_append]
  rfl

omit h in
theorem numbers_within (first : Nat × Nat) (hpositive : ∀ o ∈ added, 0 < o.artnum)
    (ho : o ∈ added) :
    0 < (numbers first added).1 ∧ (numbers first added).1 ≤ o.artnum ∧
      o.artnum ≤ (numbers first added).2 := by
  -- the induction is on the last addition, as the numbers are those of the additions before it
  induction added using List.reverseRecOn with
  | nil => cases ho
  | append_singleton added last ih =>
    rw [numbers_append]
    obtain ⟨hpos, hle, hlower⟩ :=
      lowered_le (numbers first added).1
        (hpositive last (mem_append_right _ (List.mem_singleton.mpr rfl)))
    obtain ⟨hge, hhigher⟩ := le_raised (numbers first added).2 last.artnum
    rcases mem_append.mp ho with hold | hnew
    · obtain ⟨hlow', hfrom, hto⟩ := ih (fun a ha => hpositive a (mem_append_left _ ha)) hold
      exact ⟨hpos, (hlower hlow').trans hfrom, hto.trans hhigher⟩
    · obtain rfl := List.mem_singleton.mp hnew
      exact ⟨hpos, hle, hge⟩

omit h in
theorem writeIndex_eq {disk : Disk} (ie : OVINDEX) (hoffset : ge.curindexoffset < OVINDEXMAX)
    (hnext : (disk ge.curindex).ovindexhead.next = ovnull) :
    ∃ disk', disk.writeIndex ge ie = .ok disk' ∧ (disk' ge.curindex).ovindexhead.next = ovnull ∧
      (disk' ge.curindex).ovindex = update (disk ge.curindex).ovindex ge.curindexoffset ie ∧
      ∀ b, b ≠ ge.curindex → disk' b = disk b := by
  unfold Disk.writeIndex Disk.writeEntry
  rw [if_neg (Nat.not_le.mpr hoffset)]
  refine ⟨_, rfl, ?_⟩
  split
  · refine ⟨by rw [writeHead_self]; rfl, by rw [writeHead_self, update_self]; rfl, fun b hb => ?_⟩
    rw [writeHead_of_ne hb, update_of_ne hb]
  · refine ⟨?_, by rw [update_self]; rfl, fun b hb => update_of_ne hb _ _⟩
    rw [update_self]
    exact hnext

theorem Content.addIndex (hbase : ge.baseindex.index ≠ NULLINDEX)
    (hoffset : ge.curindexoffset < OVINDEXMAX) {ie : OVINDEX}
    (hie : Stored v.disk { ge with curoffset := ge.curoffset + o.data.length } datas ie o)
    (hcur : ie.datablk = ge.curdata) :
    ∃ v' ge', addIndex v ge ie = .ok (true, v', ge') ∧
      Content v' allocated ge' first blocks datas (entries ++ [ie]) (added ++ [o]) ∧
      Grown v v' allocated allocated (blocks ++ datas) (blocks ++ datas) := by
  obtain ⟨hchain, -⟩ := h.chain hbase
  have hindex := hchain.cur_mem
  obtain ⟨disk, hdisk, hnext, hentry, hsame⟩ := writeIndex_eq ie hoffset hchain.cur_next
  unfold Buffindexed.addIndex
  rw [occupied_eq h.inv (h.mine _ (mem_append_left _ hindex))]
  dsimp only
  rw [hdisk]
  have hdatas (d : OV) (hd : d ∈ datas) : disk d = v.disk d :=
    hsame d fun heq => h.not_data hindex (heq ▸ hd)
  refine ⟨_, _, rfl, ?_, ?_⟩
  · refine ⟨h.inv, h.mine, h.once, .inr ⟨hchain.addEntry (fun b _ => hsame b) hnext hentry,
      hoffset⟩, h.data, ?_, ?_, ?_, fun d hd => ?_,
      fun _ => ⟨ie, mem_append_right _ (List.mem_singleton.mpr rfl), hcur⟩⟩
    · refine List.rel_append (h.stored.imp fun _ _ hold => ?_) (.cons ?_ .nil)
      · exact hold.congr (hdatas _ hold.place) (fun _ => id) fun heq =>
          (hold.below heq).trans (Nat.le_add_right _ _)
      · have hlen : ie.len = o.data.length := by rw [hie.entry]
        exact hie.congr (hdatas _ hie.place) (fun _ => id) (by rw [hlen]; exact hie.below)
    · dsimp only
      rw [h.count, List.length_append, List.length_singleton, Int.bmod_add_bmod]
      rfl
    · have hartnum : ie.artnum = o.artnum := by rw [hie.entry]
      rw [numbers_append, ← h.range, ← hartnum]
    · exact (h.refers d hd).imp_right fun ⟨old, hold, heq⟩ => ⟨old, mem_append_left _ hold, heq⟩
  · refine .write h.mine fun b hb => hsame b ?_
    rintro rfl
    exact hb (mem_append_left _ hindex)

theorem Content.ovaddrec (o : Overview) :
    ∃ done v' ge' allocated' blocks' datas' entries', ovaddrec v ge o = .ok (done, v', ge') ∧
      Content v' allocated' ge' first blocks' datas' entries'
        (if done then added ++ [o] else added) ∧
      Grown v v' allocated allocated' (blocks ++ datas) (blocks' ++ datas') ∧
        ((entries = [] → blocks = []) → entries' = [] → blocks' = []) := by
  unfold Buffindexed.ovaddrec
  split
  next => exact ⟨_, _, _, _, _, _, _, rfl, h, .refl h.mine, id⟩
  next hlen =>
    obtain ⟨done, v₁, ge₁, allocated₁, datas₁, hset, h₁, hgrown₁, hroom⟩ :=
      h.setcurdata (Nat.not_lt.mp hlen)
    rw [hset]
    cases done with
    | false => exact ⟨_, _, _, _, _, _, _, rfl, h₁, hgrown₁, id⟩
    | true =>
      obtain ⟨hcur, hroom⟩ := hroom rfl
      dsimp only
      rw [occupied_eq h₁.inv (h₁.mine _ (mem_append_right _ hcur))]
      dsimp only
      obtain ⟨disk, hwrite, h₂, hgrown₂, hoctets⟩ := h₁.writeData hcur hroom
      have hgrown₂ := hgrown₁.trans hgrown₂
      have hstored : Stored disk { ge₁ with curoffset := ge₁.curoffset + o.data.length } datas₁
          ⟨o.artnum, ge₁.curdata.blocknum, ge₁.curdata.index, o.token, ge₁.curoffset, o.data.length,
            o.arrived, o.expires⟩ o :=
        ⟨rfl, hcur, hoctets, fun _ => Nat.le_refl _⟩
      rw [hwrite]
      dsimp only
      split
      next hfull =>
        obtain ⟨done, v₃, ge₃, allocated₃, blocks₃, hset, h₃, hgrown₃, hsame, ⟨hdata, hoffset⟩,
            hindex, hblocks⟩ := h₂.ovsetcurindexblock hfull
        rw [hset]
        have hgrown₃ := hgrown₂.trans hgrown₃
        cases done with
        | false => exact ⟨_, _, _, _, _, _, _, rfl, h₃, hgrown₃, fun hnone => hblocks rfl ▸ hnone⟩
        | true =>
          obtain ⟨hbase, hspace⟩ := hindex rfl
          obtain ⟨v₄, ge₄, hadd, h₄, hgrown₄⟩ :=
            h₃.addIndex hbase hspace (hstored.congr (hsame _ hcur) (fun _ => id) fun _ =>
              by rw [hoffset]) hdata.symm
          dsimp only
          rw [hadd]
          exact ⟨_, _, _, _, _, _, _, rfl, h₄, hgrown₃.trans hgrown₄,
            fun _ h => absurd h (List.append_ne_nil_of_right_ne_nil _ (List.cons_ne_nil _ _))⟩
      next hspace =>
        obtain ⟨hbase, hfull⟩ := not_or.mp hspace
        obtain ⟨v₃, ge₃, hadd, h₃, hgrown₃⟩ :=
          h₂.addIndex hbase (Nat.lt_of_le_of_ne (h₂.chain hbase).2 hfull) hstored rfl
        rw [hadd]
        exact ⟨_, _, _, _, _, _, _, rfl, h₃, hgrown₂.trans hgrown₃,
          fun _ h => absurd h (List.append_ne_nil_of_right_ne_nil _ (List.cons_ne_nil _ _))⟩

end Content2

/-- Each group has blocks of its own, which hold what it was given. -/
structure Store.Kept (store : Store) (allocated : List OV) (own : Nat → List OV) : Prop where
  groups : ∀ g, ∃ first blocks datas entries, own g = blocks ++ datas ∧
    (entries = [] → blocks = []) ∧
    Content store.volume allocated (store.GROUPentries g) first blocks datas entries (store.added g)
  apart : ∀ g g', g ≠ g' → ∀ ov ∈ own g, ov ∉ own g'

theorem Store.Kept.mine {store : Store} {own : Nat → List OV} (h : store.Kept allocated own)
    {g : Nat} (hov : ov ∈ own g) :
    ov ∈ allocated := by
  obtain ⟨_, _, _, _, hown, _, hcontent⟩ := h.groups g
  exact hcontent.mine ov (hown ▸ hov)

theorem Store.Kept.replace {store : Store} {own : Nat → List OV}
    (h : store.Kept allocated own) {g : Nat}
    (hcontent : Content v' allocated' ge' first blocks' datas' entries added)
    (hnone : entries = [] → blocks' = [])
    (hothers : ∀ g', g' ≠ g → ∀ ov ∈ own g', ov ∈ allocated' ∧ v'.disk ov = store.volume.disk ov ∧
      ov ∉ blocks' ++ datas') :
    Store.Kept ⟨v', update store.GROUPentries g ge', update store.added g added⟩ allocated'
      (update own g (blocks' ++ datas')) where
  groups g' := by
    by_cases hg : g' = g
    · subst hg
      refine ⟨first, blocks', datas', entries, update_self _ _ _, hnone, ?_⟩
      dsimp only
      rw [update_self, update_self]
      exact hcontent
    · obtain ⟨first₁, blocks₁, datas₁, entries₁, hown₁, hnone₁, hcontent₁⟩ := h.groups g'
      refine ⟨first₁, blocks₁, datas₁, entries₁, by rw [update_of_ne hg, hown₁], hnone₁, ?_⟩
      have hother (ov : OV) (hov : ov ∈ blocks₁ ++ datas₁) := hothers g' hg ov (hown₁ ▸ hov)
      dsimp only
      rw [update_of_ne hg, update_of_ne hg]
      exact hcontent₁.frame hcontent.inv (fun ov hov => (hother ov hov).1) fun ov hov =>
        (hother ov hov).2.1
  apart g' g'' hne ov hov := by
    by_cases hg : g' = g
    · subst hg
      rw [update_self] at hov
      rw [update_of_ne hne.symm]
      exact fun hov' => (hothers g'' hne.symm ov hov').2.2 hov
    · rw [update_of_ne hg] at hov
      by_cases hg' : g'' = g
      · subst hg'
        rw [update_self]
        exact (hothers g' hg ov hov).2.2
      · rw [update_of_ne hg']
        exact h.apart g' g'' hne ov hov

theorem Store.Kept.others {store : Store} {own : Nat → List OV} (h : store.Kept allocated own)
    {g : Nat} {own' own'' : List OV}
    (hgrown : Grown store.volume v' allocated allocated' own' own'')
    (hown : ∀ ov ∈ own', ov ∈ own g) (g' : Nat) (hne : g' ≠ g) (ov : OV) (hov : ov ∈ own g') :
    ov ∈ allocated' ∧ v'.disk ov = store.volume.disk ov ∧ ov ∉ own'' := by
  have hnew : ov ∉ own'' := by
    intro hnew
    rcases hgrown.fresh ov hnew with hold | hfree
    · exact h.apart g' g hne ov hov (hown ov hold)
    · exact hfree (h.mine hov)
  exact ⟨(hgrown.given ov).mpr (.inl (h.mine hov)), hgrown.frame ov hnew, hnew⟩

theorem Store.step_added {store store' : Store} {call : Nat × Overview}
    (hstep : store.step call = .ok store') :
    store'.added = store.added ∨
      store'.added = update store.added call.1 (store.added call.1 ++ [call.2]) := by
  unfold Store.step at hstep
  split at hstep
  next => cases hstep
  next done volume ge _ =>
    cases hstep
    cases done with
    | false => exact .inl rfl
    | true => exact .inr rfl

theorem Store.Kept.step {store : Store} {own : Nat → List OV} (h : store.Kept allocated own)
    (call : Nat × Overview) :
    ∃ store' allocated' own', store.step call = .ok store' ∧ store'.Kept allocated' own' := by
  obtain ⟨g, o⟩ := call
  obtain ⟨first, blocks, datas, entries, hown, hnone, hcontent⟩ := h.groups g
  obtain ⟨done, v', ge', allocated', blocks', datas', entries', hadd, hcontent', hgrown, hnone'⟩ :=
    hcontent.ovaddrec o
  have hkept := h.replace hcontent' (hnone' hnone) (h.others hgrown fun ov hov => hown ▸ hov)
  unfold Store.step
  rw [hadd]
  refine ⟨_, allocated', update own g (blocks' ++ datas'), rfl, ?_⟩
  cases done with
  | false =>
    rw [if_neg Bool.false_ne_true, update_eq_self] at hkept
    exact hkept
  | true => exact hkept

theorem Store.kept_of_empty {store : Store} (hinv : Inv ⟨store.volume.state, allocated⟩)
    (hempty : ∀ g, (store.GROUPentries g).Empty)
    (hnone : ∀ g, store.added g = []) : store.Kept allocated fun _ => [] where
  groups g := by
    refine ⟨((store.GROUPentries g).low, (store.GROUPentries g).high), [], [], [], rfl,
      fun _ => rfl, ?_⟩
    rw [hnone]
    exact .empty hinv (hempty g)
  apart _ _ _ := nofun

end Inn.Buffindexed
