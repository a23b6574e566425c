import Inn.Foundation.Runs
import Inn.History.Line
import Inn.Lib.Nodes

/-!
# The cache of storage tokens

An entry is in the tree under its hash, and in one of two lists: those that a final lookup has found
are thrown away first. The tree is a finite map; its keys are the texts of the hashes, of which
there is one for each hash.
-/

namespace Inn.Nnrpd.Tokens

open Function (update update_self update_of_ne)
open Foundation.Ended Foundation.Runs Lib.Nodes
open History (TOKEN)

def TOKEN_EMPTY : UInt8 := 255

def emptyToken : TOKEN := ⟨TOKEN_EMPTY :: List.replicate 17 0, rfl⟩

inductive Which
  | unused
  | used
  deriving DecidableEq

structure CacheEntry where
  hash : HASH
  token : TOKEN

abbrev Tree := AList fun _ : HASH => Nat

/-- The tree of hashes and the two lists of its entries. -/
structure Cache where
  msgidcache : Option Tree
  msgcachecount : UInt64
  nodes : Links (Place Which Nat)
  entry : Nat → Option CacheEntry
  allocated : Nat
  lastHash : HASH
  lastToken : TOKEN

def Cache.tree (c : Cache) : Tree := c.msgidcache.getD ∅

def start (c : Cache) : Cache :=
  match c.msgidcache with
  | some _ => c
  | none => { c with msgidcache := some ∅, nodes := listNew .used (listNew .unused c.nodes) }

def move (list : Which) (i : Nat) (nodes : Links (Place Which Nat)) :
    Option (Links (Place Which Nat)) := do
  let nodes ← listRemove (.node i) nodes
  listAddtail list (.node i) nodes

def insert (c : Cache) (h : HASH) (t : TOKEN) : Option Cache := do
  match c.tree.lookup h with
  | some old =>
    let nodes ← move .unused old c.nodes
    return { c with nodes, allocated := c.allocated + 1 }
  | none =>
    let nodes ← listAddtail .unused (.node c.allocated) c.nodes
    return { c with
      msgidcache := some (c.tree.insert h c.allocated)
      msgcachecount := c.msgcachecount + 1
      nodes
      entry := update c.entry c.allocated (some ⟨h, t⟩)
      allocated := c.allocated + 1 }

def victim (nodes : Links (Place Which Nat)) :
    Option (Option (Place Which Nat) × Links (Place Which Nat)) := do
  match ← listRemhead .used nodes with
  | (some place, nodes) => return (some place, nodes)
  | (none, nodes) => listRemhead .unused nodes

def throwAway (c : Cache) : Option Cache := do
  match ← victim c.nodes with
  | (none, nodes) => return { c with nodes }
  | (some (.node i), nodes) =>
    let entry ← c.entry i
    return { c with
      msgidcache := some (c.tree.erase entry.hash), nodes, entry := update c.entry i none }
  | (some _, _) => none

def cacheAdd (msgidcachesize : UInt64) (c : Cache) (h : HASH) (t : TOKEN) : Option Cache :=
  if msgidcachesize ≠ 0 then do
    let c ← insert (start c) h t
    if msgidcachesize ≤ c.msgcachecount then throwAway c else return c
  else some c

def cacheGet (c : Cache) (h : HASH) (final : Bool) : Option (TOKEN × Cache) :=
  if h = c.lastHash ∧ HashEmpty c.lastHash = false then some (c.lastToken, c)
  else
    match c.tree.lookup h with
    | none => some (emptyToken, c)
    | some i => do
        let nodes ← move (if final then .used else .unused) i c.nodes
        let entry ← c.entry i
        return (entry.token, { c with nodes, lastHash := entry.hash, lastToken := entry.token })

section Sessions

inductive Call
  | add (h : HASH) (t : TOKEN)
  | get (h : HASH) (final : Bool)

structure Session where
  cache : Cache
  first : HASH → Option TOKEN
  last : HASH → Option TOKEN

def initial : Session where
  cache :=
    { msgidcache := none
      msgcachecount := 0
      nodes := ⟨fun _ => none, fun _ => none⟩
      entry := fun _ => none
      allocated := 0
      lastHash := HashClear
      lastToken := ⟨List.replicate 18 0, History.zeros_length⟩ }
  first _ := none
  last _ := none

def Session.added (s : Session) (cache : Cache) (h : HASH) (t : TOKEN) : Session where
  cache := cache
  first g := if g ∈ cache.tree then (s.first g).or (if g = h then some t else none) else none
  last g := if g ∈ cache.tree then if g = h then some t else s.last g else none

def Session.looked (s : Session) (cache : Cache) (h : HASH) (final : Bool) : Session :=
  { s with cache, last := if final then update s.last h none else s.last }

def step (msgidcachesize : UInt64) (s : Session) : Call → Except Unit Session
  | .add h t =>
    match cacheAdd msgidcachesize s.cache h t with
    | none => .error ()
    | some cache => .ok (s.added cache h t)
  | .get h final =>
    match cacheGet s.cache h final with
    | none => .error ()
    | some (_, cache) => .ok (s.looked cache h final)

variable (msgidcachesize : UInt64)

def Listed (c : Cache) : Prop :=
  ∃ lists, Holds c.nodes lists ∧ (lists .unused ++ lists .used).Perm (c.tree.entries.map Sigma.snd)

structure Counted (c : Cache) : Prop where
  tree : c.msgcachecount.toNat = c.tree.entries.length
  lists : c.msgidcache ≠ none → Listed c
  bounded : c.msgcachecount ≤ msgidcachesize

def Right (s : Session) : Call → Prop
  | .add h t => ∃ cache, cacheAdd msgidcachesize s.cache h t = some cache ∧
      Counted msgidcachesize cache ∧
      ∀ g, g = h ∨ g ∈ s.cache.tree → g ∉ cache.tree →
        msgidcachesize.toNat ≤ (s.cache.tree.insert h 0).entries.length
  | .get h final => ∃ token cache, cacheGet s.cache h final = some (token, cache) ∧
      Counted msgidcachesize cache ∧
      cache.tree = s.cache.tree ∧ token = (s.last h).getD emptyToken

def Condition (s : Session) : Call → Prop
  | .add h _ => msgidcachesize = 0 ∨ h ∈ s.cache.tree ∨
      s.cache.tree.entries.length + 1 < msgidcachesize.toNat
  | .get h _ => (s.first h).getD emptyToken = (s.last h).getD emptyToken

/-- The cache holds at most its size, and tells what it was given. -/
structure Inv (s : Session) : Prop where
  counted : Counted msgidcachesize s.cache
  off : msgidcachesize = 0 → s.cache.msgidcache = none
  room : msgidcachesize ≠ 0 → s.cache.tree.entries.length < msgidcachesize.toNat
  known : ∀ {h i}, s.cache.tree.lookup h = some i →
    i < s.cache.allocated ∧ ∃ t, s.cache.entry i = some ⟨h, t⟩ ∧ s.first h = some t
  unknown : ∀ {h}, h ∉ s.cache.tree → s.first h = none ∧ s.last h = none
  shortcut : HashEmpty s.cache.lastHash = false → s.first s.cache.lastHash = some s.cache.lastToken

end Sessions

section Lists

variable {c : Cache} {h : HASH} {t : TOKEN} {i : Nat}

theorem mem_entries : i ∈ c.tree.entries.map Sigma.snd ↔ ∃ h, c.tree.lookup h = some i := by
  rw [List.mem_map]
  constructor
  · rintro ⟨⟨h, i⟩, hmem, rfl⟩
    exact ⟨h, AList.mem_lookup_iff.mpr hmem⟩
  · rintro ⟨h, hlookup⟩
    exact ⟨⟨h, i⟩, AList.mem_lookup_iff.mp hlookup, rfl⟩

theorem holds_new (nodes : Links (Place Which Nat)) :
    Holds (listNew .used (listNew .unused nodes)) fun _ => [] := by
  refine ⟨fun list => ⟨by simp [places], ?_⟩, fun list => ?_, nofun⟩
  · rw [places, List.map_nil, List.nil_append, List.isChain_pair]
    cases list with
    | unused => exact ⟨rfl, rfl⟩
    | used => exact ⟨rfl, rfl⟩
  · cases list with
    | unused => exact ⟨rfl, rfl⟩
    | used => exact ⟨rfl, rfl⟩

theorem listed_start (hlists : c.msgidcache ≠ none → Listed c) : Listed (start c) := by
  cases hcache : c.msgidcache with
  | none =>
    rw [start, hcache]
    exact ⟨fun _ => [], holds_new c.nodes, List.Perm.refl []⟩
  | some tree =>
    have hsame : start c = c := by rw [start, hcache]
    rw [hsame]
    exact hlists (by rw [hcache]; nofun)

theorem move_eq (hlisted : Listed c) (hi : ∃ h, c.tree.lookup h = some i) (list : Which) :
    ∃ nodes, move list i c.nodes = some nodes ∧ Listed { c with nodes } := by
  obtain ⟨lists, hholds, hperm⟩ := hlisted
  obtain ⟨origin, horigin⟩ : ∃ origin, i ∈ lists origin := by
    rcases List.mem_append.mp (hperm.mem_iff.mpr (mem_entries.mpr hi)) with hmem | hmem
    · exact ⟨.unused, hmem⟩
    · exact ⟨.used, hmem⟩
  have hold := List.perm_cons_erase horigin
  obtain ⟨nodes₁, hremove, hholds₁⟩ := hholds.listRemove horigin
  have hgone (other : Which) : i ∉ update lists origin ((lists origin).erase i) other := by
    by_cases hother : other = origin
    · rw [hother, update_self]
      exact (hholds.nodup origin).not_mem_erase
    · rw [update_of_ne hother]
      exact fun hmem => hother (hholds.disjoint hmem horigin)
  obtain ⟨nodes₂, hadd, hholds₂⟩ := hholds₁.listAddtail list hgone
  refine ⟨nodes₂, by rw [move, hremove]; exact hadd, _, hholds₂, List.Perm.trans ?_ hperm⟩
  -- The entry is taken out on one side and put in on the same or the other side.
  refine List.perm_iff_count.mpr fun j => ?_
  have hcount := hold.count_eq j
  rw [List.count_cons] at hcount
  cases origin <;> cases list <;> simp [List.count_append, List.count_cons] at hcount ⊢ <;> omega

def inserted (c : Cache) (h : HASH) (t : TOKEN) (nodes : Links (Place Which Nat)) : Cache :=
  { c with
    msgidcache := some (c.tree.insert h c.allocated)
    msgcachecount := c.msgcachecount + 1
    nodes
    entry := update c.entry c.allocated (some ⟨h, t⟩)
    allocated := c.allocated + 1 }

theorem insert_new (hlisted : Listed c)
    (hbelow : ∀ {g i}, c.tree.lookup g = some i → i < c.allocated) (hnew : h ∉ c.tree) (t : TOKEN) :
    ∃ nodes, insert c h t = some (inserted c h t nodes) ∧ Listed (inserted c h t nodes) := by
  obtain ⟨lists, hholds, hperm⟩ := hlisted
  have hfresh (list : Which) : c.allocated ∉ lists list := by
    intro hmem
    have hboth : c.allocated ∈ lists .unused ++ lists .used := by
      cases list with
      | unused => exact List.mem_append_left _ hmem
      | used => exact List.mem_append_right _ hmem
    obtain ⟨g, hg⟩ := mem_entries.mp (hperm.mem_iff.mp hboth)
    exact Nat.lt_irrefl _ (hbelow hg)
  obtain ⟨nodes, hadd, hholds'⟩ := hholds.listAddtail .unused hfresh
  refine ⟨nodes, ?_, _, hholds', ?_⟩
  · rw [insert, AList.lookup_eq_none.mpr hnew, hadd]
    rfl
  · have hentries : (inserted c h t nodes).tree.entries = ⟨h, c.allocated⟩ :: c.tree.entries :=
      AList.entries_insert_of_notMem hnew
    rw [hentries, List.map_cons, update_self, update_of_ne (show Which.used ≠ .unused from nofun),
      List.append_assoc]
    exact List.perm_middle.trans (hperm.cons _)

theorem insert_known (hlisted : Listed c) {old : Nat}
    (hknown : c.tree.lookup h = some old) (t : TOKEN) :
    ∃ nodes, insert c h t = some { c with nodes, allocated := c.allocated + 1 } ∧
      Listed { c with nodes } := by
  obtain ⟨nodes, hmove, hlisted'⟩ := move_eq hlisted ⟨h, hknown⟩ .unused
  refine ⟨nodes, ?_, hlisted'⟩
  rw [insert, hknown]
  dsimp only
  rw [hmove]
  rfl

theorem throwAway_length (hlisted : Listed c)
    (hentry : ∀ {g i}, c.tree.lookup g = some i → ∃ t, c.entry i = some ⟨g, t⟩)
    (hne : c.tree.entries ≠ []) {c' : Cache} (hthrow : throwAway c = some c') :
    c'.tree.entries.length + 1 = c.tree.entries.length ∧ c'.msgcachecount = c.msgcachecount := by
  obtain ⟨lists, hholds, hperm⟩ := hlisted
  obtain ⟨i, nodes, hvictim, hi⟩ : ∃ i nodes, victim c.nodes = some (some (.node i), nodes) ∧
      i ∈ lists .unused ++ lists .used := by
    cases hused : lists .used with
    | cons i rest =>
      obtain ⟨nodes, hhead, -⟩ := hholds.listRemhead_cons hused
      exact ⟨i, nodes, by rw [victim, hhead]; rfl, by simp⟩
    | nil =>
      cases hunused : lists .unused with
      | cons i rest =>
        obtain ⟨nodes, hhead, -⟩ := hholds.listRemhead_cons hunused
        exact ⟨i, nodes, by rw [victim, hholds.listRemhead_nil hused]; exact hhead, by simp⟩
      | nil =>
        rw [hused, hunused] at hperm
        exact absurd (List.map_eq_nil_iff.mp hperm.nil_eq.symm) hne
  obtain ⟨g, hg⟩ := mem_entries.mp (hperm.mem_iff.mp hi)
  obtain ⟨t, ht⟩ := hentry hg
  rw [throwAway, hvictim] at hthrow
  simp only [Option.bind_eq_bind, Option.bind_some, ht] at hthrow
  cases hthrow
  refine ⟨?_, rfl⟩
  have hmem : g ∈ c.tree.keys := AList.lookup_isSome.mp (by rw [hg]; rfl)
  have hkeys : (c.tree.erase g).keys = c.tree.keys.erase g := AList.keys_erase g c.tree
  have hlength := congrArg List.length hkeys
  rw [List.length_erase_of_mem hmem] at hlength
  simp only [AList.keys, List.keys, List.length_map] at hlength
  have := List.length_pos_iff.mpr hne
  change (c.tree.erase g).entries.length + 1 = _
  omega

end Lists

section Additions

variable {msgidcachesize : UInt64} {s : Session} {h : HASH} {t : TOKEN}

section Invariant

variable (hinv : Inv msgidcachesize s)

include hinv

theorem Inv.count_lt (hsize : msgidcachesize ≠ 0) :
    s.cache.msgcachecount.toNat < msgidcachesize.toNat :=
  hinv.counted.tree ▸ hinv.room hsize

omit hinv in
theorem start_eq (c : Cache) : ∃ nodes, start c = { c with msgidcache := some c.tree, nodes } := by
  obtain ⟨msgidcache, count, nodes, entry, allocated, hash, token⟩ := c
  cases msgidcache with
  | none => exact ⟨_, rfl⟩
  | some tree => exact ⟨nodes, rfl⟩

theorem add_known (hsize : msgidcachesize ≠ 0) {old : Nat}
    (hknown : s.cache.tree.lookup h = some old) (t : TOKEN) :
    ∃ nodes, cacheAdd msgidcachesize s.cache h t =
        some { s.cache with
          msgidcache := some s.cache.tree, nodes, allocated := s.cache.allocated + 1 } ∧
      Listed { s.cache with msgidcache := some s.cache.tree, nodes } := by
  have hlisted := listed_start hinv.counted.lists
  obtain ⟨nodes₀, hstart⟩ := start_eq s.cache
  rw [hstart] at hlisted
  obtain ⟨nodes, hinsert, hlisted'⟩ := insert_known hlisted hknown t
  refine ⟨nodes, ?_, hlisted'⟩
  have hcount : ¬msgidcachesize ≤ s.cache.msgcachecount := by
    rw [UInt64.le_iff_toNat_le]
    exact Nat.not_le.mpr (hinv.count_lt hsize)
  rw [cacheAdd, if_pos hsize, hstart, hinsert]
  exact if_neg hcount

theorem add_new (hsize : msgidcachesize ≠ 0) (hnew : h ∉ s.cache.tree) (t : TOKEN) :
    ∃ nodes, Listed (inserted s.cache h t nodes) ∧ cacheAdd msgidcachesize s.cache h t =
      if msgidcachesize ≤ s.cache.msgcachecount + 1 then throwAway (inserted s.cache h t nodes)
      else some (inserted s.cache h t nodes) := by
  have hlisted := listed_start hinv.counted.lists
  obtain ⟨nodes₀, hstart⟩ := start_eq s.cache
  rw [hstart] at hlisted
  obtain ⟨nodes, hinsert, hlisted'⟩ := insert_new hlisted (fun hg => (hinv.known hg).1) hnew t
  refine ⟨nodes, hlisted', ?_⟩
  rw [cacheAdd, if_pos hsize, hstart, hinsert]
  rfl

theorem count_succ (hsize : msgidcachesize ≠ 0) :
    (s.cache.msgcachecount + 1).toNat = s.cache.tree.entries.length + 1 := by
  have := hinv.count_lt hsize
  have := msgidcachesize.toNat_lt
  rw [UInt64.toNat_add, ← hinv.counted.tree]
  exact Nat.mod_eq_of_lt (by change _ + 1 < _; omega)

omit hinv in
theorem inserted_length (hnew : h ∉ s.cache.tree) (i : Nat) :
    (s.cache.tree.insert h i).entries.length = s.cache.tree.entries.length + 1 :=
  congrArg List.length (AList.entries_insert_of_notMem hnew)

theorem inserted_entry (nodes : Links (Place Which Nat)) {g : HASH} {i : Nat}
    (hg : (inserted s.cache h t nodes).tree.lookup g = some i) :
    i < (inserted s.cache h t nodes).allocated ∧
      ∃ u, (inserted s.cache h t nodes).entry i = some ⟨g, u⟩ ∧
      (g = h ∧ u = t ∨ g ≠ h ∧ s.first g = some u) := by
  change (s.cache.tree.insert h s.cache.allocated).lookup g = some i at hg
  change i < s.cache.allocated + 1 ∧
    ∃ u, update s.cache.entry s.cache.allocated (some ⟨h, t⟩) i = _ ∧ _
  by_cases hgh : g = h
  · subst hgh
    rw [AList.lookup_insert] at hg
    cases hg
    exact ⟨Nat.lt_succ_self _, t, update_self .., .inl ⟨rfl, rfl⟩⟩
  · rw [AList.lookup_insert_ne hgh] at hg
    obtain ⟨hlt, u, hu, hfirst⟩ := hinv.known hg
    exact ⟨Nat.lt_succ_of_lt hlt, u, by rw [update_of_ne hlt.ne, hu], .inr ⟨hgh, hfirst⟩⟩

theorem counted_inserted (hsize : msgidcachesize ≠ 0) (hnew : h ∉ s.cache.tree)
    {nodes : Links (Place Which Nat)} (hlisted : Listed (inserted s.cache h t nodes)) :
    Counted msgidcachesize (inserted s.cache h t nodes) where
  tree := (count_succ hinv hsize).trans (inserted_length hnew _).symm
  lists _ := hlisted
  bounded := by
    rw [UInt64.le_iff_toNat_le]
    exact (count_succ hinv hsize).trans_le (hinv.room hsize)

theorem add_right_iff (h : HASH) (t : TOKEN) :
    Right msgidcachesize s (.add h t) ↔ Condition msgidcachesize s (.add h t) := by
  by_cases hsize : msgidcachesize = 0
  · refine iff_of_true ⟨s.cache,
      by rw [cacheAdd, if_neg (not_not.mpr hsize)], hinv.counted, fun g _ _ => ?_⟩ (.inl hsize)
    rw [hsize]
    exact Nat.zero_le _
  by_cases hnew : h ∈ s.cache.tree
  · obtain ⟨old, hold⟩ := Option.isSome_iff_exists.mp (AList.lookup_isSome.mpr hnew)
    obtain ⟨nodes, hadd, hlisted⟩ := add_known hinv hsize hold t
    refine iff_of_true ⟨_, hadd, ⟨hinv.counted.tree, fun _ => hlisted, hinv.counted.bounded⟩,
      ?_⟩ (.inr (.inl hnew))
    rintro g (rfl | hg) hlost
    · exact absurd hnew hlost
    · exact absurd hg hlost
  obtain ⟨nodes, hlisted, hadd⟩ := add_new hinv hsize hnew t
  have hcondition : Condition msgidcachesize s (.add h t) ↔
      ¬msgidcachesize ≤ s.cache.msgcachecount + 1 := by
    rw [UInt64.le_iff_toNat_le, count_succ hinv hsize, Nat.not_le]
    exact ⟨fun hcond => (hcond.resolve_left hsize).resolve_left hnew, fun hlt => .inr (.inr hlt)⟩
  rw [hcondition]
  constructor
  · rintro ⟨cache, hcache, hcounted, -⟩ hfull
    rw [hadd, if_pos hfull] at hcache
    obtain ⟨hlength, hcount⟩ := throwAway_length hlisted
      (fun hg => (inserted_entry hinv nodes hg).2.imp fun u hu => hu.1)
      (List.ne_nil_of_length_eq_add_one (inserted_length hnew _)) hcache
    have htree := hcounted.tree
    rw [hcount] at htree
    change (s.cache.msgcachecount + 1).toNat = _ at htree
    rw [count_succ hinv hsize] at htree
    change _ = (s.cache.tree.insert h s.cache.allocated).entries.length at hlength
    rw [inserted_length hnew] at hlength
    omega
  · intro hroom
    refine ⟨_, hadd.trans (if_neg hroom), counted_inserted hinv hsize hnew hlisted, ?_⟩
    exact fun g hg hlost => absurd ((AList.mem_insert _).mpr hg) hlost

theorem Inv.mem_of_first {g : HASH} {u : TOKEN} (hg : s.first g = some u) :
    g ∈ s.cache.tree := by
  by_contra hnot
  rw [(hinv.unknown hnot).1] at hg
  cases hg

omit hinv in
theorem first_added {cache : Cache} {g : HASH} {u : TOKEN} (hg : g ∈ cache.tree)
    (hfirst : s.first g = some u) :
    (s.added cache h t).first g = some u :=
  (if_pos hg).trans (by rw [hfirst, Option.some_or])

theorem Inv.add (hcondition : Condition msgidcachesize s (.add h t)) {cache : Cache}
    (hcache : cacheAdd msgidcachesize s.cache h t = some cache) :
      Inv msgidcachesize (s.added cache h t) := by
  have hunknown {g : HASH} (hg : g ∉ cache.tree) :
      (s.added cache h t).first g = none ∧ (s.added cache h t).last g = none :=
    ⟨if_neg hg, if_neg hg⟩
  by_cases hsize : msgidcachesize = 0
  · rw [cacheAdd, if_neg (not_not.mpr hsize)] at hcache
    cases hcache
    refine ⟨hinv.counted, hinv.off, hinv.room, fun hg => ?_, hunknown, fun hlast => ?_⟩
    · obtain ⟨hlt, u, hu, hfirst⟩ := hinv.known hg
      exact ⟨hlt, u, hu, first_added (hinv.mem_of_first hfirst) hfirst⟩
    · exact first_added (hinv.mem_of_first (hinv.shortcut hlast)) (hinv.shortcut hlast)
  by_cases hnew : h ∈ s.cache.tree
  · obtain ⟨old, hold⟩ := Option.isSome_iff_exists.mp (AList.lookup_isSome.mpr hnew)
    obtain ⟨nodes, hadd, hlisted⟩ := add_known hinv hsize hold t
    cases hadd.symm.trans hcache
    refine ⟨⟨hinv.counted.tree, fun _ => hlisted, hinv.counted.bounded⟩,
      fun h => absurd h hsize, hinv.room,
      fun hg => ?_, hunknown, fun hlast => ?_⟩
    · obtain ⟨hlt, u, hu, hfirst⟩ := hinv.known hg
      exact ⟨Nat.lt_succ_of_lt hlt, u, hu, first_added (hinv.mem_of_first hfirst) hfirst⟩
    · exact first_added (hinv.mem_of_first (hinv.shortcut hlast)) (hinv.shortcut hlast)
  · obtain ⟨nodes, hlisted, hadd⟩ := add_new hinv hsize hnew t
    have hlt := (hcondition.resolve_left hsize).resolve_left hnew
    have hroom : ¬msgidcachesize ≤ s.cache.msgcachecount + 1 := by
      rw [UInt64.le_iff_toNat_le, count_succ hinv hsize]
      exact Nat.not_le.mpr hlt
    rw [if_neg hroom] at hadd
    cases hadd.symm.trans hcache
    refine ⟨counted_inserted hinv hsize hnew hlisted, fun h => absurd h hsize, fun _ => ?_,
      fun {g i} hg => ?_,
      hunknown, fun hlast => ?_⟩
    · exact (inserted_length hnew _).trans_lt hlt
    · obtain ⟨hbelow, u, hu, hfrom⟩ := inserted_entry hinv nodes hg
      have hmem : g ∈ (inserted s.cache h t nodes).tree :=
        AList.lookup_isSome.mp (Option.isSome_iff_exists.mpr ⟨i, hg⟩)
      refine ⟨hbelow, u, hu, ?_⟩
      rcases hfrom with ⟨rfl, rfl⟩ | ⟨-, hfirst⟩
      · change (if g ∈ _ then _ else _) = _
        rw [if_pos hmem, (hinv.unknown hnew).1, Option.none_or, if_pos rfl]
      · exact first_added hmem hfirst
    · have hfirst := hinv.shortcut hlast
      exact first_added ((AList.mem_insert _).mpr (.inr (hinv.mem_of_first hfirst))) hfirst

end Invariant

end Additions

section Lookups

variable {msgidcachesize : UInt64} {s : Session} {h : HASH}

theorem get_eq (hinv : Inv msgidcachesize s) (h : HASH) (final : Bool) :
    ∃ cache, cacheGet s.cache h final = some ((s.first h).getD emptyToken, cache) ∧
      cache.tree = s.cache.tree ∧
      Inv msgidcachesize { s with cache } := by
  by_cases hlast : h = s.cache.lastHash ∧ HashEmpty s.cache.lastHash = false
  · refine ⟨s.cache, ?_, rfl, hinv⟩
    rw [cacheGet, if_pos hlast, hlast.1, hinv.shortcut hlast.2]
    rfl
  rw [cacheGet, if_neg hlast]
  cases hlookup : s.cache.tree.lookup h with
  | none =>
    refine ⟨s.cache, ?_, rfl, hinv⟩
    rw [(hinv.unknown (AList.lookup_eq_none.mp hlookup)).1]
    rfl
  | some i =>
    have hlisted : Listed s.cache := by
      refine hinv.counted.lists fun hnone => ?_
      rw [Cache.tree, hnone] at hlookup
      cases hlookup
    obtain ⟨nodes, hmove, hlisted'⟩ :=
      move_eq hlisted ⟨h, hlookup⟩ (if final then .used else .unused)
    obtain ⟨hlt, t, ht, hfirst⟩ := hinv.known hlookup
    refine ⟨{ s.cache with nodes, lastHash := h, lastToken := t }, ?_, rfl, ?_⟩
    · dsimp only
      rw [hmove, Option.bind_eq_bind, Option.bind_some, ht, hfirst]
      rfl
    · exact ⟨⟨hinv.counted.tree, fun _ => hlisted', hinv.counted.bounded⟩, hinv.off,
        hinv.room, hinv.known,
        hinv.unknown, fun _ => hfirst⟩

theorem get_right_iff (hinv : Inv msgidcachesize s) (h : HASH) (final : Bool) :
    Right msgidcachesize s (.get h final) ↔ Condition msgidcachesize s (.get h final) := by
  obtain ⟨cache, hget, htree, hinv'⟩ := get_eq hinv h final
  constructor
  · rintro ⟨token, cache', hget', -, -, htoken⟩
    rw [hget] at hget'
    exact (Prod.mk.inj (Option.some.inj hget')).1.trans htoken
  · exact fun hcondition => ⟨_, cache, hget, hinv'.counted, htree, hcondition⟩

theorem Inv.get (hinv : Inv msgidcachesize s) (final : Bool) {token : TOKEN} {cache : Cache}
    (hget : cacheGet s.cache h final = some (token, cache)) :
    Inv msgidcachesize (s.looked cache h final) := by
  obtain ⟨cache', hget', -, hinv'⟩ := get_eq hinv h final
  obtain ⟨-, rfl⟩ := Prod.mk.inj (Option.some.inj (hget.symm.trans hget'))
  refine ⟨hinv'.counted, hinv'.off, hinv'.room, hinv'.known, fun {g} hg => ?_, hinv'.shortcut⟩
  obtain ⟨hfirst, hlast⟩ := hinv'.unknown hg
  refine ⟨hfirst, ?_⟩
  cases final with
  | false => exact hlast
  | true =>
    by_cases hgh : g = h
    · exact hgh ▸ update_self ..
    · exact (update_of_ne hgh ..).trans hlast

end Lookups

section Runs

variable (msgidcachesize : UInt64)

theorem inv_initial : Inv msgidcachesize initial where
  counted := ⟨rfl, fun h => absurd rfl h, by rw [UInt64.le_iff_toNat_le]; exact Nat.zero_le _⟩
  off _ := rfl
  room hsize := Nat.pos_of_ne_zero fun h => hsize (UInt64.toNat_inj.mp h)
  known h := by cases h
  unknown _ := ⟨rfl, rfl⟩
  shortcut h := by cases h

/-- Every call of a session does what is promised just when each meets the condition. -/
theorem session_right_iff (calls : List Call) :
    Meets (step msgidcachesize) (Right msgidcachesize) calls initial ↔
      Meets (step msgidcachesize) (Condition msgidcachesize) calls initial := by
  refine meets_congr (P := Inv msgidcachesize) (fun s call hinv => ?_)
    (fun s call s' hinv hcondition hstep => ?_)
    calls (inv_initial msgidcachesize)
  · cases call with
    | add h t => exact add_right_iff hinv h t
    | get h final => exact get_right_iff hinv h final
  · cases call with
    | add h t =>
      rw [step] at hstep
      split at hstep
      · cases hstep
      next cache hcache =>
        obtain rfl := Except.ok.inj hstep
        exact hinv.add hcondition hcache
    | get h final =>
      rw [step] at hstep
      split at hstep
      · cases hstep
      next token cache hget =>
        obtain rfl := Except.ok.inj hstep
        exact hinv.get final hget

theorem counted_of_right {calls : List Call} {s : Session}
    (hright : Meets (step msgidcachesize) (Right msgidcachesize) calls initial)
    (hrun : run (step msgidcachesize) calls initial = .ok s) : Counted msgidcachesize s.cache := by
  refine of_run_of_meets (P := fun s => Counted msgidcachesize s.cache)
    (fun s call s' _ hcall hstep => ?_)
    (inv_initial msgidcachesize).counted hright hrun
  cases call with
  | add h t =>
    obtain ⟨cache, hcache, hcounted, -⟩ := hcall
    rw [step, hcache] at hstep
    cases hstep
    exact hcounted
  | get h final =>
    obtain ⟨token, cache, hget, hcounted, -⟩ := hcall
    rw [step, hget] at hstep
    cases hstep
    exact hcounted

/-- With a size of two the second entry throws the first one away, and the counter is two then. -/
theorem not_session_right : ¬∀ (msgidcachesize : UInt64) (calls : List Call),
    Meets (step msgidcachesize) (Right msgidcachesize) calls initial := by
  intro h
  have hcounts :
      (run (step 2) [.add (HASH.fill 1) emptyToken, .add (HASH.fill 2) emptyToken] initial).map
      (fun s => (s.cache.msgcachecount.toNat, s.cache.tree.entries.length)) = .ok (2, 1) := by
    decide +kernel
  cases hrun :
    run (step 2) [.add (HASH.fill 1) emptyToken, .add (HASH.fill 2) emptyToken] initial with
  | error e =>
    rw [hrun] at hcounts
    cases hcounts
  | ok s =>
    rw [hrun] at hcounts
    have htree := (counted_of_right 2 (h 2 _) hrun).tree
    obtain ⟨hcount, hlength⟩ := Prod.mk.inj (Except.ok.inj hcounts)
    rw [hcount, hlength] at htree
    cases htree

end Runs

end Inn.Nnrpd.Tokens
