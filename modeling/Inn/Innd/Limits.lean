import Inn.Innd.Waiting

/-!
# Connections of a peer

`CHANcount_active` counts the active connections of a peer in the `ActiveCnx` of one of its
channels, which is compared with `MaxCnx` where a connection is accepted and before a channel is
read. The count and the comparison are modelled. Whether a place compares at all (by `HoldTime`),
and what becomes of a channel that is over the limit, is left out.
-/

namespace Inn.Innd.Chan

namespace Channels

section Counting

variable (RClabelname : CHANNEL → Option Nat) (s : Channels) (cp : Nat)

def counted (label : Nat) : Finset Nat :=
  (Finset.range (s.maxFd + 1).toNat).filter fun fd =>
    RClabelname (s.table fd) = some label ∧ (s.table fd).ActiveCnx ≠ 0

def CHANcount_active : Channels :=
  if (s.table cp).fd = none ∨ (s.table cp).type ≠ .CTnntp ∨ (s.table cp).ActiveCnx = 0 then s
  else
    match RClabelname (s.table cp) with
    | none => s
    | some label => s.setChannel cp
        { s.table cp with ActiveCnx := 1 + (s.counted RClabelname label).card }

def OverLimit : Prop := (s.table cp).ActiveCnx > (s.table cp).MaxCnx ∧ (s.table cp).fd.any (0 < ·)

instance : Decidable (s.OverLimit cp) := inferInstanceAs (Decidable (_ ∧ _))

def places : Finset Nat := Finset.range (max s.tableSize (s.maxFd + 1).toNat)

def others : Finset Nat :=
  s.places.filter fun fd => fd ≠ cp ∧ (s.table fd).fd ≠ none ∧ (s.table fd).type = .CTnntp ∧
    (RClabelname (s.table cp) ≠ none ∧ RClabelname (s.table fd) = RClabelname (s.table cp)) ∧
      (s.table fd).ActiveCnx ≠ 0

def beyond : Finset Nat := (s.others RClabelname cp).filter fun fd => s.maxFd < fd

def strays (label : Nat) : Finset Nat :=
  (s.counted RClabelname label).filter fun fd => fd = cp ∨ (s.table fd).fd = none ∨
    (s.table fd).type ≠ .CTnntp

def Counts (label : Nat) : Prop :=
  (s.table cp).fd ≠ none ∧ (s.table cp).type = .CTnntp ∧ (s.table cp).ActiveCnx ≠ 0 ∧
    RClabelname (s.table cp) = some label

/-- The count is that of the channels of the host. -/
def CountsRight : Prop :=
  ((s.CHANcount_active RClabelname cp).table cp).ActiveCnx = (s.others RClabelname cp).card + 1 ∧
    ((s.CHANcount_active RClabelname cp).OverLimit cp ↔
      (s.others RClabelname cp).card + 1 > (s.table cp).MaxCnx ∧ (s.table cp).fd.any (0 < ·))

end Counting

section Counted

variable {RClabelname : CHANNEL → Option Nat} {s : Channels} {cp label : Nat}

theorem CHANcount_active_counts (hcounts : s.Counts RClabelname cp label) :
    s.CHANcount_active RClabelname cp =
    s.setChannel cp { s.table cp with ActiveCnx := 1 + (s.counted RClabelname label).card } := by
  obtain ⟨hfd, htype, hactive, hlabel⟩ := hcounts
  rw [CHANcount_active, if_neg (by simp [hfd, htype, hactive]), hlabel]

theorem CHANcount_active_passes (hpasses : ∀ label, ¬s.Counts RClabelname cp label) :
    s.CHANcount_active RClabelname cp = s := by
  rw [CHANcount_active]
  split
  · rfl
  next hcounts =>
    rw [not_or, not_or] at hcounts
    cases hlabel : RClabelname (s.table cp) with
    | none => rfl
    | some label =>
      exact absurd ⟨hcounts.1, not_not.mp hcounts.2.1, hcounts.2.2, hlabel⟩ (hpasses label)

theorem counted_sdiff (hcounts : s.Counts RClabelname cp label) :
    s.counted RClabelname label \ s.others RClabelname cp = s.strays RClabelname cp label ∧
      s.others RClabelname cp \ s.counted RClabelname label = s.beyond RClabelname cp := by
  have hlabel := hcounts.2.2.2
  constructor
  · ext fd
    simp only [counted, others, strays, places, hlabel, Finset.mem_sdiff, Finset.mem_filter,
      Finset.mem_range]
    have hmax : fd < (s.maxFd + 1).toNat → fd < max s.tableSize (s.maxFd + 1).toNat :=
      fun h => lt_max_of_lt_right h
    tauto
  · ext fd
    simp only [counted, others, beyond, places, hlabel, Finset.mem_sdiff, Finset.mem_filter,
      Finset.mem_range]
    have hmax : s.maxFd < fd ↔ ¬fd < (s.maxFd + 1).toNat := by omega
    tauto

theorem CountsRight.of_eq (hcount : ((s.CHANcount_active RClabelname cp).table cp).ActiveCnx =
      (s.others RClabelname cp).card + 1) :
    s.CountsRight RClabelname cp := by
  refine ⟨hcount, ?_⟩
  have hsame : ((s.CHANcount_active RClabelname cp).table cp).MaxCnx = (s.table cp).MaxCnx ∧
      ((s.CHANcount_active RClabelname cp).table cp).fd = (s.table cp).fd := by
    by_cases hpasses : ∀ label, ¬s.Counts RClabelname cp label
    · rw [CHANcount_active_passes hpasses]
      exact ⟨rfl, rfl⟩
    · obtain ⟨label, hcounts⟩ := not_forall_not.mp hpasses
      rw [CHANcount_active_counts hcounts, table_self]
      exact ⟨rfl, rfl⟩
  rw [OverLimit, hcount, hsame.1, hsame.2]

/-- The count is right for a channel that is passed over when the number is there already, and for
one that is counted for when as many others lie beyond the loop as there are strays, one of which is
the channel itself. -/
theorem CHANcount_active_iff (RClabelname : CHANNEL → Option Nat) (s : Channels) (cp : Nat) :
    s.CountsRight RClabelname cp ↔
      ((∀ label, ¬s.Counts RClabelname cp label) ∧
        (s.table cp).ActiveCnx = (s.others RClabelname cp).card + 1) ∨
        ∃ label, s.Counts RClabelname cp label ∧
          (s.strays RClabelname cp label).card = (s.beyond RClabelname cp).card := by
  have hcount : s.CountsRight RClabelname cp ↔
      ((s.CHANcount_active RClabelname cp).table cp).ActiveCnx = (s.others RClabelname cp).card +
        1 := ⟨And.left, .of_eq⟩
  rw [hcount]
  by_cases hpasses : ∀ label, ¬s.Counts RClabelname cp label
  · rw [CHANcount_active_passes hpasses]
    refine ⟨fun h => .inl ⟨hpasses, h⟩, ?_⟩
    rintro (⟨-, h⟩ | ⟨label, hcounts, -⟩)
    · exact h
    · exact absurd hcounts (hpasses label)
  · obtain ⟨label, hcounts⟩ := not_forall_not.mp hpasses
    obtain ⟨hstrays, hbeyond⟩ := counted_sdiff hcounts
    have hcards : 1 + (s.counted RClabelname label).card = (s.others RClabelname cp).card + 1 ↔
        (s.strays RClabelname cp label).card = (s.beyond RClabelname cp).card := by
      have hcounted :=
        Finset.card_sdiff_add_card_inter (s.counted RClabelname label) (s.others RClabelname cp)
      have hothers :=
        Finset.card_sdiff_add_card_inter (s.others RClabelname cp) (s.counted RClabelname label)
      rw [hstrays] at hcounted
      rw [hbeyond, Finset.inter_comm] at hothers
      omega
    rw [CHANcount_active_counts hcounts, table_self, hcards]
    refine ⟨fun h => .inr ⟨label, hcounts, h⟩, ?_⟩
    rintro (⟨h, -⟩ | ⟨label', hcounts', h⟩)
    · exact absurd hcounts (h label)
    · obtain rfl := Option.some.inj (hcounts.2.2.2.symm.trans hcounts'.2.2.2)
      exact h

/-- The channel of a connection is not marked active when it is accepted, and the count leaves it
so. -/
theorem not_CHANcount_active : ¬∀ (RClabelname : CHANNEL → Option Nat) (s : Channels) (cp : Nat),
    (s.table cp).type = .CTnntp → (s.table cp).fd ≠ none → s.CountsRight RClabelname cp := by
  intro hall
  have hcount := (hall (fun _ => some 1)
    ((CHANsetup 8).setChannel 5 { CHANnull with type := .CTnntp, fd := some 5, MaxCnx := 1 })
      5 rfl nofun).1
  rw [CHANcount_active_passes (fun label hcounts => hcounts.2.2.1 rfl)] at hcount
  cases hcount

end Counted

end Channels

end Inn.Innd.Chan
