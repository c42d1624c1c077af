import DiskStorage.Validate.Rounds

/-! When the placement loop is right to find no room for an entry. -/
namespace DiskStorage
open Extents (roundUp)
open Runs (Reach)

variable {b : Build}

namespace Available
variable (a : Available b)

/-- Room for an entry of this size on an alignment boundary of the range, clear of all entries that
have been placed. -/
structure FreeGap (list : List (Ref b)) (size offset : Nat) : Prop where
  aligned : PARTITION_ALIGN ∣ offset
  inside : a.rangeStart ≤ offset ∧ offset + size ≤ a.rangeEnd
  clear : ∀ p ∈ list, p.1.offset ≠ 0 → p.1.stop ≤ offset ∨ offset + size ≤ p.1.offset

/-- In a state of the placement loop there is no room for the first entry. -/
def GivesUp (table : List (PartInfo b)) (pz : Ref b) (rest : List (Ref b)) : Prop :=
  ∃ sized T, a.Reaches table sized T ∧ a.Placing sized pz rest ∧ a.search pz.1.size a.minOffset rest = none

/-- In front of the lowest partition, from the first alignment boundary of the range on, there is
less than this size. -/
def FrontTooSmall (list : List (Ref b)) (size : Nat) : Prop :=
  ∃ p ∈ list, p.1.offset ≠ 0 ∧ p.1.offset < roundUp a.rangeStart PARTITION_ALIGN + size

variable {a} {list rest : List (Ref b)} {pz : Ref b} {size offset e₀ T : Nat} {table table' sized : List (PartInfo b)}

theorem FreeGap.in_front (hend : a.rangeEnd < b.storageSize) (hfirst : a.firstBlock ≠ 0) (hblock : a.blockSize ≠ 0)
    (hsorted : list.Pairwise fun p q => p.1.offset ≤ q.1.offset) (hnone : a.search size e₀ list = none)
    (hgap : a.FreeGap list size offset) : ∀ p ∈ list, p.1.offset ≠ 0 → offset + size ≤ p.1.offset := by
  induction list generalizing e₀ with
  | nil => exact fun p hp => absurd hp List.not_mem_nil
  | cons pr rest ih =>
    obtain ⟨hle, hsorted⟩ := List.pairwise_cons.mp hsorted
    obtain ⟨hclear, hclear'⟩ := List.forall_mem_cons.mp hgap.clear
    have hrest : a.FreeGap rest size offset := ⟨hgap.aligned, hgap.inside, hclear'⟩
    rw [search] at hnone
    rw [List.forall_mem_cons]
    split at hnone
    · rename_i h0
      exact ⟨fun hne => absurd h0 hne, ih hsorted hnone hrest⟩
    · rename_i h0
      split at hnone
      · cases hnone
      · rename_i hroom
        have hbehind : ∀ p ∈ rest, p.1.offset ≠ 0 → offset + size ≤ p.1.offset := by
          split at hnone
          · rename_i hempty
            rw [List.isEmpty_iff.mp hempty]
            exact fun p hp => absurd hp List.not_mem_nil
          · exact ih hsorted hnone hrest
        refine ⟨fun _ => ?_, hbehind⟩
        rcases hclear h0 with hstop | hfront
        · -- the space behind this entry would do
          have hround : roundUp pr.1.stop PARTITION_ALIGN ≤ offset :=
            Extents.roundUp_le PARTITION_ALIGN_pos hgap.aligned hstop
          have hlimit : offset + size ≤ a.limit rest.head? := by
            rcases rest with _ | ⟨next, back⟩
            · exact hgap.inside.2
            · have hnext := hle next List.mem_cons_self
              exact hbehind next List.mem_cons_self (by omega)
          have hinside := hgap.inside.2
          have havail := (avail_eq_of_le hend rest.head? hfirst hblock (p := pr.1) (by omega) (by omega)).2
          exact absurd (show a.avail pr.1 rest.head? ≥ size by omega) hroom
        · exact hfront

theorem placed_in_range (hend : a.rangeEnd < b.storageSize) (hr : a.Reaches table sized T)
    (h : Reach a.Pass (sortList sized.zipIdx) list) :
    (∀ p ∈ list, p.1.offset = 0) ∨ ∃ p ∈ list, p.1.offset ≠ 0 ∧ p.1.offset ≤ a.rangeEnd := by
  refine h.invariant (I := fun l : List (Ref b) => (∀ p ∈ l, p.1.offset = 0) ∨
    ∃ p ∈ l, p.1.offset ≠ 0 ∧ p.1.offset ≤ a.rangeEnd) ?_ ?_
  · by_cases hz : ∀ p ∈ sortList sized.zipIdx, p.1.offset = 0
    · exact Or.inl hz
    · right
      push Not at hz
      obtain ⟨p, hp, hne⟩ := hz
      have hmax := maxOffset_eq hend hr.first hr.block
      rcases sizingLoop_startInRange hr.sizing p.1 (mem_of_sortList hp) with h0 | ⟨_, hle⟩
      · exact absurd h0 hne
      · exact ⟨p, hp, hne, by omega⟩
  · rintro l e l' _ hl ⟨pz, rest, rfl, h0, hs, rfl⟩
    right
    have hperm := sortList_perm ((pz.1.setOffset e, pz.2) :: rest)
    rcases hl with hz | ⟨p, hp, hne, hle⟩
    · have he := (search_of_zero fun p hp => hz p (List.mem_cons_of_mem pz hp)).symm.trans hs
      cases he
      have hoff : (pz.1.setOffset a.minOffset).offset = a.rangeStart := by
        rw [minOffset_eq hend]
        exact Build.storage_of_lt (Nat.lt_of_le_of_lt rangeStart_le hend)
      refine ⟨_, hperm.mem_iff.mpr List.mem_cons_self, ?_, ?_⟩
      · rw [hoff]
        exact Nat.mul_ne_zero hr.first hr.block
      · rw [hoff]
        exact rangeStart_le
    · rcases List.mem_cons.mp hp with rfl | hp
      · exact absurd h0 hne
      · exact ⟨p, hperm.mem_iff.mpr (List.mem_cons_of_mem _ hp), hne, hle⟩

/-- What gives up has passed the checks, so that validate returns NoSpace. -/
theorem GivesUp.noSpace (h : a.GivesUp table pz rest) :
    validate a table = some (.returned .noSpace (inTableOrder (pz :: rest))) := by
  obtain ⟨sized, T, hr, ⟨hreach, h0⟩, hnone⟩ := h
  have hlast := a.assignLoop_fueled.stop _ _ (.noSpace h0 hnone) 0
  rw [hr.validate_eq, assignLoop_of_reach hreach hlast]

theorem givesUp_of_noSpace (hr : a.Reaches table sized T) (h : validate a table = some (.returned .noSpace table')) :
    ∃ pz rest, a.GivesUp table pz rest ∧ table' = inTableOrder (pz :: rest) := by
  obtain ⟨err, list, hassign, rfl, rfl | ⟨_, hok, _⟩⟩ := hr.returned_cases h
  · obtain ⟨hreach, hstop⟩ := assignLoop_stops hassign
    cases hstop with
    | noSpace h0 hnone => exact ⟨_, _, ⟨sized, T, hr, ⟨hreach, h0⟩, hnone⟩, rfl⟩
  · cases hok

theorem GivesUp.no_gap_iff (hend : a.rangeEnd < b.storageSize) (h : a.GivesUp table pz rest) :
    (¬ ∃ offset, a.FreeGap rest pz.1.size offset) ↔ a.FrontTooSmall rest pz.1.size := by
  obtain ⟨sized, T, hr, ⟨hreach, h0⟩, hnone⟩ := h
  have hsorted := (List.pairwise_cons.mp (reach_sorted hreach)).2
  constructor
  · intro hno
    by_contra hfront
    refine hno ⟨roundUp a.rangeStart PARTITION_ALIGN, Extents.dvd_roundUp _ _,
      ⟨Extents.le_roundUp PARTITION_ALIGN_pos, ?_⟩, fun p hp hne => ?_⟩
    · rcases placed_in_range hend hr hreach with hz | ⟨p, hp, hne, hle⟩
      · rw [search_of_zero fun p hp => hz p (List.mem_cons_of_mem pz hp)] at hnone
        cases hnone
      · rcases List.mem_cons.mp hp with rfl | hp
        · exact absurd h0 hne
        · exact (Nat.le_of_not_lt fun hlt => hfront ⟨p, hp, hne, hlt⟩).trans hle
    · exact Or.inr (Nat.le_of_not_lt fun hlt => hfront ⟨p, hp, hne, hlt⟩)
  · rintro ⟨p, hp, hne, hlt⟩ ⟨offset, hgap⟩
    have hbefore := hgap.in_front hend hr.first hr.block hsorted hnone p hp hne
    have hfirst := Extents.roundUp_le PARTITION_ALIGN_pos hgap.aligned hgap.inside.1
    omega

end Available

/-- When validate returns NoSpace, unless it does so before the placement, this finds no room for an
entry. There is then no room indeed, on any alignment boundary of the range, exactly when there is none
in front of the lowest partition: that is the one gap that the search does not look at. -/
theorem no_space_right_iff (a : Available b) (hend : a.rangeEnd < b.storageSize) (table : List (PartInfo b)) :
    (∀ sized T table', a.Reaches table sized T → validate a table = some (.returned .noSpace table') →
        ∃ pz rest, a.GivesUp table pz rest ∧ table' = inTableOrder (pz :: rest)) ∧
      ∀ pz rest, a.GivesUp table pz rest →
        validate a table = some (.returned .noSpace (inTableOrder (pz :: rest))) ∧
          ((¬ ∃ offset, a.FreeGap rest pz.1.size offset) ↔ a.FrontTooSmall rest pz.1.size) :=
  ⟨fun _ _ _ hr h => Available.givesUp_of_noSpace hr h, fun _ _ hgives => ⟨hgives.noSpace, hgives.no_gap_iff hend⟩⟩

private theorem givesUp_start {a : Available b} {table sized : List (PartInfo b)} {T : Nat} {pz : Ref b}
    {rest : List (Ref b)}
    (hr : a.Reaches table sized T) (hsort : sortList sized.zipIdx = pz :: rest) (h0 : pz.1.offset = 0)
    (hnone : a.search pz.1.size a.minOffset rest = none) : a.GivesUp table pz rest :=
  ⟨sized, T, hr, ⟨hsort ▸ Reach.refl _, h0⟩, hnone⟩

/-- A half fixed in the middle of 100 MiB leaves no room for the other half. -/
theorem no_space_right_middle : ∃ pz rest, (Available.of ⟨true, true, true, 512⟩ 2048 204800 512).GivesUp
      [PartInfo.new [] ⟨0, 0⟩ 0x1a00000 50, PartInfo.new [] ⟨0, 0⟩ 0 50] pz rest ∧
    ¬ ∃ offset, (Available.of ⟨true, true, true, 512⟩ 2048 204800 512).FreeGap rest pz.1.size offset := by
  have hr : (Available.of ⟨true, true, true, 512⟩ 2048 204800 512).Reaches
      [PartInfo.new [] ⟨0, 0⟩ 0x1a00000 50, PartInfo.new [] ⟨0, 0⟩ 0 50]
      [PartInfo.new [] ⟨0, 0⟩ 0x1a00000 0x3200000, PartInfo.new [] ⟨0, 0⟩ 0 0x3200000] 204800 :=
    ⟨by decide, by decide, rfl, by decide⟩
  have hgives := givesUp_start hr rfl rfl (by decide +kernel)
  refine ⟨_, _, hgives, (((no_space_right_iff _ (by decide) _).2 _ _ hgives).2).mpr ?_⟩
  exact ⟨_, List.mem_cons_self, by decide, by decide⟩

/-- A half fixed at the end leaves all the room for the other half in front, which is not found. -/
theorem front_gap_not_found : ∃ sized T pz rest,
    (Available.of ⟨true, true, true, 512⟩ 2048 204800 512).Reaches
      [PartInfo.new [] ⟨0, 0⟩ 0x3300000 50, PartInfo.new [] ⟨0, 0⟩ 0 50] sized T ∧
    (Available.of ⟨true, true, true, 512⟩ 2048 204800 512).FixedSound sized ∧
    (Available.of ⟨true, true, true, 512⟩ 2048 204800 512).Placing sized pz rest ∧
    validate (Available.of ⟨true, true, true, 512⟩ 2048 204800 512)
      [PartInfo.new [] ⟨0, 0⟩ 0x3300000 50, PartInfo.new [] ⟨0, 0⟩ 0 50] =
        some (.returned .noSpace (inTableOrder (pz :: rest))) ∧
    (Available.of ⟨true, true, true, 512⟩ 2048 204800 512).FreeGap rest pz.1.size 0x100000 := by
  have hr : (Available.of ⟨true, true, true, 512⟩ 2048 204800 512).Reaches
      [PartInfo.new [] ⟨0, 0⟩ 0x3300000 50, PartInfo.new [] ⟨0, 0⟩ 0 50]
      [PartInfo.new [] ⟨0, 0⟩ 0x3300000 0x3200000, PartInfo.new [] ⟨0, 0⟩ 0 0x3200000] 204800 :=
    ⟨by decide, by decide, rfl, by decide⟩
  have hgives := givesUp_start hr rfl rfl (by decide +kernel)
  refine ⟨_, _, _, _, hr, ⟨by decide, by decide, ?_⟩, ⟨Reach.refl _, rfl⟩,
    hgives.noSpace, by decide, by decide, by decide⟩
  apply List.pairwise_pair.mpr
  intro _ hne
  exact absurd rfl hne

end DiskStorage
