import DiskStorage.Validate.Labels

/-! When the placement loop comes to an end: each round has to place an entry. -/
namespace DiskStorage
open Extents (AtOrShort roundUp)
open Runs (Reach Run)

variable {b : Build}

namespace PartInfo

/-- The end of a partition is zero in `storage_size_t`, or in the last alignment unit before it wraps. -/
def EndWraps (p : PartInfo b) : Prop :=
  p.stop % b.storageSize = 0 ∨ b.storageSize - PARTITION_ALIGN < p.stop % b.storageSize

instance (p : PartInfo b) : Decidable p.EndWraps := instDecidableOr

theorem roundedEnd_eq_zero_iff (p : PartInfo b) : p.roundedEnd = 0 ↔ p.EndWraps := by
  obtain ⟨c, hc⟩ := Build.PARTITION_ALIGN_dvd (b := b)
  have hlt := b.storage_lt p.stop
  have hstop : b.storage p.stop = p.stop % b.storageSize := rfl
  rw [roundedEnd, ← stop, Build.alignUp_partition hlt, EndWraps, ← hstop]
  generalize b.storage p.stop = m at hlt
  have hle : m ≤ roundUp m PARTITION_ALIGN := Extents.le_roundUp PARTITION_ALIGN_pos
  constructor
  · intro hzero
    split at hzero
    · omega
    · rename_i hwrap
      right
      by_contra hin
      refine hwrap (Nat.lt_of_le_of_lt (Extents.roundUp_le PARTITION_ALIGN_pos ?_ (Nat.le_of_not_lt hin)) ?_)
      · rw [hc]
        exact Nat.dvd_sub (Nat.dvd_mul_right _ _) dvd_rfl
      · have := PARTITION_ALIGN_pos
        have := b.storageSize_pos
        omega
  · rintro (rfl | hin)
    · split
      · exact Extents.roundUp_of_dvd PARTITION_ALIGN_pos (Nat.dvd_zero _)
      · rfl
    · rw [if_neg]
      intro hbelow
      obtain ⟨k, hk⟩ := Extents.dvd_roundUp m PARTITION_ALIGN
      rw [hk, hc] at hbelow
      have hkc : k + 1 ≤ c := Nat.lt_of_mul_lt_mul_left hbelow
      have hmul := Nat.mul_le_mul_left PARTITION_ALIGN hkc
      rw [Nat.mul_add, Nat.mul_one] at hmul
      omega

/-- The rounded end is exact, or short by at least as much as `storage_size_t` wraps by. -/
theorem roundedEnd_atOrShort {gap : Nat} (p : PartInfo b) (hgap : gap ≤ b.storageSize) (hdvd : PARTITION_ALIGN ∣ gap) :
    AtOrShort gap (roundUp p.stop PARTITION_ALIGN) p.roundedEnd := by
  have hstop : AtOrShort gap p.stop (b.storage p.stop) := Extents.atOrShort_mod hgap
  have hle : p.stop ≤ roundUp p.stop PARTITION_ALIGN := Extents.le_roundUp PARTITION_ALIGN_pos
  have hround : AtOrShort gap (roundUp p.stop PARTITION_ALIGN) (roundUp (b.storage p.stop) PARTITION_ALIGN) := by
    rcases hstop with heq | hshort
    · exact Or.inl (by rw [heq])
    · refine AtOrShort.roundUp PARTITION_ALIGN_pos (Extents.dvd_roundUp _ _) hdvd (Or.inr (hshort.trans hle))
  apply hround.trans
  rw [roundedEnd, ← stop, Build.alignUp_partition (b.storage_lt _)]
  split
  · exact Or.inl rfl
  · exact Or.inr (by omega)

end PartInfo

namespace Available
variable (a : Available b)

/-- The entries that are still to be placed. -/
def unplaced (list : List (Ref b)) : Nat := list.countP fun p => p.1.offset = 0

/-- validate returns or fails its assert, and each pass of the placement loop that goes on leaves
fewer entries to place. -/
structure Terminates (table : List (PartInfo b)) : Prop where
  ends : validate a table ≠ none
  decreases : ∀ sized T list e list', a.Reaches table sized T → Reach a.Pass (sortList sized.zipIdx) list →
    a.Pass list e list' → unplaced list' < unplaced list

/-- Where the search comes to an entry whose end wraps, the entry to place is larger than all the
space up to the next one. -/
def PassesWraps (pz : Ref b) (rest : List (Ref b)) : Prop :=
  ∀ v ∈ a.visits pz.1.size rest, v.1.1.EndWraps → a.limit v.2 < pz.1.size

variable {a} {list list' rest : List (Ref b)} {pz : Ref b} {v : Ref b × Option (Ref b)} {size e e₀ fuel T : Nat}
  {table sized : List (PartInfo b)}

section Search

/-- No pass goes on from a list whose first entry is placed. -/
theorem reach_placed (h : Reach a.Pass (pz :: rest) list) (h0 : pz.1.offset ≠ 0) : list = pz :: rest :=
  a.assignLoop_fueled.stays (.placed h0) h

/-- With nothing placed the search ends where it starts, else at the end of an entry with room behind it. -/
theorem search_stops (hsorted : list.Pairwise fun p q => p.1.offset ≤ q.1.offset) (h : a.search size e₀ list = some e) :
    (∀ p ∈ list, p.1.offset = 0) ∧ e = e₀ ∨
      ∃ v ∈ a.visits size list, e = v.1.1.roundedEnd ∧ size ≤ a.avail v.1.1 v.2 := by
  induction list generalizing e₀ with
  | nil =>
    cases h
    exact Or.inl ⟨List.forall_mem_nil _, rfl⟩
  | cons pr rest ih =>
    obtain ⟨hle, hsorted⟩ := List.pairwise_cons.mp hsorted
    rw [search] at h
    rw [visits]
    split at h
    · rename_i h0
      rw [if_pos h0]
      rcases ih hsorted h with ⟨hz, he⟩ | hstop
      · exact Or.inl ⟨List.forall_mem_cons.mpr ⟨h0, hz⟩, he⟩
      · exact Or.inr hstop
    · rename_i h0
      rw [if_neg h0]
      right
      split at h
      · rename_i hroom
        cases h
        exact ⟨(pr, rest.head?), List.mem_cons_self, rfl, hroom⟩
      · rename_i hroom
        rw [if_neg hroom]
        split at h
        · cases h
        · rename_i hne
          rcases ih hsorted h with ⟨hz, _⟩ | ⟨v, hv, he⟩
          · -- what stands behind a placed entry is placed
            rcases rest with _ | ⟨next, back⟩
            · exact absurd rfl hne
            · have := hle next List.mem_cons_self
              have := hz next List.mem_cons_self
              omega
          · exact ⟨v, List.mem_cons_of_mem _ hv, he⟩

/-- The search goes no further than an entry with room behind it. -/
theorem search_of_room (hv : v ∈ a.visits size list) (hroom : size ≤ a.avail v.1.1 v.2) :
    a.search size e₀ list = some v.1.1.roundedEnd := by
  induction list generalizing e₀ with
  | nil => cases hv
  | cons pr rest ih =>
    rw [visits] at hv
    rw [search]
    split
    · rename_i h0
      rw [if_pos h0] at hv
      exact ih hv
    · rename_i h0
      rw [if_neg h0] at hv
      split
      · rename_i hfit
        rw [if_pos hfit] at hv
        rw [List.mem_singleton.mp hv]
      · rename_i hfit
        rw [if_neg hfit] at hv
        rcases List.mem_cons.mp hv with rfl | hv
        · exact absurd hroom hfit
        · rw [if_neg, ih hv]
          intro hempty
          rw [List.isEmpty_iff.mp hempty] at hv
          cases hv

end Search

section Rounds

/-- A pass leaves fewer entries to place when the offset that it finds is not zero. -/
theorem pass_unplaced (hp : a.Pass list e list') : unplaced list' < unplaced list ↔ b.storage e ≠ 0 := by
  obtain ⟨pz, rest, rfl, h0, _, rfl⟩ := hp
  rw [unplaced, (sortList_perm _).countP_eq, List.countP_cons, unplaced, List.countP_cons, if_pos (decide_eq_true h0),
    PartInfo.setOffset_offset]
  by_cases he : b.storage e = 0
  · rw [if_pos (decide_eq_true he)]
    exact iff_of_false (Nat.lt_irrefl _) (not_not.mpr he)
  · rw [if_neg (mt of_decide_eq_true he)]
    exact iff_of_true (Nat.lt_succ_self _) he

/-- An entry that is put at zero comes first again, so the next pass is the same. -/
theorem pass_again (hsorted : list.Pairwise fun p q => p.1.offset ≤ q.1.offset) (hp : a.Pass list e list')
    (he : b.storage e = 0) : list' = list := by
  obtain ⟨pz, rest, rfl, h0, _, rfl⟩ := hp
  have hsame : pz.1.setOffset e = pz.1 := by
    rcases pz with ⟨part, i⟩
    cases part
    simp only [PartInfo.setOffset, PartInfo.mk.injEq, he]
    exact ⟨trivial, trivial, h0.symm, trivial, trivial, trivial, trivial, trivial⟩
  rw [hsame]
  exact List.Pairwise.insertionSort_eq hsorted

theorem unplaced_le (sized : List (PartInfo b)) : unplaced (sortList sized.zipIdx) < sized.length + 1 := by
  have hle := List.countP_le_length (p := fun p : Ref b => decide (p.1.offset = 0)) (l := sortList sized.zipIdx)
  rw [(sortList_perm _).length_eq, List.length_zipIdx] at hle
  exact Nat.lt_succ_of_le hle

variable (a) in
theorem assignLoop_cases (sized : List (PartInfo b)) :
    ((∀ list e list', Reach a.Pass (sortList sized.zipIdx) list → a.Pass list e list' →
      unplaced list' < unplaced list) ∧
        ∃ r, a.assignLoop (sized.length + 1) (sortList sized.zipIdx) = some r) ∨
      ∀ fuel, a.assignLoop fuel (sortList sized.zipIdx) = none := by
  by_cases h : ∀ list e list', Reach a.Pass (sortList sized.zipIdx) list → a.Pass list e list' →
      unplaced list' < unplaced list
  · exact Or.inl ⟨h, a.assignLoop_fueled.ends h (unplaced_le sized)⟩
  · right
    push Not at h
    obtain ⟨list, e, list', hreach, hpass, hle⟩ := h
    have hzero : b.storage e = 0 := by
      by_contra hne
      exact absurd ((pass_unplaced hpass).mpr hne) (Nat.not_lt.mpr hle)
    rw [pass_again (reach_sorted hreach) hpass hzero] at hpass
    exact a.assignLoop_fueled.never hreach (a.assignLoop_fueled.stuck hpass)

theorem assignLoop_of_reach {r : Option Error × List (Ref b)} (h : Reach a.Pass (sortList sized.zipIdx) list)
    (hr : a.assignLoop fuel list = some r) : a.assignLoop (sized.length + 1) (sortList sized.zipIdx) = some r := by
  obtain ⟨fuel', hf⟩ := a.assignLoop_fueled.of_reach h hr
  rcases a.assignLoop_cases sized with ⟨_, r', hends⟩ | hnever
  · rw [hends, a.assignLoop_fueled.unique hf hends]
  · rw [hnever fuel'] at hf
    cases hf

/-- From each list on the way the passes go on to the one that the loop returns. -/
theorem assignLoop_reaches {err : Option Error} (h : Reach a.Pass (sortList sized.zipIdx) list)
    (hassign : a.assignLoop (sized.length + 1) (sortList sized.zipIdx) = some (err, list')) :
    Reach a.Pass list list' := by
  by_cases hends : ∃ fuel r, a.assignLoop fuel list = some r
  · obtain ⟨fuel, r, hr⟩ := hends
    cases hassign.symm.trans (assignLoop_of_reach h hr)
    exact (assignLoop_stops hr).1
  · push Not at hends
    have hnever := a.assignLoop_fueled.never h (fun fuel => Option.eq_none_iff_forall_ne_some.mpr (hends fuel))
    rw [hnever] at hassign
    cases hassign

theorem reach_keeps {p : Ref b} (h : Reach a.Pass list list') (hp : p ∈ list) (h0 : p.1.offset ≠ 0) : p ∈ list' := by
  refine h.invariant (I := fun l => p ∈ l) hp ?_
  rintro l e l' _ hmem ⟨pz, rest, rfl, hz, _, rfl⟩
  rcases List.mem_cons.mp hmem with rfl | hmem
  · exact absurd hz h0
  · exact (sortList_perm _).mem_iff.mpr (List.mem_cons_of_mem _ hmem)

end Rounds

section Validate

theorem Reaches.eq_none_iff (hr : a.Reaches table sized T) :
    validate a table = none ↔ a.assignLoop (sized.length + 1) (sortList sized.zipIdx) = none := by
  rw [hr.validate_eq]
  rcases a.assignLoop (sized.length + 1) (sortList sized.zipIdx) with _ | ⟨_ | err, list⟩
  · simp
  · dsimp only
    refine iff_of_false ?_ (by simp)
    split
    · simp
    · split <;> simp
  · simp

/-- A call that comes to the placement loop does so with one sized table. -/
theorem Reaches.unique {sized' : List (PartInfo b)} {T' : Nat} (hr : a.Reaches table sized T)
    (hr' : a.Reaches table sized' T') : sized' = sized := by
  have heq := hr.sizing.symm.trans hr'.sizing
  rw [Prod.mk.injEq, Prod.mk.injEq] at heq
  exact heq.2.2.symm

private theorem avail_of_zero (hend : a.rangeEnd < b.storageSize) (hr : a.Reaches table sized T) {p : PartInfo b}
    {next? : Option (Ref b)} (h0 : p.roundedEnd = 0) : a.avail p next? = a.limit next? := by
  cases next? with
  | some next =>
    rw [avail, h0, limit, Nat.sub_zero, Build.storage, Nat.add_mod_right]
    exact Nat.mod_eq_of_lt next.1.offset_lt
  | none =>
    rw [avail, h0, limit, maxOffset_eq hend hr.first hr.block, u64, Nat.sub_zero, Nat.add_mod_right]
    exact Nat.mod_eq_of_lt (Build.lt_u64 hend)

theorem passesWraps_iff (hend : a.rangeEnd < b.storageSize) (hr : a.Reaches table sized T)
    (hp : a.Placing sized pz rest) :
    a.PassesWraps pz rest ↔ ∀ e list', a.Pass (pz :: rest) e list' → b.storage e ≠ 0 := by
  obtain ⟨hreach, h0⟩ := hp
  have hsorted := (List.pairwise_cons.mp (reach_sorted hreach)).2
  constructor
  · rintro hwraps e list' ⟨pz', rest', heq, _, hs, _⟩ hzero
    cases heq
    rcases search_stops hsorted hs with ⟨_, rfl⟩ | ⟨v, hv, rfl, hroom⟩
    · rw [minOffset_eq hend, Build.storage_of_lt (Nat.lt_of_le_of_lt rangeStart_le hend)] at hzero
      exact Nat.mul_ne_zero hr.first hr.block hzero
    · rw [Build.storage_of_lt v.1.1.roundedEnd_lt] at hzero
      rw [avail_of_zero hend hr hzero] at hroom
      exact absurd (hwraps v hv (v.1.1.roundedEnd_eq_zero_iff.mp hzero)) (Nat.not_lt.mpr hroom)
  · intro hpasses v hv hwrap
    have hzero := v.1.1.roundedEnd_eq_zero_iff.mpr hwrap
    by_contra hroom
    rw [← avail_of_zero hend hr hzero] at hroom
    refine hpasses _ _ ⟨pz, rest, rfl, h0, search_of_room hv (Nat.le_of_not_lt hroom), rfl⟩ ?_
    rw [hzero]
    exact Nat.zero_mod _

end Validate

end Available

/-- validate ends, and each pass of its placement loop places an entry, exactly when no pass finds room
behind an entry whose end wraps. A pass that does gives the offset zero, which stands for none, and is
made again for ever. -/
theorem validate_terminates_iff (a : Available b) (hend : a.rangeEnd < b.storageSize) (table : List (PartInfo b)) :
    (a.Terminates table ↔ ∀ sized T pz rest, a.Reaches table sized T → a.Placing sized pz rest →
      a.PassesWraps pz rest) ∧ (¬ a.Terminates table → ∃ sized T, a.Reaches table sized T ∧
        ∀ fuel, a.assignLoop fuel (sortList sized.zipIdx) = none) := by
  constructor
  · constructor
    · intro hterm sized T pz rest hr hp
      apply (Available.passesWraps_iff hend hr hp).mpr
      intro e list' hpass
      exact (Available.pass_unplaced hpass).mp (hterm.decreases sized T _ e list' hr hp.1 hpass)
    · intro hwraps
      have hdecreases : ∀ sized T list e list', a.Reaches table sized T → Reach a.Pass (sortList sized.zipIdx) list →
          a.Pass list e list' → Available.unplaced list' < Available.unplaced list := by
        intro sized T list e list' hr hreach hpass
        obtain ⟨pz, rest, rfl, h0, _, _⟩ := id hpass
        have hplacing : a.Placing sized pz rest := ⟨hreach, h0⟩
        exact (Available.pass_unplaced hpass).mpr
          ((Available.passesWraps_iff hend hr hplacing).mp (hwraps sized T pz rest hr hplacing) e list' hpass)
      refine ⟨fun hnone => ?_, hdecreases⟩
      obtain ⟨sized, T, hr⟩ := Available.reaches_of_validate hnone (by simp)
      obtain ⟨r, hends⟩ := a.assignLoop_fueled.ends (fun l e l' => hdecreases sized T l e l' hr)
        (Available.unplaced_le sized)
      rw [hr.eq_none_iff, hends] at hnone
      cases hnone
  · intro hnot
    by_cases hreaches : ∃ sized T, a.Reaches table sized T
    · obtain ⟨sized, T, hr⟩ := hreaches
      refine ⟨sized, T, hr, ?_⟩
      rcases a.assignLoop_cases sized with ⟨hdecreases, hends⟩ | hnever
      · refine absurd ⟨?_, ?_⟩ hnot
        · rw [ne_eq, hr.eq_none_iff, ← ne_eq, Option.ne_none_iff_exists']
          exact hends
        · intro sized' T' list e list' hr' hreach hpass
          rw [hr.unique hr'] at hreach
          exact hdecreases list e list' hreach hpass
      · exact hnever
    · refine absurd ⟨?_, ?_⟩ hnot
      · exact fun hnone => hreaches (Available.reaches_of_validate hnone (by simp))
      · exact fun sized T _ _ _ hr => absurd ⟨sized, T, hr⟩ hreaches

/-- With one fixed half and one to be placed in 100 MiB it ends. -/
theorem validate_terminates_two_halves : (Available.of ⟨true, true, true, 512⟩ 2048 204800 512).Terminates
    [PartInfo.new [] ⟨0, 0⟩ 0x100000 50, PartInfo.new [] ⟨0, 0⟩ 0 50] := by
  have hsized : (Available.of ⟨true, true, true, 512⟩ 2048 204800 512).sizingLoop 0
      [PartInfo.new [] ⟨0, 0⟩ 0x100000 50, PartInfo.new [] ⟨0, 0⟩ 0 50] =
    (none, 204800, [PartInfo.new [] ⟨0, 0⟩ 0x100000 0x3200000, PartInfo.new [] ⟨0, 0⟩ 0 0x3200000]) := rfl
  apply (validate_terminates_iff _ (by decide) _).1.mpr
  rintro sized T pz rest hr ⟨⟨tr, hrun, hlast⟩, h0⟩
  cases hsized.symm.trans hr.sizing
  cases hrun with
  | nil =>
    cases hlast
    unfold Available.PassesWraps
    decide
  | cons hs ht =>
    obtain ⟨x, back, heq, _, hsearch, rfl⟩ := hs
    cases heq
    have hfound : (Available.of ⟨true, true, true, 512⟩ 2048 204800 512).search 0x3200000
      (Available.of ⟨true, true, true, 512⟩ 2048 204800 512).minOffset
      [(PartInfo.new [] ⟨0, 0⟩ 0x100000 0x3200000, 0)] = some 0x3300000 := by decide +kernel
    cases hfound.symm.trans hsearch
    have hback : Reach (Available.of ⟨true, true, true, 512⟩ 2048 204800 512).Pass
        [(PartInfo.new [] ⟨0, 0⟩ 0x100000 0x3200000, 0), (PartInfo.new [] ⟨0, 0⟩ 0x3300000 0x3200000, 1)]
          (pz :: rest) :=
      ⟨_, ht, hlast⟩
    cases Available.reach_placed hback (by decide)
    exact absurd h0 (by decide)

/-- On a 32-bit build, in a range up to the last sector below 4 GiB: a half to be placed, and the rest of
the range at 2 GiB + 1 MiB. There is room for the half in front, but validate does not end. -/
theorem fixed_end_near_four_gib : ¬ (Available.of ⟨false, true, true, 512⟩ 2048 8386559 512).Terminates
    [PartInfo.new [] ⟨0, 0⟩ 0 50, PartInfo.new [] ⟨0, 0⟩ 0x80100000 50] := by
  intro hterm
  apply hterm.ends
  decide +kernel

end DiskStorage
