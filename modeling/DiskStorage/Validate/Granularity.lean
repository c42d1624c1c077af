import DiskStorage.Validate.Accounting
import DiskStorage.Validate.Labels

/-! Alignment and granularity: which tables come out of validate in whole blocks. -/
namespace DiskStorage
open Extents (roundUp)
open Runs (Reach)

variable {b : Build}

namespace Available
variable (a : Available b)

/-- Every partition starts on an alignment boundary, and has a positive number of whole blocks. -/
structure Granular (table : List (PartInfo b)) : Prop where
  aligned : ∀ p ∈ table, PARTITION_ALIGN ∣ p.offset
  whole : ∀ p ∈ table, 0 < p.size ∧ a.blockSize ∣ p.size

/-- What validate relies on for the granularity of a table, and does not check. -/
structure KeepsGrain (table : List (PartInfo b)) : Prop where
  /-- The offset of a percentage, which only explicit sizes have checked, is aligned. -/
  offsets : ∀ p ∈ table, p.size ≤ 100 → PARTITION_ALIGN ∣ p.offset
  /-- An explicit size, which is taken as it is, is one of whole blocks. -/
  sizes : ∀ p ∈ table, 100 < p.size → a.blockSize ∣ p.size
  /-- The bytes of a percentage are not zero in `storage_size_t`. -/
  shares : ∀ front p back blocks, table = front ++ p :: back → p.size ≤ 100 →
    a.percentBlocks (front.foldl a.runningTotal 0) p.size = some blocks → ¬ b.storageSize ∣ blocks * a.blockSize

variable {a} {table table' sized rest : List (PartInfo b)} {list list' : List (Ref b)} {part part' : PartInfo b}
  {T T' size blocks : Nat} {pz : Ref b}

section Sizes

private theorem block_dvd_storageSize (hblock : a.blockSize ∣ PARTITION_ALIGN) : a.blockSize ∣ b.storageSize :=
  hblock.trans Build.PARTITION_ALIGN_dvd

private theorem setSize_whole_iff (hblock : a.blockSize ∣ PARTITION_ALIGN) :
    (0 < (part.setSize (blocks * a.blockSize)).size ∧ a.blockSize ∣ (part.setSize (blocks * a.blockSize)).size) ↔
      ¬ b.storageSize ∣ blocks * a.blockSize := by
  have hdvd : a.blockSize ∣ (part.setSize (blocks * a.blockSize)).size :=
    (Nat.dvd_mod_iff (block_dvd_storageSize hblock)).mpr (Nat.dvd_mul_left _ _)
  rw [PartInfo.setSize_size] at hdvd ⊢
  constructor
  · rintro ⟨hpos, _⟩ h0
    rw [Build.storage, Nat.mod_eq_zero_of_dvd h0] at hpos
    exact absurd hpos (Nat.lt_irrefl 0)
  · intro h
    refine ⟨Nat.pos_of_ne_zero fun h0 => h (Nat.dvd_of_mod_eq_zero h0), hdvd⟩

/-- What is asked of one entry, behind others with this running total. -/
private def EntryKeeps (a : Available b) (T : Nat) (part : PartInfo b) : Prop :=
  (100 < part.size → a.blockSize ∣ part.size) ∧
    (part.size ≤ 100 → ∀ blocks, a.percentBlocks T part.size = some blocks → ¬ b.storageSize ∣ blocks * a.blockSize)

private theorem sizeEntry_whole_iff (hblock : a.blockSize ∣ PARTITION_ALIGN)
    (h : a.sizeEntry T part = (none, T', part')) :
    T' = a.runningTotal T part ∧ ((0 < part'.size ∧ a.blockSize ∣ part'.size) ↔ a.EntryKeeps T part) := by
  obtain ⟨_, ⟨hsize, blocks, hblocks, rfl, rfl⟩ | ⟨hsize, _, rfl, rfl⟩⟩ := sizeEntry_none h
  · refine ⟨by rw [runningTotal, if_pos hsize, hblocks]; rfl, (setSize_whole_iff hblock).trans ?_⟩
    constructor
    · intro hne
      refine ⟨fun hbig => absurd hsize (Nat.not_le.mpr hbig), fun _ n hn => ?_⟩
      cases hblocks.symm.trans hn
      exact hne
    · exact fun hkeeps => hkeeps.2 hsize blocks hblocks
  · refine ⟨by rw [runningTotal, if_neg (Nat.not_le.mpr hsize)], ?_⟩
    constructor
    · exact fun hwhole => ⟨fun _ => hwhole.2, fun hle => absurd hle (Nat.not_le.mpr hsize)⟩
    · exact fun hkeeps => ⟨by omega, hkeeps.1 hsize⟩

private theorem forall_split_cons {α : Type} {x : α} {xs : List α} {P : List α → α → Prop} :
    (∀ front y back, x :: xs = front ++ y :: back → P front y) ↔
      P [] x ∧ ∀ front y back, xs = front ++ y :: back → P (x :: front) y := by
  constructor
  · intro h
    exact ⟨h [] x xs rfl, fun front y back heq => h (x :: front) y back (by rw [heq, List.cons_append])⟩
  · rintro ⟨hx, hxs⟩ front y back heq
    cases front with
    | nil =>
      cases heq
      exact hx
    | cons z front =>
      cases heq
      exact hxs front y back rfl

private theorem sizingLoop_whole_iff (hblock : a.blockSize ∣ PARTITION_ALIGN)
    (h : a.sizingLoop T table = (none, T', sized)) :
    (∀ s ∈ sized, 0 < s.size ∧ a.blockSize ∣ s.size) ↔
      ∀ front part back, table = front ++ part :: back → a.EntryKeeps (front.foldl a.runningTotal T) part := by
  induction table generalizing T sized with
  | nil =>
    cases h
    apply iff_of_true (List.forall_mem_nil _)
    intro front part back heq
    exact absurd heq.symm (List.append_ne_nil_of_right_ne_nil _ (List.cons_ne_nil _ _))
  | cons part rest ih =>
    obtain ⟨T₁, part', rest', he, hl, rfl⟩ := sizingLoop_cons_none.mp h
    obtain ⟨rfl, hiff⟩ := sizeEntry_whole_iff hblock he
    rw [List.forall_mem_cons, hiff, ih hl]
    exact (forall_split_cons (P := fun front part => a.EntryKeeps (front.foldl a.runningTotal T) part)).symm

end Sizes

section Placement

theorem minOffset_aligned (hstart : PARTITION_ALIGN ∣ a.rangeStart) : PARTITION_ALIGN ∣ a.minOffset :=
  (Nat.dvd_mod_iff Build.PARTITION_ALIGN_dvd).mpr hstart

theorem pass_aligned {e : Nat} (hstart : PARTITION_ALIGN ∣ a.rangeStart)
    (h : ∀ p ∈ list, PARTITION_ALIGN ∣ p.1.offset) (hp : a.Pass list e list') :
    ∀ p ∈ list', PARTITION_ALIGN ∣ p.1.offset := by
  obtain ⟨pz, rest, rfl, _, hs, rfl⟩ := hp
  intro p hp
  rcases List.mem_cons.mp ((sortList_perm _).mem_iff.mp hp) with rfl | hp
  · exact (Nat.dvd_mod_iff Build.PARTITION_ALIGN_dvd).mpr (search_aligned (minOffset_aligned hstart) hs)
  · exact h p (List.mem_cons_of_mem pz hp)

private theorem pass_sizes {e : Nat} (hp : a.Pass list e list') :
    (list'.map fun p => p.1.size).Perm (list.map fun p => p.1.size) := by
  obtain ⟨pz, rest, rfl, _, _, rfl⟩ := hp
  exact (sortList_perm _).map _

private theorem success_sizes (hassign : a.assignLoop T (sortList sized.zipIdx) = some (none, list)) :
    ((inTableOrder list).map PartInfo.size).Perm (sized.map PartInfo.size) := by
  have hreach := (assignLoop_stops hassign).1.invariant
    (I := fun l : List (Ref b) => (l.map fun p => p.1.size).Perm (sized.map PartInfo.size))
      ?_ fun l e l' _ hl hp => (pass_sizes hp).trans hl
  · apply ((inTableOrder_perm list).map PartInfo.size).trans
    rwa [List.map_map]
  · have h := ((sortList_perm sized.zipIdx).map Prod.fst).map PartInfo.size
    rwa [List.map_map, List.zipIdx_map_fst] at h

private theorem success_aligned (hstart : PARTITION_ALIGN ∣ a.rangeStart) (h : ∀ s ∈ sized, PARTITION_ALIGN ∣ s.offset)
    (hassign : a.assignLoop T (sortList sized.zipIdx) = some (none, list)) :
    ∀ p ∈ inTableOrder list, PARTITION_ALIGN ∣ p.offset := by
  have hlist : ∀ p ∈ list, PARTITION_ALIGN ∣ p.1.offset := by
    refine (assignLoop_stops hassign).1.invariant (I := fun l : List (Ref b) => ∀ p ∈ l, PARTITION_ALIGN ∣ p.1.offset)
      (fun p hp => h p.1 (mem_of_sortList hp)) fun l e l' _ hl hp => pass_aligned hstart hl hp
  intro p hp
  obtain ⟨q, hq, rfl⟩ := List.mem_map.mp ((inTableOrder_perm list).subset hp)
  exact hlist q hq

private theorem sizingLoop_aligned (h : a.sizingLoop T table = (none, T', sized))
    (hpercent : ∀ p ∈ table, p.size ≤ 100 → PARTITION_ALIGN ∣ p.offset) : ∀ s ∈ sized, PARTITION_ALIGN ∣ s.offset := by
  apply And.right
  apply sizingLoop_rule (I := fun _ => True) _ trivial hpercent h
  intro T T' part part' _ hpart he
  apply And.intro trivial
  rw [(sizeEntry_offset he).1]
  obtain ⟨_, ⟨hsize, _⟩ | ⟨_, hal, _⟩⟩ := sizeEntry_none he
  · exact hpart hsize
  · exact Nat.dvd_of_mod_eq_zero hal

private theorem sizingLoop_dvd (hblock : a.blockSize ∣ PARTITION_ALIGN) (h : a.sizingLoop T table = (none, T', sized))
    (hpercent : ∀ p ∈ table, p.size ≤ 100) : ∀ s ∈ sized, a.blockSize ∣ s.size := by
  apply And.right
  apply sizingLoop_rule (I := fun _ => True) _ trivial hpercent h
  intro T T' part part' _ hpart he
  apply And.intro trivial
  obtain ⟨_, ⟨_, blocks, _, _, rfl⟩ | ⟨hsize, _⟩⟩ := sizeEntry_none he
  · exact (Nat.dvd_mod_iff (block_dvd_storageSize hblock)).mpr (Nat.dvd_mul_left _ _)
  · exact absurd hpart (Nat.not_le.mpr hsize)

theorem validate_dvd (hstart : PARTITION_ALIGN ∣ a.rangeStart) (hblock : a.blockSize ∣ PARTITION_ALIGN)
    (hpercent : ∀ p ∈ table, p.offset = 0 ∧ p.size ≤ 100) (h : validate a table = some (.returned .success table')) :
    ∀ p ∈ table', PARTITION_ALIGN ∣ p.offset ∧ a.blockSize ∣ p.size := by
  obtain ⟨sized, T, list, _, hr, hassign, _, _, rfl⟩ := validate_success h
  intro p hp
  constructor
  · refine success_aligned hstart (sizingLoop_aligned hr.sizing fun q hq _ => ?_) hassign p hp
    rw [(hpercent q hq).1]
    exact Nat.dvd_zero _
  · obtain ⟨s, hs, heq⟩ := List.mem_map.mp ((success_sizes hassign).subset (List.mem_map_of_mem hp))
    rw [← heq]
    exact sizingLoop_dvd hblock hr.sizing (fun q hq => (hpercent q hq).2) s hs

/-- An accepted entry is in the range from the start, or has been put on an alignment boundary. -/
theorem validate_offset (hstart : PARTITION_ALIGN ∣ a.rangeStart)
    (h : validate a table = some (.returned .success table')) :
    ∀ p ∈ table', PARTITION_ALIGN ≤ p.offset ∨ a.minOffset ≤ p.offset := by
  obtain ⟨sized, T, list, _, hr, hassign, _, _, rfl⟩ := validate_success h
  have hlist : ∀ p ∈ list, PARTITION_ALIGN ∣ p.1.offset ∨ a.minOffset ≤ p.1.offset := by
    refine (assignLoop_stops hassign).1.invariant
      (I := fun l : List (Ref b) => ∀ p ∈ l, PARTITION_ALIGN ∣ p.1.offset ∨ a.minOffset ≤ p.1.offset) ?_ ?_
    · intro p hp
      rcases sizingLoop_startInRange hr.sizing p.1 (mem_of_sortList hp) with h0 | ⟨hle, _⟩
      · left
        rw [h0]
        exact Nat.dvd_zero _
      · exact Or.inr hle
    · intro l e l' _ hl hp p hmem
      obtain ⟨pz, rest, rfl, _, hs, rfl⟩ := hp
      rcases List.mem_cons.mp ((sortList_perm _).mem_iff.mp hmem) with rfl | hmem
      · exact Or.inl ((Nat.dvd_mod_iff Build.PARTITION_ALIGN_dvd).mpr (search_aligned (minOffset_aligned hstart) hs))
      · exact hl p (List.mem_cons_of_mem pz hmem)
  intro p hp
  have hne := validate_offset_ne_zero h p hp
  obtain ⟨q, hq, rfl⟩ := List.mem_map.mp ((inTableOrder_perm list).subset hp)
  exact (hlist q hq).imp (Nat.le_of_dvd (Nat.pos_of_ne_zero hne)) id

end Placement

section Percentages

private theorem share_eq_zero (ha : a.Representable) (h : a.totalBlocks * size < 100) : a.share size = 0 := by
  have h0 : a.totalBlocks * size / 100 = 0 := Nat.div_eq_of_lt h
  rw [share, h0]
  exact Extents.roundUp_of_dvd ha.blockAlign_pos (Nat.dvd_zero _)

private theorem share_vanishes_iff (ha : a.Representable) (hT : T ≤ a.totalBlocks) (hsize : size ≤ 100)
    (h : a.percentBlocks T size = some blocks) : b.storageSize ∣ blocks * a.blockSize ↔ a.totalBlocks * size < 100 := by
  rw [ha.exactShares.percentBlocks_eq hT hsize] at h
  split at h
  · cases h
  · rename_i hroom
    cases h
    have hle : min (a.share size) (a.totalBlocks - T) * a.blockSize ≤ a.totalBlocks * a.blockSize :=
      Nat.mul_le_mul_right _ (by omega)
    have hlt := Nat.lt_of_le_of_lt hle ha.total_mul_lt
    have hlo : a.totalBlocks * size / 100 ≤ a.share size := Extents.le_roundUp ha.blockAlign_pos
    constructor
    · intro hdvd
      have hmul := Nat.eq_zero_of_dvd_of_lt hdvd hlt
      rcases Nat.mul_eq_zero.mp hmul with h0 | h0
      · omega
      · exact absurd h0 ha.blockSize_pos.ne'
    · intro h100
      rw [share_eq_zero ha h100, Nat.zero_min, Nat.zero_mul]
      exact Nat.dvd_zero _

/-- For percentages of a range that `storage_size_t` can hold, the offsets have to be aligned and
no percentage may be less than one block. -/
theorem keepsGrain_iff_of_percentages (ha : a.Representable) (hpercent : ∀ p ∈ table, p.size ≤ 100) :
    a.KeepsGrain table ↔ ∀ p ∈ table, PARTITION_ALIGN ∣ p.offset ∧ 100 ≤ a.totalBlocks * p.size := by
  have htotal : ∀ {front : List (PartInfo b)} {p back}, table = front ++ p :: back →
      front.foldl a.runningTotal 0 ≤ a.totalBlocks := by
    intro front p back htable
    rw [runningTotal_of_percentages ha (fun q hq => hpercent q ?_) (Nat.zero_le _)]
    · exact Nat.min_le_left _ _
    rw [htable]
    exact List.mem_append_left _ hq
  constructor
  · intro hkeeps p hp
    refine ⟨hkeeps.offsets p hp (hpercent p hp), ?_⟩
    by_contra h100
    obtain ⟨front, back, htable⟩ := List.append_of_mem hp
    have hshare := share_eq_zero ha (Nat.lt_of_not_le h100)
    have hT := htotal htable
    refine hkeeps.shares front p back 0 htable (hpercent p hp) ?_ ?_
    · rw [ha.exactShares.percentBlocks_eq hT (hpercent p hp), hshare, if_neg (by omega), Nat.zero_min]
    · rw [Nat.zero_mul]
      exact Nat.dvd_zero _
  · intro h
    refine ⟨fun p hp _ => (h p hp).1, fun p hp hbig => absurd (hpercent p hp) (Nat.not_le.mpr hbig), ?_⟩
    intro front p back blocks htable hsize hblocks hdvd
    have hp : p ∈ table := by
      rw [htable]
      exact List.mem_append_right _ List.mem_cons_self
    have h100 := (share_vanishes_iff ha (htotal htable) hsize hblocks).mp hdvd
    exact absurd (h p hp).2 (Nat.not_le.mpr h100)

end Percentages

private theorem granular_of_keepsGrain (hstart : PARTITION_ALIGN ∣ a.rangeStart)
    (hblock : a.blockSize ∣ PARTITION_ALIGN)
    (h : validate a table = some (.returned .success table')) (hkeeps : a.KeepsGrain table) : a.Granular table' := by
  obtain ⟨sized, T, list, _, hr, hassign, _, _, rfl⟩ := validate_success h
  constructor
  · exact success_aligned hstart (sizingLoop_aligned hr.sizing hkeeps.offsets) hassign
  · have hwhole : ∀ s ∈ sized, 0 < s.size ∧ a.blockSize ∣ s.size := by
      refine (sizingLoop_whole_iff hblock hr.sizing).mpr fun front part back heq => ⟨?_, ?_⟩
      · apply hkeeps.sizes
        rw [heq]
        exact List.mem_append_right _ List.mem_cons_self
      · exact fun hsize blocks hblocks => hkeeps.shares front part back blocks heq hsize hblocks
    intro p hp
    obtain ⟨s, hs, heq⟩ := List.mem_map.mp ((success_sizes hassign).subset (List.mem_map_of_mem hp))
    rw [← heq]
    exact hwhole s hs

private theorem keepsGrain_of_granular (hblock : a.blockSize ∣ PARTITION_ALIGN)
    (h : validate a table = some (.returned .success table')) (hg : a.Granular table') : a.KeepsGrain table := by
  obtain ⟨sized, T, list, _, hr, hassign, _, _, heq⟩ := validate_success h
  have hwhole : ∀ s ∈ sized, 0 < s.size ∧ a.blockSize ∣ s.size := by
    intro s hs
    have hmem := (success_sizes hassign).symm.subset (List.mem_map_of_mem hs)
    rw [← heq] at hmem
    obtain ⟨p, hp, hpsize⟩ := List.mem_map.mp hmem
    rw [← hpsize]
    exact hg.whole p hp
  have hentries := (sizingLoop_whole_iff hblock hr.sizing).mp hwhole
  refine ⟨fun p hp _ => ?_, fun p hp hsize => ?_, fun front p back blocks htable hsize => ?_⟩
  · -- an offset that the table has is the one it comes out with
    by_cases h0 : p.offset = 0
    · rw [h0]
      exact Nat.dvd_zero _
    · obtain ⟨i, hi, rfl⟩ := List.getElem_of_mem hp
      have hresolves := (validate_resolves h).1.entries
      have hi' : i < table'.length := hresolves.length_eq ▸ hi
      have hat := (List.forall₂_iff_get.mp hresolves).2 i hi hi'
      simp only [List.get_eq_getElem] at hat
      rw [← hat.offset_eq h0]
      exact hg.aligned _ (List.getElem_mem hi')
  · obtain ⟨front, back, htable⟩ := List.append_of_mem hp
    exact (hentries front p back htable).1 hsize
  · exact (hentries front p back htable).2 hsize blocks

end Available

/-- An accepted table has whole blocks behind alignment boundaries exactly when the entries keep to
them where validate does not look: percentages with an offset have an aligned one, explicit sizes
are whole blocks, and no percentage comes to zero bytes. Then no shift of formatDisk loses anything. -/
theorem granular_iff_keepsGrain (a : Available b) (hstart : PARTITION_ALIGN ∣ a.rangeStart)
    (hblock : a.blockSize ∣ PARTITION_ALIGN) (table table' : List (PartInfo b))
    (h : validate a table = some (.returned .success table')) :
    (a.Granular table' ↔ a.KeepsGrain table) ∧
      (a.KeepsGrain table → ∀ p ∈ table', p.offset / a.blockSize * a.blockSize = p.offset ∧
        p.size / a.blockSize * a.blockSize = p.size ∧ 0 < p.size / a.blockSize) := by
  refine ⟨⟨Available.keepsGrain_of_granular hblock h, Available.granular_of_keepsGrain hstart hblock h⟩, ?_⟩
  intro hkeeps p hp
  obtain ⟨haligned, hwhole⟩ := Available.granular_of_keepsGrain hstart hblock h hkeeps
  obtain ⟨hpos, hdvd⟩ := hwhole p hp
  have hblockpos := Nat.pos_of_dvd_of_pos hdvd hpos
  exact ⟨Nat.div_mul_cancel (hblock.trans (haligned p hp)), Nat.div_mul_cancel hdvd,
    Nat.div_pos (Nat.le_of_dvd hpos hdvd) hblockpos⟩

/-- Two halves of 100 MiB without offsets. -/
theorem granular_iff_keepsGrain_two_halves :
    (Available.of ⟨true, true, true, 512⟩ 2048 204800 512).KeepsGrain
      [PartInfo.new [] ⟨0, 0⟩ 0 50, PartInfo.new [] ⟨0, 0⟩ 0 50] := by
  have hr : (Available.of ⟨true, true, true, 512⟩ 2048 204800 512).Reaches
      [PartInfo.new [] ⟨0, 0⟩ 0 50, PartInfo.new [] ⟨0, 0⟩ 0 50]
      [PartInfo.new [] ⟨0, 0⟩ 0 0x3200000, PartInfo.new [] ⟨0, 0⟩ 0 0x3200000] 204800 :=
    ⟨by decide, by decide, rfl, by decide⟩
  have hassign : (Available.of ⟨true, true, true, 512⟩ 2048 204800 512).assignLoop 3
      (sortList [(PartInfo.new [] ⟨0, 0⟩ 0 0x3200000, 0), (PartInfo.new [] ⟨0, 0⟩ 0 0x3200000, 1)]) =
    some (none, [(PartInfo.new [] ⟨0, 0⟩ 0x100000 0x3200000, 0),
      (PartInfo.new [] ⟨0, 0⟩ 0x3300000 0x3200000, 1)]) := rfl
  refine (granular_iff_keepsGrain _ (by decide) (by decide) _
    [PartInfo.new [] ⟨0, 0⟩ 0x100000 0x3200000, PartInfo.new [] ⟨0, 0⟩ 0x3300000 0x3200000] ?_).1.mp ?_
  · exact hr.accepted hassign rfl (by decide)
  · exact ⟨by decide, by decide⟩

/-- One half of 100 MiB that is put one sector behind an alignment boundary. -/
theorem misaligned_half_accepted :
    ¬ ∀ table', validate (Available.of ⟨true, true, true, 512⟩ 2048 204800 512) [PartInfo.new [] ⟨0, 0⟩ 0x100200 50] =
        some (.returned .success table') →
      (Available.of ⟨true, true, true, 512⟩ 2048 204800 512).Granular table' := by
  intro h
  have hr : (Available.of ⟨true, true, true, 512⟩ 2048 204800 512).Reaches
      [PartInfo.new [] ⟨0, 0⟩ 0x100200 50] [PartInfo.new [] ⟨0, 0⟩ 0x100200 0x3200000] 102400 :=
    ⟨by decide, by decide, rfl, by decide⟩
  have hassign : (Available.of ⟨true, true, true, 512⟩ 2048 204800 512).assignLoop 2
      (sortList [(PartInfo.new [] ⟨0, 0⟩ 0x100200 0x3200000, 0)]) =
    some (none, [(PartInfo.new [] ⟨0, 0⟩ 0x100200 0x3200000, 0)]) := rfl
  have hg := h _ (hr.accepted hassign rfl (by decide))
  exact absurd (hg.aligned _ List.mem_cons_self) (by decide)

end DiskStorage
