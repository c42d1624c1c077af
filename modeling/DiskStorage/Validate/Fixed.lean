import DiskStorage.Validate.Labels
import DiskStorage.Validate.Accounting

/-! Tables in which every entry has an offset: what validate accepts. -/
namespace DiskStorage
open Extents (Apart extent)

variable {b : Build}

namespace Available
variable (a : Available b)

/-- No entry asks for more bytes than there are from its offset to that of another one, unless one of
them asks for none. -/
def KeepsDistance (table : List (PartInfo b)) : Prop :=
  ∀ i (hi : i < table.length) j (hj : j < table.length), i ≠ j →
    0 < a.requestedAt table i table[i] → 0 < a.requestedAt table j table[j] → table[i].offset ≤ table[j].offset →
      a.requestedAt table i table[i] ≤ table[j].offset - table[i].offset

/-- No percentage of the range is more than there is from the offset of its entry to that of another one. -/
def SharesKeepDistance (table : List (PartInfo b)) : Prop :=
  ∀ i (hi : i < table.length) j (hj : j < table.length), i ≠ j → table[i].offset ≤ table[j].offset →
    a.share table[i].size * a.blockSize ≤ table[j].offset - table[i].offset

/-- Entries that ask for bytes start in the range, and for no more than there are in it from there. -/
def KeepsRange (table : List (PartInfo b)) : Prop :=
  ∀ i (hi : i < table.length), 0 < a.requestedAt table i table[i] →
    a.rangeStart ≤ table[i].offset ∧ a.requestedAt table i table[i] ≤ a.rangeEnd - table[i].offset

variable {a} {table table' sized : List (PartInfo b)} {T : Nat}

private theorem success_fixed (hfixed : ∀ p ∈ table, p.offset ≠ 0)
    (h : validate a table = some (.returned .success table')) :
    table'.length = table.length ∧ ∀ i (hi : i < table.length) (hi' : i < table'.length),
      table'[i].offset = table[i].offset ∧ table'[i].size = a.requestedAt table i table[i] := by
  obtain ⟨sized, T, list, _, hr, hassign, _, _, rfl⟩ := validate_success h
  rw [assignLoop_of_nonzero (sizingLoop_nonzero hfixed hr.sizing)] at hassign
  cases hassign
  rw [inTableOrder_of_perm (sortList_perm _)]
  obtain ⟨n, hsizes, hall⟩ := sizingLoop_sizes hr.sizing
  refine ⟨sizingLoop_length hr.sizing, fun i hi hi' => ⟨?_, ?_⟩⟩
  · have hoffset := List.getElem_of_eq (sizingLoop_offsets hr.sizing).1 (i := i) (by rwa [List.length_map])
    rwa [List.getElem_map, List.getElem_map] at hoffset
  · rw [hsizes i table[i] sized[i] (List.getElem?_eq_getElem hi) (List.getElem?_eq_getElem hi'),
      if_pos (by rwa [hall rfl])]
    rfl

private theorem sound_iff_of_entries (hlen : table'.length = table.length)
    (hentries : ∀ i (hi : i < table.length) (hi' : i < table'.length),
      table'[i].offset = table[i].offset ∧ table'[i].size = a.requestedAt table i table[i]) :
    a.Sound table' ↔ a.KeepsDistance table ∧ a.KeepsRange table := by
  rw [Sound, List.pairwise_iff_getElem, List.forall_mem_iff_getElem]
  constructor
  · rintro ⟨hapart, hinside⟩
    constructor
    · intro i hi j hj hij hpos hpos' hle
      obtain ⟨hoff, hsize⟩ := hentries i hi (hlen ▸ hi)
      obtain ⟨hoff', hsize'⟩ := hentries j hj (hlen ▸ hj)
      have hends : ∀ {k m} (hk : k < table'.length) (hm : m < table'.length), k ≠ m →
          min table'[k].stop table'[m].stop ≤ max table'[k].offset table'[m].offset := by
        intro k m hk hm hne
        rcases Nat.lt_or_gt_of_ne hne with hlt | hgt
        · exact Set.Ico_disjoint_Ico.mp (hapart k m hk hm hlt)
        · exact Set.Ico_disjoint_Ico.mp (hapart m k hm hk hgt).symm
      have := hends (hlen ▸ hi) (hlen ▸ hj) hij
      rw [PartInfo.stop, PartInfo.stop] at this
      omega
    · intro i hi hpos
      obtain ⟨hoff, hsize⟩ := hentries i hi (hlen ▸ hi)
      have hne : table'[i].offset < table'[i].stop := by
        rw [PartInfo.stop]
        omega
      have hin := (Extents.extent_subset_iff hne).mp (hinside i (hlen ▸ hi))
      rw [PartInfo.stop] at hin
      omega
  · rintro ⟨hdistance, hrange⟩
    constructor
    · intro i j hi hj hij
      obtain ⟨hoff, hsize⟩ := hentries i (hlen ▸ hi) hi
      obtain ⟨hoff', hsize'⟩ := hentries j (hlen ▸ hj) hj
      have hfront := hdistance i (hlen ▸ hi) j (hlen ▸ hj) hij.ne
      have hback := hdistance j (hlen ▸ hj) i (hlen ▸ hi) hij.ne'
      apply Set.Ico_disjoint_Ico.mpr
      rw [PartInfo.stop, PartInfo.stop]
      omega
    · intro i hi
      obtain ⟨hoff, hsize⟩ := hentries i (hlen ▸ hi) hi
      rcases Nat.eq_zero_or_pos table'[i].size with hzero | hpos
      · rw [Extents.extent_eq_empty (by rw [PartInfo.stop]; omega)]
        exact Set.empty_subset _
      · obtain ⟨hstart, hend⟩ := hrange i (hlen ▸ hi) (by omega)
        exact Extents.extent_subset (by omega) (by rw [PartInfo.stop]; omega)

end Available

section Representable
variable {a : Available b} {table table' : List (PartInfo b)}

private theorem lastPart_last {sized : List (PartInfo b)} {lastPart : Ref b}
    (hlast : (sortList sized.zipIdx).getLast? = some lastPart) : ∀ p ∈ sized, p.offset ≤ lastPart.1.offset := by
  intro p hp
  obtain ⟨front, hfront⟩ := List.getLast?_eq_some_iff.mp hlast
  have hsorted := sortList_sorted sized.zipIdx
  rw [hfront] at hsorted
  obtain ⟨i, hmem⟩ := exists_mem_sortList 0 hp
  rw [hfront] at hmem
  rcases List.mem_append.mp hmem with hmem | hmem
  · exact (List.pairwise_append.mp hsorted).2.2 _ hmem lastPart List.mem_cons_self
  · rw [← List.mem_singleton.mp hmem]

theorem sound_iff_keepsDistance (ha : a.Representable) (htotal : 0 < a.totalBlocks)
    (hfixed : ∀ p ∈ table, p.offset ≠ 0)
    (hends : ∀ i (hi : i < table.length), 0 < a.requestedAt table i table[i] ∧
      table[i].offset + a.requestedAt table i table[i] ≤ b.storageSize)
    (h : validate a table = some (.returned .success table')) : a.Sound table' ↔ a.KeepsDistance table := by
  obtain ⟨hlen, hentries⟩ := Available.success_fixed hfixed h
  rw [Available.sound_iff_of_entries hlen hentries, and_iff_left_iff_imp]
  intro hdistance
  obtain ⟨sized, T, list, lastPart, hr, hassign, hlast, hend, rfl⟩ := Available.validate_success h
  rw [Available.assignLoop_of_nonzero (Available.sizingLoop_nonzero hfixed hr.sizing)] at hassign
  cases hassign
  rw [inTableOrder_of_perm (sortList_perm _)] at hlen hentries
  -- the range, in bytes
  have hspan : a.rangeEnd = a.rangeStart + a.totalBlocks * a.blockSize := Nat.add_mul _ _ _
  have hpos : 0 < a.totalBlocks * a.blockSize := Nat.mul_pos htotal ha.blockSize_pos
  have hW := ha.range
  have hmin : a.minOffset = a.rangeStart := Build.storage_of_lt (by change a.rangeStart < _; omega)
  have hmax : a.maxOffset + 1 = a.rangeEnd := by
    have hblocks : (a.firstBlock + a.totalBlocks) * 512 ≤ a.rangeEnd := Nat.mul_le_mul_left _ ha.sector
    have hsize := b.storageSize_cases
    rw [Available.maxOffset, Build.storage_of_lt (by omega)]
    change u64 (a.rangeEnd + (2 ^ 64 - 1)) + 1 = a.rangeEnd
    rw [u64]
    omega
  -- the entry that comes last ends in it
  obtain ⟨m, hm, hpart⟩ := List.getElem_of_mem (mem_of_sortList (List.mem_of_getLast? hlast))
  have hm' : m < table.length := hlen ▸ hm
  obtain ⟨hoff, hsize⟩ := hentries m hm' hm
  obtain ⟨hsome, hwrap⟩ := hends m hm'
  have hlastEnd : table[m].offset + a.requestedAt table m table[m] ≤ a.rangeEnd := by
    have heq : table[m].offset + a.requestedAt table m table[m] + (b.storageSize - 1) =
        table[m].offset + a.requestedAt table m table[m] - 1 + b.storageSize := by omega
    rw [← hpart, PartInfo.endOffset, hoff, hsize, heq, Build.storage, Nat.add_mod_right, Nat.mod_eq_of_lt (by omega)]
      at hend
    omega
  intro i hi hasks
  have hi' : i < sized.length := hlen ▸ hi
  have hle := lastPart_last hlast sized[i] (List.getElem_mem hi')
  rw [← hpart, (hentries i hi hi').1, hoff] at hle
  constructor
  · rcases Available.sizingLoop_startInRange hr.sizing sized[i] (List.getElem_mem hi') with hzero | ⟨hstart, _⟩
    · rw [(hentries i hi hi').1] at hzero
      exact absurd hzero (hfixed _ (List.getElem_mem hi))
    · rwa [hmin, (hentries i hi hi').1] at hstart
  · by_cases him : i = m
    · subst him
      omega
    · have hgap := hdistance i hi m hm' him hasks hsome hle
      omega

theorem sound_iff_of_percentages (ha : a.Representable) (htotal : 0 < a.totalBlocks)
    (hfixed : ∀ p ∈ table, p.offset ≠ 0) (hpercent : ∀ p ∈ table, p.size ≤ 100 ∧ 100 ≤ a.totalBlocks * p.size)
    (hsum : (table.map fun p => a.share p.size).sum ≤ a.totalBlocks)
    (hends : ∀ p ∈ table, p.offset + a.share p.size * a.blockSize ≤ b.storageSize)
    (h : validate a table = some (.returned .success table')) : a.Sound table' ↔ a.SharesKeepDistance table := by
  have hasks : ∀ i (hi : i < table.length), a.requestedAt table i table[i] = a.share table[i].size * a.blockSize := by
    intro i hi
    obtain ⟨hsize, _⟩ := hpercent _ (List.getElem_mem hi)
    rw [Available.requestedAt_of_percentages ha (fun p hp => (hpercent p hp).1) hsize]
    have hsplit : table = table.take i ++ table[i] :: table.drop (i + 1) := by
      rw [← List.drop_eq_getElem_cons hi, List.take_append_drop]
    rw [hsplit, List.map_append, List.sum_append, List.map_cons, List.sum_cons] at hsum
    rw [Nat.min_eq_left (by omega)]
  have hpos : ∀ i (hi : i < table.length), 0 < a.share table[i].size * a.blockSize := by
    intro i hi
    obtain ⟨_, h100⟩ := hpercent _ (List.getElem_mem hi)
    have hle : a.totalBlocks * table[i].size / 100 ≤ a.share table[i].size := Extents.le_roundUp ha.blockAlign_pos
    exact Nat.mul_pos (by omega) ha.blockSize_pos
  rw [sound_iff_keepsDistance ha htotal hfixed (fun i hi => ?_) h, Available.KeepsDistance]
  · constructor
    · intro hdistance i hi j hj hij hle
      have := hdistance i hi j hj hij
      rw [hasks i hi, hasks j hj] at this
      exact this (hpos i hi) (hpos j hj) hle
    · intro hdistance i hi j hj hij _ _ hle
      rw [hasks i hi]
      exact hdistance i hi j hj hij hle
  · rw [hasks i hi]
    exact ⟨hpos i hi, hends _ (List.getElem_mem hi)⟩

end Representable

/-- What validate accepts of a table of entries with offsets is sound exactly when the entries are no longer
than the distances between their offsets, and in the range. Where the range can be represented, and no entry
is empty or has an end that wraps, it is the distances alone that are not checked: for percentages, those to
the blocks that the percentage is of the range. -/
theorem fixed_layout_sound_iff (a : Available b) (table table' : List (PartInfo b)) (hfixed : ∀ p ∈ table, p.offset ≠ 0)
    (h : validate a table = some (.returned .success table')) :
    (a.Sound table' ↔ a.KeepsDistance table ∧ a.KeepsRange table) ∧
    (a.Representable → 0 < a.totalBlocks →
      (∀ i (hi : i < table.length), 0 < a.requestedAt table i table[i] ∧
        table[i].offset + a.requestedAt table i table[i] ≤ b.storageSize) →
      (a.Sound table' ↔ a.KeepsDistance table)) ∧
    (a.Representable → 0 < a.totalBlocks → (∀ p ∈ table, p.size ≤ 100 ∧ 100 ≤ a.totalBlocks * p.size) →
      (table.map fun p => a.share p.size).sum ≤ a.totalBlocks →
      (∀ p ∈ table, p.offset + a.share p.size * a.blockSize ≤ b.storageSize) →
      (a.Sound table' ↔ a.SharesKeepDistance table)) := by
  refine ⟨?_, fun ha htotal hends => ?_, fun ha htotal hpercent hsum hends => ?_⟩
  · obtain ⟨hlen, hentries⟩ := Available.success_fixed hfixed h
    exact Available.sound_iff_of_entries hlen hentries
  · exact sound_iff_keepsDistance ha htotal hfixed hends h
  · exact sound_iff_of_percentages ha htotal hfixed hpercent hsum hends h

/-- Two halves of 100 MiB, one behind the other. -/
theorem fixed_layout_sound_two_halves : ∃ table', validate (Available.of ⟨true, true, true, 512⟩ 2048 204800 512)
        [PartInfo.new [] ⟨0, 0⟩ 0x100000 50, PartInfo.new [] ⟨0, 0⟩ 0x3300000 50] = some (.returned .success table') ∧
      (Available.of ⟨true, true, true, 512⟩ 2048 204800 512).Sound table' := by
  have hr : (Available.of ⟨true, true, true, 512⟩ 2048 204800 512).Reaches
      [PartInfo.new [] ⟨0, 0⟩ 0x100000 50, PartInfo.new [] ⟨0, 0⟩ 0x3300000 50]
      [PartInfo.new [] ⟨0, 0⟩ 0x100000 0x3200000, PartInfo.new [] ⟨0, 0⟩ 0x3300000 0x3200000] 204800 :=
    ⟨by decide, by decide, rfl, by decide⟩
  have hassign : (Available.of ⟨true, true, true, 512⟩ 2048 204800 512).assignLoop 3
      (sortList [(PartInfo.new [] ⟨0, 0⟩ 0x100000 0x3200000, 0), (PartInfo.new [] ⟨0, 0⟩ 0x3300000 0x3200000, 1)]) =
    some (none, [(PartInfo.new [] ⟨0, 0⟩ 0x100000 0x3200000, 0),
      (PartInfo.new [] ⟨0, 0⟩ 0x3300000 0x3200000, 1)]) := rfl
  have hv := hr.accepted hassign rfl (by decide)
  refine ⟨_, hv, (fixed_layout_sound_iff _ _ _ (by decide) hv).1.mpr ⟨?_, ?_⟩⟩
  · unfold Available.KeepsDistance
    decide
  · unfold Available.KeepsRange
    decide

/-- Two halves of 100 MiB are accepted, although the second starts 1 MiB behind the first. -/
theorem fixed_layout_overlap_accepted :
    ¬ ∀ table', validate (Available.of ⟨true, true, true, 512⟩ 2048 204800 512)
        [PartInfo.new [] ⟨0, 0⟩ 0x100000 50, PartInfo.new [] ⟨0, 0⟩ 0x200000 50] =
          some (.returned .success table') →
      (Available.of ⟨true, true, true, 512⟩ 2048 204800 512).Sound table' := by
  intro h
  have hr : (Available.of ⟨true, true, true, 512⟩ 2048 204800 512).Reaches
      [PartInfo.new [] ⟨0, 0⟩ 0x100000 50, PartInfo.new [] ⟨0, 0⟩ 0x200000 50]
      [PartInfo.new [] ⟨0, 0⟩ 0x100000 0x3200000, PartInfo.new [] ⟨0, 0⟩ 0x200000 0x3200000] 204800 :=
    ⟨by decide, by decide, rfl, by decide⟩
  have hassign : (Available.of ⟨true, true, true, 512⟩ 2048 204800 512).assignLoop 3
      (sortList [(PartInfo.new [] ⟨0, 0⟩ 0x100000 0x3200000, 0), (PartInfo.new [] ⟨0, 0⟩ 0x200000 0x3200000, 1)]) =
    some (none, [(PartInfo.new [] ⟨0, 0⟩ 0x100000 0x3200000, 0),
      (PartInfo.new [] ⟨0, 0⟩ 0x200000 0x3200000, 1)]) := rfl
  have hsound := h [PartInfo.new [] ⟨0, 0⟩ 0x100000 0x3200000, PartInfo.new [] ⟨0, 0⟩ 0x200000 0x3200000]
    (hr.accepted hassign rfl (by decide))
  exact absurd (Available.sound_iff_stacked.mp hsound) (by decide)

end DiskStorage
