import DiskStorage.Format.Devices
import DiskStorage.Format.SectorUnit
import DiskStorage.Validate.Granularity
import DiskStorage.Validate.InTurn

/-! The CHS fields in the records of an MBR. -/
namespace DiskStorage
open ByteStore

variable {b : Build}

namespace MBR

namespace CHS
variable (chs : CHS)

/-- The cylinder, with its high bits from the sector field. -/
def cylinder : Nat := chs.track.toNat + 4 * (chs.sector &&& 0xC0).toNat

/-- The sector that the fields stand for on a disk with these heads. -/
def lba (heads : Nat) : Nat :=
  (chs.cylinder * heads + chs.head.toNat) * N_SEC_TRACK + (chs.sector &&& 0x3f).toNat - 1

end CHS

/-- The sectors that CHS fields can stand for. -/
def chsSectors (heads : Nat) : Nat := 1024 * heads * N_SEC_TRACK

/-- The CHS fields of a record stand for the first and the last sector that it gives in LBA, and the
cylinders of these have ten bits. -/
structure Agrees (heads : Nat) (rec : MbrRecord) : Prop where
  first : (CHS.mk rec.startHead rec.startSector rec.startTrack).lba heads = rec.startingLba.toNat
  last : (CHS.mk rec.endHead rec.endSector rec.endTrack).lba heads = rec.startingLba.toNat + rec.sizeInLba.toNat - 1
  first_cylinder : rec.startingLba.toNat / N_SEC_TRACK / heads ≤ 1023
  last_cylinder : (rec.startingLba.toNat + rec.sizeInLba.toNat - 1) / N_SEC_TRACK / heads ≤ 1023

section Fields
variable {heads : Nat} {sect : UInt32}

private theorem and_high (n : Nat) : n &&& 0xC0 = n / 64 % 4 * 64 := by
  have hlow : (n &&& 0xC0) % 2 ^ 6 = 0 := by
    rw [Nat.and_mod_two_pow]
    exact Nat.and_zero _
  have hhigh : (n &&& 0xC0) / 2 ^ 6 = n / 64 % 4 := by
    rw [Nat.and_div_two_pow]
    exact Nat.and_two_pow_sub_one_eq_mod (n / 64) 2
  rw [← hhigh]
  exact (Nat.div_mul_cancel (Nat.dvd_of_mod_eq_zero hlow)).symm

private theorem sector_toNat (sect : UInt32) (cyl : Nat) :
    (UInt8.ofNat (1 + sect.toNat % N_SEC_TRACK) ||| UInt8.ofNat (cyl / 4 &&& 0xC0)).toNat =
      64 * (cyl / 256 % 4) + (1 + sect.toNat % N_SEC_TRACK) := by
  have hlt : sect.toNat % N_SEC_TRACK < 63 := Nat.mod_lt _ (by decide)
  have hor := Nat.two_pow_add_eq_or_of_lt (b := 1 + sect.toNat % N_SEC_TRACK) (i := 6) (by omega) (cyl / 256 % 4)
  have hhigh : cyl / 4 / 64 = cyl / 256 := Nat.div_div_eq_div_mul _ _ _
  have hlow : (UInt8.ofNat (1 + sect.toNat % N_SEC_TRACK)).toNat = 1 + sect.toNat % N_SEC_TRACK :=
    UInt8.toNat_ofNat_of_lt' (Nat.lt_trans (Nat.add_lt_add_left hlt 1) (by decide))
  have hbits : (UInt8.ofNat (cyl / 4 &&& 0xC0)).toNat = 64 * (cyl / 256 % 4) := by
    rw [and_high, hhigh, Nat.mul_comm]
    exact UInt8.toNat_ofNat_of_lt'
      (Nat.lt_of_le_of_lt (Nat.mul_le_mul_left 64 (Nat.le_of_lt_succ (Nat.mod_lt _ (by decide))))
      (show 64 * 3 < 256 by decide))
  rw [UInt8.toNat_or, hlow, hbits, Nat.or_comm]
  exact hor.symm

theorem cylinder_calcCHS : (calcCHS heads sect).cylinder = sect.toNat / N_SEC_TRACK / heads % 1024 := by
  have hlt : sect.toNat % N_SEC_TRACK < 63 := Nat.mod_lt _ (by decide)
  have htrack : (calcCHS heads sect).track.toNat = sect.toNat / N_SEC_TRACK / heads % 256 := UInt8.toNat_ofNat'
  have hsector := sector_toNat sect (sect.toNat / N_SEC_TRACK / heads)
  rw [CHS.cylinder, htrack, UInt8.toNat_and]
  change _ + 4 * ((UInt8.ofNat _ ||| UInt8.ofNat _).toNat &&& 0xC0) = _
  rw [hsector, and_high]
  omega

theorem lba_calcCHS (hpos : 0 < heads) (hheads : heads ≤ 255) :
    (calcCHS heads sect).lba heads =
      (sect.toNat / N_SEC_TRACK / heads % 1024 * heads + sect.toNat / N_SEC_TRACK % heads) * N_SEC_TRACK +
        sect.toNat % N_SEC_TRACK := by
  have hlt : sect.toNat % N_SEC_TRACK < 63 := Nat.mod_lt _ (by decide)
  have hmod := Nat.mod_lt (sect.toNat / N_SEC_TRACK) hpos
  have hhead : (calcCHS heads sect).head.toNat = sect.toNat / N_SEC_TRACK % heads :=
    UInt8.toNat_ofNat_of_lt' (Nat.lt_of_lt_of_le hmod (Nat.le_succ_of_le hheads))
  have hsector := sector_toNat sect (sect.toNat / N_SEC_TRACK / heads)
  have hlow : ((calcCHS heads sect).sector &&& 0x3f).toNat = 1 + sect.toNat % N_SEC_TRACK := by
    rw [UInt8.toNat_and]
    change (UInt8.ofNat _ ||| UInt8.ofNat _).toNat &&& (2 ^ 6 - 1) = _
    rw [hsector, Nat.and_two_pow_sub_one_eq_mod]
    omega
  rw [CHS.lba, cylinder_calcCHS, hhead, hlow]
  omega

private theorem cylinder_lt_iff (hpos : 0 < heads) (n : Nat) :
    n / N_SEC_TRACK / heads < 1024 ↔ n < chsSectors heads := by
  rw [Nat.div_lt_iff_lt_mul hpos, Nat.div_lt_iff_lt_mul (by decide), chsSectors]

theorem lba_calcCHS_of_lt (hpos : 0 < heads) (hheads : heads ≤ 255) (hlt : sect.toNat < chsSectors heads) :
    (calcCHS heads sect).lba heads = sect.toNat := by
  rw [lba_calcCHS hpos hheads, Nat.mod_eq_of_lt ((cylinder_lt_iff hpos _).mpr hlt), Nat.mul_comm _ heads,
    Nat.div_add_mod, Nat.mul_comm, Nat.div_add_mod]

theorem lba_calcCHS_lt (sect : UInt32) (hpos : 0 < heads) (hheads : heads ≤ 255) :
    (calcCHS heads sect).lba heads < chsSectors heads := by
  have hsector : sect.toNat % N_SEC_TRACK < N_SEC_TRACK := Nat.mod_lt _ (by decide)
  have hhead := Nat.mod_lt (sect.toNat / N_SEC_TRACK) hpos
  have hcylinder : sect.toNat / N_SEC_TRACK / heads % 1024 + 1 ≤ 1024 := Nat.mod_lt _ (by decide)
  have hmul := Nat.mul_le_mul_right heads hcylinder
  rw [Nat.succ_mul] at hmul
  have hmul' := Nat.mul_le_mul_right N_SEC_TRACK (show
    sect.toNat / N_SEC_TRACK / heads % 1024 * heads + sect.toNat / N_SEC_TRACK % heads + 1 ≤ 1024 * heads by omega)
  rw [Nat.succ_mul] at hmul'
  rw [lba_calcCHS hpos hheads, chsSectors]
  omega

theorem agrees_recordOf_iff {l : Layout} {part : PartInfo b} (hpos : 0 < l.numHeads) (hheads : l.numHeads ≤ 255)
    (hstart : 0 < part.offset / 2 ^ l.shift) (hoffset : part.offset / 2 ^ l.shift < 2 ^ 32)
    (hsize : part.size / 2 ^ l.shift < 2 ^ 32) :
    Agrees l.numHeads (recordOf l part) ↔
      part.offset / 2 ^ l.shift < chsSectors l.numHeads ∧
        part.offset / 2 ^ l.shift + part.size / 2 ^ l.shift ≤ chsSectors l.numHeads := by
  have hsect : (recordOf l part).startingLba.toNat = part.offset / 2 ^ l.shift := UInt32.toNat_ofNat_of_lt' hoffset
  have hcount : (recordOf l part).sizeInLba.toNat = part.size / 2 ^ l.shift := UInt32.toNat_ofNat_of_lt' hsize
  have hsmall : chsSectors l.numHeads ≤ 1024 * 255 * 63 := by
    rw [chsSectors, N_SEC_TRACK]
    omega
  constructor
  · intro h
    have hfirst := h.first
    have hlast := h.last
    have hlt := lba_calcCHS_lt (recordOf l part).startingLba hpos hheads
    have hlt' := lba_calcCHS_lt ((recordOf l part).startingLba + (recordOf l part).sizeInLba - 1) hpos hheads
    rw [hsect] at hfirst hlast
    rw [hcount] at hlast
    change (calcCHS l.numHeads (recordOf l part).startingLba).lba l.numHeads = _ at hfirst
    change (calcCHS l.numHeads ((recordOf l part).startingLba + (recordOf l part).sizeInLba - 1)).lba l.numHeads =
      _ at hlast
    omega
  · rintro ⟨hfirst, hlast⟩
    have hend : ((recordOf l part).startingLba + (recordOf l part).sizeInLba - 1).toNat =
        part.offset / 2 ^ l.shift + part.size / 2 ^ l.shift - 1 := by
      rw [UInt32.toNat_sub_of_le, UInt32.toNat_add, hsect, hcount, Nat.mod_eq_of_lt (by omega)]
      · rfl
      · rw [UInt32.le_iff_toNat_le, UInt32.toNat_add, hsect, hcount, Nat.mod_eq_of_lt (by omega)]
        exact Nat.le_add_right_of_le hstart
    refine ⟨?_, ?_, ?_, ?_⟩
    · exact lba_calcCHS_of_lt hpos hheads (hsect.trans_lt hfirst)
    · rw [hsect, hcount, ← hend]
      exact lba_calcCHS_of_lt hpos hheads (hend.trans_lt (by omega))
    · rw [hsect]
      exact Nat.le_of_lt_succ ((cylinder_lt_iff hpos _).mpr hfirst)
    · rw [hsect, hcount]
      exact Nat.le_of_lt_succ ((cylinder_lt_iff hpos _).mpr (by omega))

end Fields

section Heads
variable {l : Layout} {heads : Nat}

theorem numHeads_eq (hheads : heads ∈ [8, 16, 32, 64, 128]) (h : l.numDeviceSectors / (heads * N_SEC_TRACK) = 1024) :
    l.numHeads = heads := by
  -- half as many heads leave twice as many cylinders
  have hless : ∀ n, n * 2 ≤ heads → 0 < n → ¬ l.numDeviceSectors / (n * N_SEC_TRACK) ≤ 1024 := by
    intro n hn hpos hle
    have hpos' : 0 < n * N_SEC_TRACK := Nat.mul_pos hpos (by decide)
    have hlt : l.numDeviceSectors < 1025 * (n * N_SEC_TRACK) := (Nat.div_lt_iff_lt_mul hpos').mp (Nat.lt_succ_of_le hle)
    have hge : 1024 * (heads * N_SEC_TRACK) ≤ l.numDeviceSectors := h ▸ Nat.div_mul_le_self _ _
    have hmul : n * N_SEC_TRACK * 2 ≤ heads * N_SEC_TRACK := by
      rw [Nat.mul_right_comm]
      exact Nat.mul_le_mul_right _ hn
    omega
  simp only [List.mem_cons, List.not_mem_nil, or_false] at hheads
  rcases hheads with rfl | rfl | rfl | rfl | rfl
  all_goals simp [Layout.numHeads, h, hless]

theorem numHeads_cases (hdevice : l.numDeviceSectors ≤ 1024 * 255 * 63) :
    l.numDeviceSectors ≤ chsSectors l.numHeads ∧ l.numHeads ∈ [8, 16, 32, 64, 128, 255] ∨
      l.numHeads ∈ [8, 16, 32, 64, 128] ∧ l.numDeviceSectors / (l.numHeads * N_SEC_TRACK) = 1024 := by
  generalize hfound : l.numHeads = heads
  rw [Layout.numHeads] at hfound
  cases hfind : [8, 16, 32, 64, 128].find? fun numHeads => l.numDeviceSectors / (numHeads * N_SEC_TRACK) ≤ 1024 with
  | none =>
    rw [hfind] at hfound
    cases hfound
    exact Or.inl ⟨hdevice, by decide⟩
  | some found =>
    rw [hfind] at hfound
    cases hfound
    have hmem := List.mem_of_find?_eq_some hfind
    have htaken := List.find?_some hfind
    have hle : l.numDeviceSectors / (found * N_SEC_TRACK) ≤ 1024 := of_decide_eq_true htaken
    have hpos : 0 < found * N_SEC_TRACK := Nat.mul_pos (by simp at hmem; omega) (by decide)
    rcases Nat.lt_or_eq_of_le hle with hlt | heq
    · left
      rw [chsSectors, Nat.mul_assoc]
      exact ⟨((Nat.div_lt_iff_lt_mul hpos).mp hlt).le, List.mem_append_left [255] hmem⟩
    · exact Or.inr ⟨hmem, heq⟩

theorem numHeads_bounds (hdevice : l.numDeviceSectors ≤ 1024 * 255 * 63) : 8 ≤ l.numHeads ∧ l.numHeads ≤ 255 := by
  rcases numHeads_cases hdevice with ⟨_, hmem⟩ | ⟨hmem, _⟩
  all_goals
    simp only [List.mem_cons, List.not_mem_nil, or_false] at hmem
    omega

end Heads

section Agreement
variable {σ : Type} {l : Layout} {table parts : List (PartInfo b)}

/-- Where the device has up to one cylinder more than 1024, with a number of heads that formatDisk tries,
no entry is to end on that one. Entries whose start or size cannot be represented come to lie elsewhere. -/
def SparesLastCylinder (l : Layout) (table : List (PartInfo b)) : Prop :=
  ∀ heads ∈ [8, 16, 32, 64, 128], l.numDeviceSectors / (heads * N_SEC_TRACK) = 1024 →
    ∀ front part rest, table = front ++ part :: rest → (l.available b).startBehind front < b.storageSize →
      (l.available b).bytesBehind front part < b.storageSize →
      (l.available b).startBehind front + (l.available b).bytesBehind front part ≤ chsSectors heads * l.sectorSize

private theorem available_aligned (hunit : SectorUnit l.sectorSize) (hlo : 2048 < l.numDeviceSectors)
    (hhi : l.numDeviceSectors ≤ 1024 * 255 * 63) :
    (l.available b).Aligned ∧ (l.available b).rangeStart = PARTITION_ALIGN ∧
      (l.available b).rangeEnd = l.numDeviceSectors * l.sectorSize ∧
      (l.available b).totalBlocks = l.numDeviceSectors - l.firstAllocatableSector ∧
      (l.available b).blockAlign = l.firstAllocatableSector ∧ l.firstAllocatableSector ≤ 2048 := by
  have hmul := Layout.firstAllocatable_mul hunit
  have hfirst : l.firstAllocatableSector ≤ 2048 := by
    have hle : l.firstAllocatableSector * 512 ≤ l.firstAllocatableSector * l.sectorSize :=
      Nat.mul_le_mul_left _ hunit.min_le
    rw [hmul, PARTITION_ALIGN] at hle
    omega
  have htotal := Layout.allocatable_eq (Nat.lt_of_le_of_lt hhi (by decide)) (by omega)
  have hsum : l.firstAllocatableSector + l.allocatableSectors = l.numDeviceSectors := by omega
  have hblocks : l.firstAllocatableSector + l.allocatableSectors < b.storageSize := by
    have := b.storageSize_cases
    omega
  have hbytes : (l.firstAllocatableSector + l.allocatableSectors) * l.sectorSize < 2 ^ 64 := by
    rw [hsum]
    exact Nat.lt_of_le_of_lt (Nat.mul_le_mul hhi hunit.lt.le) (by decide)
  obtain ⟨haligned, hstart, hend, hblocks, halign⟩ := hunit.range_aligned hmul hblocks (by omega) hbytes
  exact ⟨haligned, hstart, hend.trans (by rw [hsum]), hblocks.trans htotal, halign, hfirst⟩

private theorem agrees_iff_stop (hunit : SectorUnit l.sectorSize) (hdevice : l.numDeviceSectors ≤ 1024 * 255 * 63)
    {part : PartInfo b} (hoffset : PARTITION_ALIGN ∣ part.offset) (hsize : l.sectorSize ∣ part.size)
    (h0 : part.offset ≠ 0) (hlt : part.stop < 2 ^ 32 * l.sectorSize) :
    Agrees l.numHeads (recordOf l part) ↔
      part.offset < chsSectors l.numHeads * l.sectorSize ∧ part.stop ≤ chsSectors l.numHeads * l.sectorSize := by
  have hpow : l.sectorSize = 2 ^ l.shift := hunit.pow
  have hpos := hunit.pos
  obtain ⟨hlo, hhi⟩ := numHeads_bounds hdevice
  have hstart : part.offset / l.sectorSize * l.sectorSize = part.offset := Nat.div_mul_cancel (hunit.dvd.trans hoffset)
  have hcount : part.size / l.sectorSize * l.sectorSize = part.size := Nat.div_mul_cancel hsize
  rw [PartInfo.stop, ← hstart, ← hcount, ← Nat.add_mul, Nat.mul_lt_mul_right hpos] at hlt
  rw [PartInfo.stop, ← hstart, ← hcount, ← Nat.add_mul, Nat.mul_lt_mul_right hpos, Nat.mul_le_mul_right_iff hpos]
  have hne : part.offset / l.sectorSize ≠ 0 := by
    intro hzero
    rw [hzero, Nat.zero_mul] at hstart
    exact h0 hstart.symm
  rw [hpow] at hlt hne ⊢
  exact agrees_recordOf_iff (Nat.lt_of_lt_of_le (by decide) hlo) hhi (Nat.pos_of_ne_zero hne)
    (Nat.lt_of_le_of_lt (Nat.le_add_right _ _) hlt) (Nat.lt_of_le_of_lt (Nat.le_add_left _ _) hlt)

private theorem excess_le (hlo : 2048 < l.numDeviceSectors) (hhi : l.numDeviceSectors ≤ 1024 * 255 * 63)
    (hfirst : l.firstAllocatableSector ≤ 2048) :
    (l.numDeviceSectors - chsSectors l.numHeads) * 100 ≤ l.numDeviceSectors - l.firstAllocatableSector ∧
      l.numDeviceSectors - chsSectors l.numHeads ≤ 128 * 63 := by
  rcases numHeads_cases hhi with ⟨hle, _⟩ | ⟨hheads, hcylinders⟩
  · rw [Nat.sub_eq_zero_of_le hle]
    omega
  · simp only [List.mem_cons, List.not_mem_nil, or_false] at hheads
    have hlt := Nat.lt_mul_div_succ l.numDeviceSectors
      (show 0 < l.numHeads * N_SEC_TRACK from Nat.mul_pos (by omega) (by decide))
    rw [hcylinders] at hlt
    rw [chsSectors]
    rw [N_SEC_TRACK] at hlt hcylinders ⊢
    omega

private theorem spares_of_few (hfirst : l.firstAllocatableSector ≤ 2048)
    (hfew : l.numDeviceSectors - l.firstAllocatableSector < 100) : SparesLastCylinder l table := by
  intro heads hheads hcylinders
  have hdiv := Nat.div_mul_le_self l.numDeviceSectors (heads * N_SEC_TRACK)
  rw [hcylinders] at hdiv
  simp only [List.mem_cons, List.not_mem_nil, or_false] at hheads
  rw [N_SEC_TRACK] at hdiv
  omega

section Accepted
variable (hunit : SectorUnit l.sectorSize) (hlo : 2048 < l.numDeviceSectors)
  (hhi : l.numDeviceSectors ≤ 1024 * 255 * 63)
  (hp : AutoPercentages table) (hv : validate (l.available b) table = some (.returned .success parts))
include hunit hlo hhi hp hv

private theorem fits_of_room (hroom : 100 ≤ l.numDeviceSectors - l.firstAllocatableSector) :
    (l.available b).Percentages table ∧ (l.available b).Fits 0 table := by
  obtain ⟨haligned, _, _, htotal, _, _⟩ := available_aligned (b := b) hunit hlo hhi
  have hpercent := Available.percentages_of_hundred haligned.toExactShares (by rwa [htotal]) hp
  obtain ⟨sized, T, _, _, hr, _⟩ := Available.validate_success hv
  exact ⟨hpercent, (hr.resizeFrom haligned.toExactShares hpercent).1⟩

private theorem ends_by_iff_spares (hroom : 100 ≤ l.numDeviceSectors - l.firstAllocatableSector) :
    (∀ q ∈ parts, q.offset < chsSectors l.numHeads * l.sectorSize ∧ q.stop ≤ chsSectors l.numHeads * l.sectorSize) ↔
      SparesLastCylinder l table := by
  obtain ⟨haligned, hstart, hend, htotal, halign, hfirst⟩ := available_aligned (b := b) hunit hlo hhi
  obtain ⟨hpercent, hfits⟩ := fits_of_room hunit hlo hhi hp hv hroom
  obtain ⟨hexcess, hcylinder⟩ := excess_le hlo hhi hfirst
  have hgap := Extents.roundUp_lt (m := (l.numDeviceSectors - chsSectors l.numHeads) * l.sectorSize) PARTITION_ALIGN_pos
  have hle := Extents.le_roundUp (m := (l.numDeviceSectors - chsSectors l.numHeads) * l.sectorSize) PARTITION_ALIGN_pos
  rw [Available.ends_by_iff haligned hpercent (Extents.dvd_roundUp
    ((l.numDeviceSectors - chsSectors l.numHeads) * l.sectorSize) PARTITION_ALIGN) ?_ ?_ ?_ hv]
  · constructor
    · intro hbound heads hheads hcylinders
      rw [← numHeads_eq hheads hcylinders]
      exact hbound
    · intro hspares front part rest htable
      rcases numHeads_cases hhi with ⟨hle, _⟩ | ⟨hheads, hcylinders⟩
      · intro _ _
        have hin := Available.behind_le part (Available.fits_room (htable ▸ hfits))
        rw [hend] at hin
        exact hin.trans (Nat.mul_le_mul_right _ hle)
      · exact hspares _ hheads hcylinders front part rest htable
  · have hmul := Nat.mul_le_mul hcylinder hunit.lt.le
    have hunit : PARTITION_ALIGN = 2 ^ 20 := rfl
    have := b.storageSize_cases
    omega
  · intro p hmem
    have hblock : (l.available b).blockSize = l.sectorSize := Nat.mod_eq_of_lt (Nat.lt_trans hunit.lt (by decide))
    have hunits := Nat.mul_dvd_mul_right
      (Extents.dvd_roundUp ((l.available b).totalBlocks * p.size / 100) (l.available b).blockAlign)
      (l.available b).blockSize
    rw [Available.blockAlign, Nat.div_mul_cancel haligned.block] at hunits
    refine Extents.roundUp_le PARTITION_ALIGN_pos hunits ?_
    rw [hblock]
    refine Nat.mul_le_mul_right _ (le_trans ?_ (Extents.le_roundUp haligned.align))
    rw [Nat.le_div_iff_mul_le (by decide), htotal]
    exact hexcess.trans (Nat.le_mul_of_pos_right _ (hp p hmem).2.1)
  · rw [hend]
    rw [Nat.sub_mul] at hle ⊢
    omega

private theorem stop_lt_of_room (hroom : 100 ≤ l.numDeviceSectors - l.firstAllocatableSector) :
    ∀ q ∈ parts, q.stop < 2 ^ 32 * l.sectorSize := by
  obtain ⟨haligned, _, hend, _, _, _⟩ := available_aligned (b := b) hunit hlo hhi
  obtain ⟨hpercent, hfits⟩ := fits_of_room hunit hlo hhi hp hv hroom
  intro q hq
  obtain ⟨front, part, rest, htable, hsize, hoffset⟩ := Available.placed_in_turn haligned hpercent hfits
    (Nat.dvd_zero _) (Nat.zero_le _) (fun _ _ => Nat.zero_le _) hv q hq
  have hin := Available.behind_le part (Available.fits_room (htable ▸ hfits))
  have hle := hoffset.le
  have hle' : q.size ≤ (l.available b).bytesBehind front part := hsize.trans_le (Nat.mod_le _ _)
  have hmul := Nat.mul_le_mul_right l.sectorSize hhi
  have hpos := hunit.pos
  rw [hend] at hin
  rw [PartInfo.stop]
  omega

private theorem stop_le_of_few (hlen : table.length ≤ 4) (hfew : l.numDeviceSectors - l.firstAllocatableSector < 100) :
    ∀ q ∈ parts, q.stop ≤ 10 * 2048 * l.sectorSize := by
  obtain ⟨haligned, hstart, _, htotal, _, hfirst⟩ := available_aligned (b := b) hunit hlo hhi
  have hmul := Layout.firstAllocatable_mul hunit
  have hblock : (l.available b).blockSize = l.sectorSize := Nat.mod_eq_of_lt (Nat.lt_trans hunit.lt (by decide))
  have hshort : (l.available b).totalBlocks * (l.available b).blockSize ≤ PARTITION_ALIGN := by
    rw [htotal, hblock, ← hmul]
    exact Nat.mul_le_mul_right _ (by omega)
  intro q hq
  have hstop := Available.stop_le_of_short haligned.toExactShares haligned.start_lt hshort hp hv q hq
  have hten : (2 * table.length + 1) * PARTITION_ALIGN ≤ 9 * PARTITION_ALIGN := Nat.mul_le_mul_right _ (by omega)
  have hle := Nat.mul_le_mul_right l.sectorSize hfirst
  rw [hstart] at hstop
  rw [hmul] at hle
  omega

private theorem agree_iff_spares (hlen : table.length ≤ 4) :
    (∀ q ∈ parts, Agrees l.numHeads (recordOf l q)) ↔ SparesLastCylinder l table := by
  obtain ⟨haligned, _, _, _, _, hfirst⟩ := available_aligned (b := b) hunit hlo hhi
  have hblock : (l.available b).blockSize = l.sectorSize := Nat.mod_eq_of_lt (Nat.lt_trans hunit.lt (by decide))
  have hwhole := Available.validate_dvd haligned.start haligned.block (fun q hq => ⟨(hp q hq).1, (hp q hq).2.2⟩) hv
  rw [hblock] at hwhole
  have hne := Available.validate_offset_ne_zero hv
  have hagree : (∀ q ∈ parts, q.stop < 2 ^ 32 * l.sectorSize) →
      ((∀ q ∈ parts, Agrees l.numHeads (recordOf l q)) ↔ ∀ q ∈ parts,
        q.offset < chsSectors l.numHeads * l.sectorSize ∧ q.stop ≤ chsSectors l.numHeads * l.sectorSize) := by
    intro hlt
    apply forall₂_congr
    intro q hq
    exact agrees_iff_stop hunit hhi (hwhole q hq).1 (hwhole q hq).2 (hne q hq) (hlt q hq)
  rcases Nat.lt_or_ge (l.numDeviceSectors - l.firstAllocatableSector) 100 with hfew | hroom
  · -- all partitions are far in front of the last cylinder
    have hstop := stop_le_of_few hunit hlo hhi hp hv hlen hfew
    have hpos := hunit.pos
    have heads := (numHeads_bounds hhi).1
    have hcylinders : 1024 * 8 * 63 ≤ chsSectors l.numHeads := by
      rw [chsSectors, N_SEC_TRACK]
      omega
    have hmul := Nat.mul_le_mul_right l.sectorSize hcylinders
    rw [hagree fun q hq => by have := hstop q hq; omega]
    refine iff_of_true (fun q hq => ?_) (spares_of_few hfirst hfew)
    have hle := hstop q hq
    have hstart : q.offset ≤ q.stop := Nat.le_add_right _ _
    exact ⟨by omega, by omega⟩
  · rw [hagree (stop_lt_of_room hunit hlo hhi hp hv hroom)]
    exact ends_by_iff_spares hunit hlo hhi hp hv hroom

end Accepted

end Agreement

/-- On success formatDisk writes one boot record. The CHS fields in all its records stand for the sectors
that these give in LBA, exactly when no partition takes a sector behind the first 1024 cylinders: the
quotient that chooses the number of heads is cut to whole cylinders, so that the device may have some. -/
theorem chs_agrees_iff {σ : Type} [Device σ] (workBuffer : Option (Nat → UInt8)) (device : σ)
    (pt table : List (PartInfo b))
    (result : Formatted b σ) (hunit : SectorUnit (MBR.sectorSize b)) (hlo : 2048 < Device.getSectorCount device)
    (hhi : Device.getSectorCount device ≤ 1024 * 255 * 63) (hp : AutoPercentages table)
    (hformat : formatDisk workBuffer device pt table = some result) (hok : result.err = .success) :
    ∃ bytes d', Device.write device 0 bytes = (true, d') ∧ Device.sync d' = (true, result.device) ∧
      ((∀ i < result.partitions.length,
        Agrees (Layout.of b device).numHeads (mbrRecord (patch (fun _ => 0) 0 bytes) i)) ↔
        SparesLastCylinder (Layout.of b device) table) := by
  obtain ⟨buffer, d', _, hcount, _, hvalidate, hwrite, hsync, _⟩ := formatDisk_success hformat hok
  have hlen := Available.validate_length hvalidate
  have hsectors : (Layout.of b device).numDeviceSectors = Device.getSectorCount device :=
    Nat.mod_eq_of_lt (Nat.lt_of_le_of_lt hhi (by decide))
  refine ⟨_, d', hwrite, hsync, ?_⟩
  rw [← agree_iff_spares hunit (hsectors ▸ hlo) (hsectors ▸ hhi) hp hvalidate hcount,
    List.forall_mem_iff_forall_getElem]
  apply forall₂_congr
  intro i hi
  have hrecord := mbrRecord_written (l := Layout.of b device) buffer hunit.min_le (hlen ▸ hcount) hi
  rw [hrecord]

/-- On a disk of 4 MiB they agree. -/
theorem chs_agrees_four_mib : ∃ result,
    formatDisk (b := ⟨true, true, true, 512⟩) (some fun _ => 0) (⟨fun _ => 0, 512, 8192⟩ : RamDisk) []
        [PartInfo.new [] ⟨1, 0⟩ 0 50] = some result ∧
      ∃ bytes d', Device.write (⟨fun _ => 0, 512, 8192⟩ : RamDisk) 0 bytes = (true, d') ∧
        Device.sync d' = (true, result.device) ∧
        ∀ i < result.partitions.length, Agrees 8 (mbrRecord (patch (fun _ => 0) 0 bytes) i) := by
  have hmap : (formatDisk (b := ⟨true, true, true, 512⟩) (some fun _ => 0) (⟨fun _ => 0, 512, 8192⟩ : RamDisk) []
      [PartInfo.new [] ⟨1, 0⟩ 0 50]).map Formatted.err = some .success := by decide +kernel
  obtain ⟨result, hformat, hok⟩ := Option.map_eq_some_iff.mp hmap
  obtain ⟨bytes, d', hwrite, hsync, hiff⟩ := chs_agrees_iff _ _ _ _ result ⟨by decide, by decide, by decide⟩ (by decide)
    (by decide) (List.forall_mem_singleton.mpr (by decide)) hformat hok
  refine ⟨result, hformat, bytes, d', hwrite, hsync, hiff.mpr fun heads hheads hcylinders => ?_⟩
  simp only [List.mem_cons, List.not_mem_nil, or_false] at hheads
  rcases hheads with rfl | rfl | rfl | rfl | rfl
  all_goals exact absurd hcylinders (by decide)

/-- A disk of 516097 sectors is taken for one of 8 heads and 1024 cylinders, which leaves one sector over.
An entry for all of the range ends on it, and its record has the first sector for the last one. -/
theorem chs_end_wraps : ∃ result,
    formatDisk (b := ⟨true, true, true, 512⟩) (some fun _ => 0) (⟨fun _ => 0, 512, 516097⟩ : RamDisk) []
        [PartInfo.new [] ⟨1, 0⟩ 0 100] = some result ∧
      result.err = .success ∧ (Layout.of ⟨true, true, true, 512⟩ (⟨fun _ => 0, 512, 516097⟩ : RamDisk)).numHeads = 8 ∧
      ¬ Agrees 8 (mbrRecord (LawfulDevice.medium result.device) 0) := by
  have hmap : (formatDisk (b := ⟨true, true, true, 512⟩) (some fun _ => 0) (⟨fun _ => 0, 512, 516097⟩ : RamDisk) []
      [PartInfo.new [] ⟨1, 0⟩ 0 100]).map (fun r => (r.err, mbrRecord (LawfulDevice.medium r.device) 0)) =
      some (.success, ⟨0, 0, 33, 4, 0, 0, 1, 0, 2048, 514049⟩) := by decide +kernel
  obtain ⟨result, hformat, heq⟩ := Option.map_eq_some_iff.mp hmap
  obtain ⟨hok, hrecord⟩ := Prod.mk.inj heq
  refine ⟨result, hformat, hok, by decide, ?_⟩
  rw [hrecord]
  intro h
  exact absurd h.last (by decide)

end MBR

end DiskStorage
