import DiskStorage.Scanner.Sectors

/-! The boot sectors that identify takes for FAT12 or FAT16, which have neither signature nor type. -/
namespace DiskStorage
open LittleEndian

/-! `fat_boot_sector_t`, in the first bytes of a sector. -/
namespace BootSector
variable (f : Nat → UInt8)

def sectorSize : Nat := (read16 f 11).toNat
def secPerClus : Nat := (f 13).toNat
def reserved : Nat := (read16 f 14).toNat
def numFats : Nat := (f 16).toNat
def dirEntries : Nat := (read16 f 17).toNat
def sectors : Nat := (read16 f 19).toNat
def fatLength : Nat := (read16 f 22).toNat
def totalSect : Nat := (read32 f 32).toNat

/-- `fat.sectors ?: fat.total_sect` -/
def sectorCount : Nat := if sectors f ≠ 0 then sectors f else totalSect f

/-- A short jump, a near jump or a near call. -/
def Jump : Prop := f 0 = 0xEB ∨ f 0 = 0xE9 ∨ f 0 = 0xE8

instance : Decidable (Jump f) := inferInstanceAs (Decidable (_ ∨ _))

/-- Neither the branch for exFAT nor that for FAT32 accepts the sector. -/
structure Untyped : Prop where
  not_exfat : ¬ (read16 f 510 = MSDOS_MBR_SIGNATURE ∧ read64 f 3 = FSTYPE_EXFAT)
  not_fat32 : Jump f → ¬ (read16 f 510 = MSDOS_MBR_SIGNATURE ∧ read64 f 82 = FSTYPE_FAT32)

/-- The fields other than the number of FATs and the number of sectors are proper. -/
structure Proper : Prop where
  jump : Jump f
  size_pow : (sectorSize f).isPowerOfTwo
  size_le : 512 ≤ sectorSize f ∧ sectorSize f ≤ 4096
  cluster_pow : (secPerClus f).isPowerOfTwo
  reserved_ne : reserved f ≠ 0
  root_ne : dirEntries f ≠ 0
  length_ne : fatLength f ≠ 0

/-- The comments of identify: there are one or two FATs, and 128 sectors at least. -/
structure Described : Prop extends Proper f where
  fats : numFats f = 1 ∨ numFats f = 2
  count : 128 ≤ sectors f ∨ sectors f = 0 ∧ 0x10000 ≤ totalSect f

/-- The sectors in front of the first cluster. -/
def systemSectors : Nat :=
  reserved f + numFats f * fatLength f + (dirEntries f * 32 + sectorSize f - 1) / sectorSize f

def dataClusters : Nat := (sectorCount f - systemSectors f) / secPerClus f

variable {f}

theorem Described.sectorCount_le (h : Described f) : 128 ≤ sectorCount f := by
  rw [sectorCount]
  split
  · rcases h.count with h | h <;> omega
  · rcases h.count with h | h <;> omega

private theorem pow_iff {n : Nat} (h : n ≠ 0) : n &&& (n - 1) = 0 ↔ n.isPowerOfTwo :=
  Nat.and_sub_one_eq_zero_iff_isPowerOfTwo h

private theorem toNat16_ne {a : Nat} : read16 f a ≠ 0 ↔ (read16 f a).toNat ≠ 0 := by
  rw [Ne, Ne, ← UInt16.toNat_inj]
  rfl

theorem isFat_iff :
    Jump f ∧ isFat f = true ↔
      Proper f ∧ numFats f ≤ 2 ∧ (128 ≤ sectors f ∨ 0x10000 ≤ totalSect f) := by
  have hcode : isFat f = true ↔
      sectorSize f &&& (sectorSize f - 1) = 0 ∧ 512 ≤ sectorSize f ∧ sectorSize f ≤ 4096 ∧ secPerClus f ≠ 0 ∧
      secPerClus f &&& (secPerClus f - 1) = 0 ∧ reserved f ≠ 0 ∧ numFats f ≤ 2 ∧ dirEntries f ≠ 0 ∧
      (128 ≤ sectors f ∨ 0x10000 ≤ totalSect f) ∧ fatLength f ≠ 0 := by
    simp only [isFat, Bool.and_eq_true, beq_iff_eq, decide_eq_true_eq, bne_iff_ne, Bool.or_eq_true, and_assoc,
      toNat16_ne]
    rfl
  rw [hcode]
  constructor
  · rintro ⟨hjump, hw, hlo, hhi, hne, hc, hreserved, hfats, hroot, hcount, hlength⟩
    refine ⟨⟨hjump, ?_, ⟨hlo, hhi⟩, (pow_iff hne).mp hc, hreserved, hroot, hlength⟩, hfats, hcount⟩
    exact (pow_iff (by omega)).mp hw
  · rintro ⟨h, hfats, hcount⟩
    have hne : secPerClus f ≠ 0 := (Nat.pos_of_isPowerOfTwo h.cluster_pow).ne'
    exact ⟨h.jump, (pow_iff (by have := h.size_le; omega)).mpr h.size_pow, h.size_le.1, h.size_le.2, hne,
      (pow_iff hne).mpr h.cluster_pow, h.reserved_ne, hfats, h.root_ne, hcount, h.length_ne⟩

variable {b : Build} {types : PartitionTypes} {offset : Nat}

theorem identify_untyped (h : Untyped f) :
    identify b types f offset =
      if Jump f ∧ isFat f = true then
        some { PartInfo.new (getLabel (ByteStore.slice f 43 MSDOS_NAME)) types.dataFat offset (fatSize f) with
          systype := if b.storage (fatSize f) / (sectorSize f * secPerClus f) ≤ MAX_FAT12 then .fat12 else .fat16 }
      else none := by
  rw [identify, if_neg h.not_exfat]
  by_cases hjump : f 0 = 0xEB ∨ f 0 = 0xE9 ∨ f 0 = 0xE8
  · rw [if_pos hjump, if_neg (h.not_fat32 hjump)]
    by_cases hfat : isFat f = true
    · rw [if_pos hfat, if_pos ⟨hjump, hfat⟩]
      rfl
    · rw [if_neg hfat, if_neg fun hand => hfat hand.2]
  · rw [if_neg hjump, if_neg fun hand => hjump hand.1]

theorem identify_isSome (h : Untyped f) :
    (identify b types f offset).isSome ↔ Proper f ∧ numFats f ≤ 2 ∧ (128 ≤ sectors f ∨ 0x10000 ≤ totalSect f) := by
  rw [identify_untyped h, ← isFat_iff]
  split <;> simp_all

end BootSector

open BootSector

/-- identify accepts what its comments describe, unless the other fields are proper and there is no FAT,
or a 16-bit count below 128 in front of a 32-bit one that is large enough. -/
theorem identify_as_described_iff (b : Build) (types : PartitionTypes) (f : Nat → UInt8) (offset : Nat)
    (h : Untyped f) :
    ((identify b types f offset).isSome ↔ Described f) ∧ ((identify b types f offset).isSome → 128 ≤ sectorCount f) ↔
      ¬ (Proper f ∧ (numFats f = 0 ∧ (128 ≤ sectors f ∨ 0x10000 ≤ totalSect f) ∨
        numFats f ≤ 2 ∧ 0 < sectors f ∧ sectors f < 128 ∧ 0x10000 ≤ totalSect f)) := by
  rw [identify_isSome h]
  constructor
  · rintro ⟨hiff, -⟩ ⟨hproper, hbad⟩
    rcases hbad with ⟨hnone, hcount⟩ | ⟨hfats, hpos, hlt, htotal⟩
    · rcases (hiff.mp ⟨hproper, by omega, hcount⟩).fats with h | h <;> omega
    · rcases (hiff.mp ⟨hproper, hfats, Or.inr htotal⟩).count with h | h <;> omega
  · intro hgood
    have hiff : Proper f ∧ numFats f ≤ 2 ∧ (128 ≤ sectors f ∨ 0x10000 ≤ totalSect f) ↔ Described f := by
      constructor
      · rintro ⟨hproper, hfats, hcount⟩
        refine ⟨hproper, ?_, ?_⟩
        · have : numFats f ≠ 0 := fun h0 => hgood ⟨hproper, Or.inl ⟨h0, hcount⟩⟩
          omega
        · have : ¬ (0 < sectors f ∧ sectors f < 128 ∧ 0x10000 ≤ totalSect f) := fun hbad =>
            hgood ⟨hproper, Or.inr ⟨hfats, hbad⟩⟩
          omega
      · intro h
        refine ⟨h.toProper, ?_, ?_⟩
        · rcases h.fats with h | h <;> omega
        · rcases h.count with h | h <;> omega
    exact ⟨hiff, fun haccepted => (hiff.mp haccepted).sectorCount_le⟩

/-- The boot sector of a small volume with clusters of one sector, and FATs of twelve sectors. -/
def smallVolume (fats low high : UInt8) : Nat → UInt8 := fun i =>
  if i = 0 then 0xEB
  else if i = 12 then 2
  else if i = 13 ∨ i = 14 then 1
  else if i = 16 then fats
  else if i = 17 then 0xE0
  else if i = 19 then low
  else if i = 20 then high
  else if i = 22 then 12
  else 0

private theorem smallVolume_untyped (fats low high : UInt8) : Untyped (smallVolume fats low high) := by
  have hzero : read16 (smallVolume fats low high) 510 = 0 := rfl
  have hsignature : read16 (smallVolume fats low high) 510 ≠ MSDOS_MBR_SIGNATURE := by
    rw [hzero]
    decide
  exact ⟨fun h => hsignature h.1, fun _ h => hsignature h.1⟩

/-- With two FATs it is accepted. -/
theorem identify_as_described_two_fats :
    (identify ⟨true, true, true, 512⟩ ⟨0xff, 1, 2, 0xff⟩ (smallVolume 2 0xA0 0x0F) 0).isSome ∧
      Described (smallVolume 2 0xA0 0x0F) := by
  have hsome : (identify ⟨true, true, true, 512⟩ ⟨0xff, 1, 2, 0xff⟩ (smallVolume 2 0xA0 0x0F) 0).isSome := by
    decide +kernel
  refine ⟨hsome, ((identify_as_described_iff _ _ _ _ (smallVolume_untyped 2 0xA0 0x0F)).mpr ?_).1.mp hsome⟩
  rintro ⟨-, ⟨hnone, -⟩ | ⟨-, -, hlt, -⟩⟩
  · exact absurd hnone (by decide)
  · exact absurd hlt (by decide)

/-- And with none as well: `num_fats - 1` is -1 then. -/
theorem no_fat_accepted :
    ¬ ((identify ⟨true, true, true, 512⟩ ⟨0xff, 1, 2, 0xff⟩ (smallVolume 0 0xA0 0x0F) 0).isSome ↔
      Described (smallVolume 0 0xA0 0x0F)) := by
  intro h
  have hsome : (identify ⟨true, true, true, 512⟩ ⟨0xff, 1, 2, 0xff⟩ (smallVolume 0 0xA0 0x0F) 0).isSome := by
    decide +kernel
  rcases (h.mp hsome).fats with hone | htwo
  · exact absurd hone (by decide)
  · exact absurd htwo (by decide)

section FatType
variable {f : Nat → UInt8}

private theorem secPerClus_le (h : (secPerClus f).isPowerOfTwo) : secPerClus f ≤ 128 := by
  obtain ⟨k, hk⟩ := h
  have hlt : 2 ^ k < 2 ^ 8 := by
    rw [← hk]
    exact (f 13).toNat_lt
  have hle : k ≤ 7 := by
    have := (Nat.pow_lt_pow_iff_right (by decide : 1 < 2)).mp hlt
    omega
  rw [hk]
  exact Nat.pow_le_pow_right (by decide) hle

private theorem systemSectors_lt (h : Proper f) (hfats : numFats f ≤ 2) : systemSectors f < 0x32000 := by
  have hreserved : reserved f < 2 ^ 16 := (read16 f 14).toNat_lt
  have hlength : fatLength f < 2 ^ 16 := (read16 f 22).toNat_lt
  have hroot : dirEntries f < 2 ^ 16 := (read16 f 17).toNat_lt
  have hmul : numFats f * fatLength f ≤ 2 * fatLength f := Nat.mul_le_mul_right _ hfats
  have hdiv : (dirEntries f * 32 + sectorSize f - 1) / sectorSize f ≤ dirEntries f * 32 / 512 + 1 := by
    have hle := h.size_le.1
    calc (dirEntries f * 32 + sectorSize f - 1) / sectorSize f
        ≤ (dirEntries f * 32 + sectorSize f) / sectorSize f := Nat.div_le_div_right (Nat.sub_le _ _)
      _ = dirEntries f * 32 / sectorSize f + 1 := Nat.add_div_right _ (by omega)
      _ ≤ dirEntries f * 32 / 512 + 1 := Nat.succ_le_succ (Nat.div_le_div_left hle (by decide))
  rw [systemSectors]
  omega

private theorem fatSize_eq (f : Nat → UInt8) : fatSize f = sectorCount f * sectorSize f % 2 ^ 32 := rfl

end FatType

/-- A volume is classified by its data clusters exactly when the sectors in front of them make no
difference, or the byte size wraps and has still too many clusters for FAT12. -/
theorem fat_type_by_data_clusters_iff (b : Build) (types : PartitionTypes) (f : Nat → UInt8) (offset : Nat)
    (part : PartInfo b) (h : Untyped f) (hpart : identify b types f offset = some part)
    (hfits : systemSectors f ≤ sectorCount f) :
    (part.systype = .fat12 ↔ dataClusters f ≤ MAX_FAT12) ↔
      if sectorCount f * sectorSize f < 2 ^ 32 then
        ¬ (sectorCount f - systemSectors f < (MAX_FAT12 + 1) * secPerClus f ∧
          (MAX_FAT12 + 1) * secPerClus f ≤ sectorCount f)
      else (MAX_FAT12 + 1) * secPerClus f * sectorSize f ≤ sectorCount f * sectorSize f % 2 ^ 32 := by
  obtain ⟨hproper, hfats, _⟩ := (identify_isSome h).mp (Option.isSome_of_eq_some hpart)
  have hclus : 0 < secPerClus f := Nat.pos_of_isPowerOfTwo hproper.cluster_pow
  have hsize : 0 < sectorSize f := Nat.lt_of_lt_of_le (by decide) hproper.size_le.1
  have hdata : dataClusters f ≤ MAX_FAT12 ↔ sectorCount f - systemSectors f < (MAX_FAT12 + 1) * secPerClus f := by
    rw [dataClusters, ← Nat.lt_succ_iff]
    exact Nat.div_lt_iff_lt_mul hclus
  have htype : part.systype = .fat12 ↔
      sectorCount f * sectorSize f % 2 ^ 32 < (MAX_FAT12 + 1) * secPerClus f * sectorSize f := by
    rw [identify_untyped h, fatSize_eq, Build.storage_of_lt_word (Nat.mod_lt _ (by decide))] at hpart
    split at hpart
    · cases hpart
      rw [Nat.mul_assoc, Nat.mul_comm (secPerClus f), ← Nat.div_lt_iff_lt_mul (Nat.mul_pos hsize hclus)]
      dsimp only
      rw [Nat.lt_succ_iff]
      split <;> simp_all
    · cases hpart
  rw [htype, hdata]
  split
  · rename_i hlt
    rw [Nat.mod_eq_of_lt hlt, Nat.mul_lt_mul_right hsize]
    omega
  · rename_i hge
    -- so many sectors that those in front of the clusters do not matter
    have hcount : 2 ^ 20 ≤ sectorCount f := by
      have := Nat.mul_le_mul_left (sectorCount f) hproper.size_le.2
      omega
    have hsystem := systemSectors_lt hproper hfats
    have hlimit : (MAX_FAT12 + 1) * secPerClus f ≤ (MAX_FAT12 + 1) * 128 :=
      Nat.mul_le_mul_left _ (secPerClus_le hproper.cluster_pow)
    rw [MAX_FAT12] at hlimit
    rw [MAX_FAT12]
    omega

/-- 4000 sectors make FAT12 in any case. -/
theorem fat_type_by_data_clusters_small : ∃ part, identify ⟨true, true, true, 512⟩ ⟨0xff, 1, 2, 0xff⟩
      (smallVolume 2 0xA0 0x0F) 0 = some part ∧
    (part.systype = .fat12 ↔ dataClusters (smallVolume 2 0xA0 0x0F) ≤ MAX_FAT12) := by
  have hsome : (identify ⟨true, true, true, 512⟩ ⟨0xff, 1, 2, 0xff⟩ (smallVolume 2 0xA0 0x0F) 0).isSome := by
    decide +kernel
  obtain ⟨part, hpart⟩ := Option.isSome_iff_exists.mp hsome
  refine ⟨part, hpart, (fat_type_by_data_clusters_iff _ _ _ _ part (smallVolume_untyped 2 0xA0 0x0F) hpart ?_).mpr ?_⟩
  · decide +kernel
  · decide +kernel

/-- 4090 sectors have 4051 clusters, and are taken for FAT16. -/
theorem fat12_taken_for_fat16 : ∃ part, identify ⟨true, true, true, 512⟩ ⟨0xff, 1, 2, 0xff⟩
      (smallVolume 2 0xFA 0x0F) 0 = some part ∧
    ¬ (part.systype = .fat12 ↔ dataClusters (smallVolume 2 0xFA 0x0F) ≤ MAX_FAT12) := by
  have hmap : (identify ⟨true, true, true, 512⟩ ⟨0xff, 1, 2, 0xff⟩ (smallVolume 2 0xFA 0x0F) 0).map PartInfo.systype =
      some .fat16 := by
    decide +kernel
  obtain ⟨part, hpart, htype⟩ := Option.map_eq_some_iff.mp hmap
  refine ⟨part, hpart, fun h => ?_⟩
  rw [htype] at h
  exact absurd (h.mpr (by decide +kernel)) (by decide)

end DiskStorage
