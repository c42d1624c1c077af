import DiskStorage.Format.Mbr
import DiskStorage.Scanner.Sectors
import DiskStorage.Validate.Gaps
import DiskStorage.Validate.Labels
import Mathlib.Algebra.Order.Ring.Nat
import Mathlib.Data.Nat.Prime.Basic

/-! The unit in which the records of an MBR count sectors. -/
namespace DiskStorage
open ByteStore LittleEndian

namespace MBR
variable {b : Build} {l : Layout} {part : PartInfo b}

theorem eq_zero_of_shift_eq {q j w : Nat} (hq : 0 < q) (hlt : q < 2 ^ w) (h : q * 2 ^ j % 2 ^ w = q) : j = 0 := by
  by_contra hj
  have hodd : Nat.Coprime (2 ^ w) (2 ^ j - 1) := by
    apply Nat.Coprime.pow_left
    rw [Nat.coprime_two_left]
    exact Nat.Even.sub_odd Nat.one_le_two_pow (Nat.even_pow.mpr ⟨even_two, hj⟩) odd_one
  have hmod : q * 2 ^ j % 2 ^ w = q % 2 ^ w := h.trans (Nat.mod_eq_of_lt hlt).symm
  have hdvd : 2 ^ w ∣ q * (2 ^ j - 1) := by
    rw [Nat.mul_sub, Nat.mul_one]
    exact Nat.dvd_of_mod_eq_zero (Nat.sub_mod_eq_zero_of_mod_eq hmod)
  have hle := Nat.le_of_dvd hq (hodd.dvd_of_dvd_mul_right hdvd)
  omega

/-- A record has the start and the size of its partition in sectors of this size. -/
def InUnit (unit : Nat) (part : PartInfo b) (rec : MbrRecord) : Prop :=
  rec.startingLba.toNat * unit = part.offset ∧ rec.sizeInLba.toNat * unit = part.size

private theorem inUnit_iff {j : Nat} (hoffset : 2 ^ j ∣ part.offset) (hsize : 2 ^ j ∣ part.size)
    (hne : part.offset ≠ 0) : InUnit (2 ^ j) part (recordOf l part) ↔
      j = l.shift ∧ part.offset < 2 ^ 32 * 2 ^ j ∧ part.size < 2 ^ 32 * 2 ^ j := by
  have hdiv : ∀ {n}, n < 2 ^ 32 * 2 ^ j → n / 2 ^ j < 2 ^ 32 := fun hn =>
    (Nat.div_lt_iff_lt_mul (Nat.two_pow_pos j)).mpr hn
  constructor
  · rintro ⟨hstart, hcount⟩
    have hlt := (recordOf l part).startingLba.toNat_lt
    have hlt' := (recordOf l part).sizeInLba.toNat_lt
    have hsect : (recordOf l part).startingLba.toNat = part.offset / 2 ^ l.shift % 2 ^ 32 := UInt32.toNat_ofNat'
    have hpos : 0 < (recordOf l part).startingLba.toNat := by
      apply Nat.pos_of_ne_zero
      intro hzero
      apply hne
      rw [← hstart, hzero, Nat.zero_mul]
    refine ⟨?_, ?_, ?_⟩
    · generalize (recordOf l part).startingLba.toNat = q at *
      -- the start in sectors of the other size, before it is cut to 32 bits
      rcases Nat.lt_or_ge j l.shift with hbelow | hge
      · have hle : q * 2 ^ l.shift ≤ q * 2 ^ j := by
          rw [hstart]
          refine (Nat.mul_le_mul_right _ ?_).trans (Nat.div_mul_le_self part.offset (2 ^ l.shift))
          rw [hsect]
          exact Nat.mod_le _ _
        exact absurd (Nat.le_of_mul_le_mul_left hle hpos) (Nat.not_le.mpr (Nat.pow_lt_pow_right (by decide) hbelow))
      · obtain ⟨i, rfl⟩ := Nat.exists_eq_add_of_le hge
        rw [← hstart, Nat.pow_add, Nat.mul_comm (2 ^ l.shift), ← Nat.mul_assoc,
          Nat.mul_div_cancel _ (Nat.two_pow_pos _)] at hsect
        rw [eq_zero_of_shift_eq hpos hlt hsect.symm, Nat.add_zero]
    · rw [← hstart]
      exact Nat.mul_lt_mul_of_pos_right hlt (Nat.two_pow_pos j)
    · rw [← hcount]
      exact Nat.mul_lt_mul_of_pos_right hlt' (Nat.two_pow_pos j)
  · rintro ⟨rfl, hlt, hlt'⟩
    exact ⟨recordOf_startingLba hoffset (hdiv hlt), recordOf_sizeInLba hsize (hdiv hlt')⟩

theorem mbrRecord_written (buffer : Nat → UInt8) {table : List (PartInfo b)} (hsize : 512 ≤ l.sectorSize)
    (hlen : table.length ≤ 4) {k : Nat} (hk : k < table.length) :
    mbrRecord (patch (fun _ => 0) 0 (slice (bootRecord l buffer table) 0 l.sectorSize)) k = recordOf l table[k] := by
  rw [mbrRecord_congr (fun j hj => ?_) (by omega), mbrRecord_bootRecord buffer hlen hk]
  rw [patch_slice _ _ _ (by omega), Nat.zero_add]

/-- On success formatDisk writes one boot record. Its record of a partition made of whole sectors counts
in sectors of the device exactly when those are of DISK_MAX_SECTOR_SIZE, and 32 bits can count them. -/
theorem records_in_device_unit_iff {σ : Type} [Device σ] (workBuffer : Option (Nat → UInt8)) (device : σ)
    (pt table : List (PartInfo b)) (result : Formatted b σ) (m k : Nat) (hmax : b.maxSectorSize = 2 ^ m) (hmin : 9 ≤ m)
    (hunit : Device.getSectorSize device = 2 ^ k) (hformat : formatDisk workBuffer device pt table = some result)
    (hok : result.err = .success) :
    ∃ bytes d', Device.write device 0 bytes = (true, d') ∧ Device.sync d' = (true, result.device) ∧
      ∀ i part, result.partitions[i]? = some part → Device.getSectorSize device ∣ part.offset →
        Device.getSectorSize device ∣ part.size →
        (InUnit (Device.getSectorSize device) part (mbrRecord (patch (fun _ => 0) 0 bytes) i) ↔
          Device.getSectorSize device = b.maxSectorSize ∧
            part.offset < 2 ^ 32 * Device.getSectorSize device ∧ part.size < 2 ^ 32 * Device.getSectorSize device) := by
  obtain ⟨buffer, d', _, hcount, _, hvalidate, hwrite, hsync, _⟩ := formatDisk_success hformat hok
  have hlen := Available.validate_length hvalidate
  refine ⟨_, d', hwrite, hsync, fun i part hpart hoffset hsize => ?_⟩
  obtain ⟨hi, rfl⟩ := List.getElem?_eq_some_iff.mp hpart
  -- validate takes no blocks of size zero, so the sector size has kept its 16 bits
  have hsector : (Layout.of b device).sectorSize = 2 ^ m := by
    obtain ⟨_, _, _, _, hreaches, _⟩ := Available.validate_success hvalidate
    have hblock : b.maxSectorSize % 2 ^ 16 % 2 ^ 32 ≠ 0 := hreaches.block
    have hm : m < 16 := by
      apply Nat.lt_of_not_le
      intro hle
      apply hblock
      rw [hmax, Nat.mod_eq_zero_of_dvd (Nat.pow_dvd_pow 2 hle), Nat.zero_mod]
    rw [Layout.of, sectorSize, hmax]
    exact Nat.mod_eq_of_lt (Nat.pow_lt_pow_right (by decide) hm)
  have hshift : (Layout.of b device).shift = m := by
    rw [Layout.shift, hsector]
    exact Nat.log2_two_pow
  have h512 : 512 ≤ 2 ^ m := Nat.pow_le_pow_right (n := 2) (by decide) hmin
  have hrecord : mbrRecord (patch (fun _ => 0) 0 (slice (bootRecord (Layout.of b device) buffer result.partitions) 0
      (Layout.of b device).sectorSize)) i = recordOf (Layout.of b device) result.partitions[i] :=
    mbrRecord_written buffer (h512.trans hsector.ge) (hlen ▸ hcount) hi
  rw [hunit] at hoffset hsize
  have hne := Available.validate_offset_ne_zero hvalidate _ (List.getElem_mem hi)
  have hsame : k = (Layout.of b device).shift ↔ 2 ^ k = b.maxSectorSize := by
    rw [hmax, hshift, Nat.pow_right_inj (le_refl 2)]
  rw [hunit, hrecord, inUnit_iff hoffset hsize hne, hsame]

/-- A disk with 512-byte sectors in a build for these. -/
theorem records_in_device_unit_iff_four_mib : ∃ result,
    formatDisk (b := ⟨true, true, true, 512⟩) (some fun _ => 0) (⟨fun _ => 0, 512, 8192⟩ : RamDisk) []
        [PartInfo.new [] ⟨1, 0⟩ 0 50] = some result ∧
      ∃ bytes d', Device.write (⟨fun _ => 0, 512, 8192⟩ : RamDisk) 0 bytes = (true, d') ∧
        Device.sync d' = (true, result.device) ∧
        ∀ i part, result.partitions[i]? = some part → 512 ∣ part.offset → 512 ∣ part.size →
          (InUnit 512 part (mbrRecord (patch (fun _ => 0) 0 bytes) i) ↔
            512 = 512 ∧ part.offset < 2 ^ 32 * 512 ∧ part.size < 2 ^ 32 * 512) := by
  have hmap : (formatDisk (b := ⟨true, true, true, 512⟩) (some fun _ => 0) (⟨fun _ => 0, 512, 8192⟩ : RamDisk) []
      [PartInfo.new [] ⟨1, 0⟩ 0 50]).map Formatted.err = some .success := by decide +kernel
  obtain ⟨result, hformat, hok⟩ := Option.map_eq_some_iff.mp hmap
  exact ⟨result, hformat, records_in_device_unit_iff _ _ _ _ result 9 9 rfl (le_refl 9) rfl hformat hok⟩

/-- In a build for 4096-byte sectors half of a disk with 512-byte sectors starts at 1 MiB, which the
record gives as sector 256. -/
theorem records_in_larger_unit : ∃ (result : Formatted ⟨true, true, true, 4096⟩ RamDisk) (part : PartInfo _),
    formatDisk (some fun _ => 0) (⟨fun _ => 0, 512, 131072⟩ : RamDisk) [] [PartInfo.new [] ⟨1, 0⟩ 0 50] = some result ∧
      result.err = .success ∧ result.partitions[0]? = some part ∧ 512 ∣ part.offset ∧ 512 ∣ part.size ∧
      ¬ InUnit 512 part (mbrRecord (LawfulDevice.medium result.device) 0) := by
  have hmap : (formatDisk (b := ⟨true, true, true, 4096⟩) (some fun _ => 0) (⟨fun _ => 0, 512, 131072⟩ : RamDisk) []
      [PartInfo.new [] ⟨1, 0⟩ 0 50]).map (fun r => (r.err, (r.partitions[0]?).map (fun p => (p.offset, p.size)),
        (mbrRecord (LawfulDevice.medium r.device) 0).startingLba)) =
      some (.success, some (0x100000, 0x10000000), 256) := by decide +kernel
  obtain ⟨result, hformat, heq⟩ := Option.map_eq_some_iff.mp hmap
  obtain ⟨part, hpart, hextent⟩ := Option.map_eq_some_iff.mp (congrArg (fun r => r.2.1) heq)
  obtain ⟨hoffset, hsize⟩ := Prod.mk.inj hextent
  have hstart : (mbrRecord (LawfulDevice.medium result.device) 0).startingLba = 256 := congrArg (fun r => r.2.2) heq
  refine ⟨result, part, hformat, congrArg Prod.fst heq, hpart, by rw [hoffset]; decide, by rw [hsize]; decide, ?_⟩
  rintro ⟨hunit, _⟩
  rw [hstart, hoffset] at hunit
  exact absurd hunit (by decide)

end MBR

end DiskStorage
