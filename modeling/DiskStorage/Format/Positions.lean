import DiskStorage.Format.Devices
import DiskStorage.Validate.Order

/-! The entries on the medium in order of position. -/
namespace DiskStorage
open ByteStore

variable {b : Build}

namespace GPT

/-- The first `n` entries of the array on the medium start one behind the other. -/
def EntriesOrdered (f : Nat → UInt8) (sectorSize n : Nat) : Prop :=
  ∀ i j, i < j → j < n → (GptEntry.decode f (2 * sectorSize + i * GPT_ENTRY_SIZE)).startingLba ≤
    (GptEntry.decode f (2 * sectorSize + j * GPT_ENTRY_SIZE)).startingLba

theorem Partitioned.entriesOrdered {l : Layout b} {diskGuid : Uuid} {parts : List (PartInfo b)} {f : Nat → UInt8}
    (h : Partitioned l diskGuid parts f) (hord : Ordered parts) :
    EntriesOrdered f l.sectorSize (min GPT_ITEMS parts.length) := by
  intro i j hij hj
  have hj' : j < parts.length := by omega
  have hi' : i < parts.length := by omega
  have hstart : ∀ part : PartInfo b, (entryOf l.shift part).startingLba.toNat = part.offset / 2 ^ l.shift := fun part =>
    UInt64.toNat_ofNat_of_lt' (Nat.lt_of_le_of_lt (Nat.div_le_self _ _) (Build.lt_u64 part.offset_lt))
  rw [h.decode_entry (by omega) (List.getElem?_eq_getElem hi'),
    h.decode_entry (by omega) (List.getElem?_eq_getElem hj'), UInt64.le_iff_toNat_le, hstart, hstart]
  exact Nat.div_le_div_right (List.pairwise_iff_getElem.mp hord i j hi' hj' hij)

end GPT

/-- A table that validate accepts is ordered by position exactly when the entries with offsets are in
order in it, and each entry without one finds room between its neighbours: validate itself sorts but a
list of pointers. Then the entries that formatDisk writes are in order too. -/
theorem partitions_ordered_iff (a : Available b) (table table' : List (PartInfo b))
    (h : validate a table = some (.returned .success table')) :
    (Ordered table' ↔ a.LaysInOrder table) ∧
      ∀ {σ : Type} [LawfulDevice σ] (env : FormatEnv) (device : σ) (pt : List (PartInfo b)) (diskGuid : Uuid)
        (result : Formatted b σ), LawfulDevice.Ready device → GPT.Suitable b device →
        a = (GPT.layoutOf b device (Device.getSectorSize device)).available →
        GPT.formatDisk env device pt table diskGuid = some result → result.err = .success → a.LaysInOrder table →
          GPT.EntriesOrdered (LawfulDevice.medium result.device) (Device.getSectorSize device)
          (min GPT_ITEMS table.length) := by
  refine ⟨Available.ordered_iff_laysInOrder h, ?_⟩
  intro σ _ env device pt diskGuid result hready hdevice ha hformat hok hlays
  obtain ⟨hl, hvalidate, guid, hparts⟩ := hdevice.formatted hready hformat hok
  rw [ha, GPT.layoutOf, hdevice.count_eq] at hlays
  have hord := (Available.ordered_iff_laysInOrder hvalidate).mpr hlays
  rw [← Available.validate_length hvalidate]
  exact hparts.entriesOrdered hord

/-- Two halves of 100 MiB, both to be placed. -/
theorem partitions_ordered_two_halves : (Available.of ⟨true, true, true, 512⟩ 2048 204800 512).LaysInOrder
    [PartInfo.new [] ⟨0, 0⟩ 0 50, PartInfo.new [] ⟨0, 0⟩ 0 50] := by
  have hr : (Available.of ⟨true, true, true, 512⟩ 2048 204800 512).Reaches
      [PartInfo.new [] ⟨0, 0⟩ 0 50, PartInfo.new [] ⟨0, 0⟩ 0 50]
      [PartInfo.new [] ⟨0, 0⟩ 0 0x3200000, PartInfo.new [] ⟨0, 0⟩ 0 0x3200000] 204800 :=
    ⟨by decide, by decide, rfl, by decide⟩
  have hassign : (Available.of ⟨true, true, true, 512⟩ 2048 204800 512).assignLoop 3
      (sortList [(PartInfo.new [] ⟨0, 0⟩ 0 0x3200000, 0), (PartInfo.new [] ⟨0, 0⟩ 0 0x3200000, 1)]) =
    some (none, [(PartInfo.new [] ⟨0, 0⟩ 0x100000 0x3200000, 0),
      (PartInfo.new [] ⟨0, 0⟩ 0x3300000 0x3200000, 1)]) := rfl
  refine (partitions_ordered_iff _ _
    [PartInfo.new [] ⟨0, 0⟩ 0x100000 0x3200000, PartInfo.new [] ⟨0, 0⟩ 0x3300000 0x3200000] ?_).1.mp ?_
  · exact hr.accepted hassign rfl (by decide)
  · exact List.pairwise_pair.mpr (by decide)

/-- A quarter to be placed in front of one that is fixed at 1 MiB comes to lie behind it. -/
theorem floating_before_fixed_out_of_order :
    ¬ ∀ table', validate (Available.of ⟨true, true, true, 512⟩ 2048 204800 512)
        [PartInfo.new [] ⟨0, 0⟩ 0 25, PartInfo.new [] ⟨0, 0⟩ 0x100000 25] = some (.returned .success table') →
      Ordered table' := by
  intro hclaim
  have hr : (Available.of ⟨true, true, true, 512⟩ 2048 204800 512).Reaches
      [PartInfo.new [] ⟨0, 0⟩ 0 25, PartInfo.new [] ⟨0, 0⟩ 0x100000 25]
      [PartInfo.new [] ⟨0, 0⟩ 0 0x1900000, PartInfo.new [] ⟨0, 0⟩ 0x100000 0x1900000] 102400 :=
    ⟨by decide, by decide, rfl, by decide⟩
  have hassign : (Available.of ⟨true, true, true, 512⟩ 2048 204800 512).assignLoop 3
      (sortList [(PartInfo.new [] ⟨0, 0⟩ 0 0x1900000, 0), (PartInfo.new [] ⟨0, 0⟩ 0x100000 0x1900000, 1)]) =
    some (none, [(PartInfo.new [] ⟨0, 0⟩ 0x100000 0x1900000, 1),
      (PartInfo.new [] ⟨0, 0⟩ 0x1a00000 0x1900000, 0)]) := rfl
  have hord := hclaim [PartInfo.new [] ⟨0, 0⟩ 0x1a00000 0x1900000, PartInfo.new [] ⟨0, 0⟩ 0x100000 0x1900000]
    (hr.accepted hassign rfl (by decide))
  exact absurd (List.pairwise_pair.mp hord) (by decide)

end DiskStorage
