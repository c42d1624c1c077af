import DiskStorage.Format.Mbr
import DiskStorage.Validate.Labels

/-! What a call of formatDisk that returns an error leaves of the device and of the table. -/
namespace DiskStorage

variable {b : Build} {σ : Type} {device : σ} {pt table : List (PartInfo b)} {result : Formatted b σ}
  {range : Option (Available b)}

/-- The device's partitions are kept, only a failed write touches the medium, and the table is as it was, or
as validate has resolved it for the range that is given to it. -/
structure KeptOnError (range : Option (Available b)) (device : σ) (pt table : List (PartInfo b))
    (result : Formatted b σ) : Prop where
  partitions_eq : result.partitions = pt
  device_eq : result.err ≠ .writeFailure → result.device = device
  entries : result.table = table ∨ ∃ a, range = some a ∧ a.Resolved table result.table
  unchanged : result.err = .badParam → result.table = table
  offsets : result.err = .misAligned ∨ result.err = .outOfRange →
    result.table.map PartInfo.offset = table.map PartInfo.offset

private theorem kept_at_start (err : Error) : KeptOnError range device pt table ⟨err, device, pt, table⟩ where
  partitions_eq := rfl
  device_eq _ := rfl
  entries := .inl rfl
  unchanged _ := rfl
  offsets _ := rfl

private theorem kept_by_validate {a : Available b} {err : Error} {table' : List (PartInfo b)}
    (hrange : range = some a) (h : validate a table = some (.returned err table')) :
    KeptOnError range device pt table ⟨err, device, pt, table'⟩ where
  partitions_eq := rfl
  device_eq _ := rfl
  entries := .inr ⟨a, hrange, (Available.validate_resolves h).1⟩
  unchanged := (Available.validate_resolves h).2.2.1
  offsets := (Available.validate_resolves h).2.2.2

private theorem kept_behind_validate {a : Available b} {err : Error} {table' : List (PartInfo b)} {device' : σ}
    (hrange : range = some a) (h : validate a table = some (.returned .success table'))
    (herr : err = .writeFailure ∨ err = .noMem ∧ device' = device) :
    KeptOnError range device pt table ⟨err, device', pt, table'⟩ where
  partitions_eq := rfl
  device_eq hne := by
    rcases herr with rfl | ⟨_, rfl⟩
    · exact absurd rfl hne
    · rfl
  entries := .inr ⟨a, hrange, (Available.validate_resolves h).1⟩
  unchanged hbad := by rcases herr with rfl | ⟨rfl, _⟩ <;> cases hbad
  offsets hoff := by rcases herr with rfl | ⟨rfl, _⟩ <;> rcases hoff with hoff | hoff <;> cases hoff

namespace GPT

variable [Device σ]

/-- The range that formatDisk gives to validate, if the sector size of the device is supported. -/
def rangeOf (b : Build) (device : σ) : Option (Available b) :=
  (chooseSectorSize b device).map fun sectorSize => (layoutOf b device sectorSize).available

private theorem formatDisk_kept {env : FormatEnv} {diskGuid : Uuid}
    (h : formatDisk env device pt table diskGuid = some result) (herr : result.err ≠ .success) :
    KeptOnError (rangeOf b device) device pt table result ∧ (result.err = .noMem → result.table = table) := by
  rw [formatDisk] at h
  split at h
  · cases h
    exact ⟨kept_at_start _, fun _ => rfl⟩
  · split at h
    · cases h
      exact ⟨kept_at_start _, fun _ => rfl⟩
    · rename_i sectorSize hsize
      have hrange : rangeOf b device = some (layoutOf b device sectorSize).available := by
        rw [rangeOf, hsize]
        rfl
      split at h
      · cases h
        exact ⟨kept_at_start _, fun _ => rfl⟩
      · dsimp only at h
        split at h
        · cases h
        · cases h
        · rename_i err table' hvalidate
          split at h
          · rename_i hok
            rw [hok] at hvalidate
            split at h
            · cases h
              exact ⟨kept_behind_validate hrange hvalidate (Or.inl rfl), fun hmem => by cases hmem⟩
            · cases h
              exact absurd rfl herr
          · cases h
            refine ⟨kept_by_validate hrange hvalidate, fun hmem => ?_⟩
            obtain rfl : err = .noMem := hmem
            rcases (Available.validate_resolves hvalidate).2.1 with h | h | h | h | h <;> cases h

end GPT

namespace MBR
variable [Device σ]

private theorem formatDisk_kept {workBuffer : Option (Nat → UInt8)}
    (h : formatDisk workBuffer device pt table = some result)
    (herr : result.err ≠ .success) :
    KeptOnError (some ((Layout.of b device).available b)) device pt table result := by
  rw [formatDisk] at h
  split at h
  · cases h
    exact kept_at_start _
  · dsimp only at h
    split at h
    · cases h
    · cases h
    · rename_i err table' hvalidate
      split at h
      · rename_i hok
        rw [hok] at hvalidate
        split at h
        · cases h
          exact kept_behind_validate rfl hvalidate (Or.inr ⟨rfl, rfl⟩)
        · split at h
          · cases h
            exact kept_behind_validate rfl hvalidate (Or.inl rfl)
          · split at h
            · cases h
              exact kept_behind_validate rfl hvalidate (Or.inl rfl)
            · cases h
              exact absurd rfl herr
      · cases h
        exact kept_by_validate rfl hvalidate

end MBR

/-- When formatDisk returns an error, the table still has its entries, resolved at most: sizes are those that
the entries ask for, and offsets ends of other entries. -/
theorem formatDisk_error_keeps [Device σ] (device : σ) (pt table : List (PartInfo b)) (result : Formatted b σ)
    (herr : result.err ≠ .success) :
    (∀ env diskGuid, GPT.formatDisk env device pt table diskGuid = some result →
      KeptOnError (GPT.rangeOf b device) device pt table result ∧ (result.err = .noMem → result.table = table)) ∧
    ∀ workBuffer, MBR.formatDisk workBuffer device pt table = some result →
      KeptOnError (some ((MBR.Layout.of b device).available b)) device pt table result :=
  ⟨fun _ _ h => GPT.formatDisk_kept h herr, fun _ h => MBR.formatDisk_kept h herr⟩

/-- Half of the disk, and a partition that is not aligned. -/
def misalignedTable : List (PartInfo ⟨true, true, true, 512⟩) :=
  [PartInfo.new [] ⟨1, 0⟩ 0 50, PartInfo.new [] ⟨1, 0⟩ 0x100200 0x100000]

theorem formatDisk_error_keeps_misaligned : ∃ result,
    MBR.formatDisk none (⟨fun _ => 0, 512, 8192⟩ : RamDisk) [] misalignedTable = some result ∧
      KeptOnError (some ((⟨512, 8192⟩ : MBR.Layout).available _)) (⟨fun _ => 0, 512, 8192⟩ : RamDisk) []
        misalignedTable result := by
  have hmap : (MBR.formatDisk none (⟨fun _ => 0, 512, 8192⟩ : RamDisk) [] misalignedTable).map Formatted.err =
      some .misAligned := by decide +kernel
  obtain ⟨result, hformat, herr⟩ := Option.map_eq_some_iff.mp hmap
  refine ⟨result, hformat, (formatDisk_error_keeps _ _ _ result ?_).2 none hformat⟩
  rw [herr]
  decide

/-- The error is found when the percentage of the first entry has already become a size. -/
theorem percentage_replaced_on_error : ∃ result,
    MBR.formatDisk none (⟨fun _ => 0, 512, 8192⟩ : RamDisk) [] misalignedTable = some result ∧
      result.err = .misAligned ∧ misalignedTable.map PartInfo.size = [50, 0x100000] ∧
      result.table.map PartInfo.size = [0x200000, 0x100000] := by
  have hmap : (MBR.formatDisk none (⟨fun _ => 0, 512, 8192⟩ : RamDisk) [] misalignedTable).map
      (fun r => (r.err, r.table.map PartInfo.size)) = some (.misAligned, [0x200000, 0x100000]) := by decide +kernel
  obtain ⟨result, hformat, heq⟩ := Option.map_eq_some_iff.mp hmap
  exact ⟨result, hformat, congrArg Prod.fst heq, by decide, congrArg Prod.snd heq⟩

end DiskStorage
