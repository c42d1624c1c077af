import DiskStorage.Format.Gpt

/-! Partitioning a device in MBR format. -/
namespace DiskStorage
open ByteStore LittleEndian

namespace MBR

/-- `sectorSize`. FF_MAX_SS and FF_MIN_SS are defined nowhere, so the preprocessor finds them equal. -/
def sectorSize (b : Build) : Nat := b.maxSectorSize % 2 ^ 16

/-- The sectors of a device as formatDisk divides them. -/
structure Layout where
  sectorSize : Nat
  numDeviceSectors : Nat

namespace Layout

def of (b : Build) {σ : Type} [Device σ] (device : σ) : Layout :=
  ⟨MBR.sectorSize b, Device.getSectorCount device % 2 ^ 32⟩

variable (l : Layout)

def shift : Nat := getSizeBits l.sectorSize

def firstAllocatableSector : Nat := PARTITION_ALIGN / 2 ^ l.shift

def allocatableSectors : Nat := (l.numDeviceSectors + (2 ^ 32 - l.firstAllocatableSector)) % 2 ^ 32

/-- The values that `numHeads *= 2` goes through in a `uint8_t` before it is zero, and 255 when it is. -/
def numHeads : Nat :=
  ([8, 16, 32, 64, 128].find? fun numHeads => l.numDeviceSectors / (numHeads * N_SEC_TRACK) ≤ 1024).getD 255

/-- The range that formatDisk gives to validate. -/
def available (b : Build) : Available b :=
  Available.of b l.firstAllocatableSector l.allocatableSectors l.sectorSize

end Layout

structure CHS where
  head : UInt8
  sector : UInt8
  track : UInt8

def calcCHS (numHeads : Nat) (sect : UInt32) : CHS :=
  let tracks := sect.toNat / N_SEC_TRACK
  let cyl := tracks / numHeads
  { head := .ofNat (tracks % numHeads)
    sector := .ofNat (1 + sect.toNat % N_SEC_TRACK) ||| .ofNat (cyl / 4 &&& 0xC0)
    track := .ofNat cyl }

/-- The record for a partition. -/
def recordOf {b : Build} (l : Layout) (part : PartInfo b) : MbrRecord :=
  let sect : UInt32 := .ofNat (part.offset / 2 ^ l.shift)
  let numsect : UInt32 := .ofNat (part.size / 2 ^ l.shift)
  let first := calcCHS l.numHeads sect
  let last := calcCHS l.numHeads (sect + numsect - 1)
  { bootIndicator := 0
    startHead := first.head
    startSector := first.sector
    startTrack := first.track
    osType := .ofNat part.sysind
    endHead := last.head
    endSector := last.sector
    endTrack := last.track
    startingLba := sect
    sizeInLba := numsect }

theorem recordOf_startingLba {b : Build} {l : Layout} {part : PartInfo b} (hdvd : 2 ^ l.shift ∣ part.offset)
    (hlt : part.offset / 2 ^ l.shift < 2 ^ 32) : (recordOf l part).startingLba.toNat * 2 ^ l.shift = part.offset := by
  have hsect : (recordOf l part).startingLba.toNat = part.offset / 2 ^ l.shift := UInt32.toNat_ofNat_of_lt' hlt
  rw [hsect, Nat.div_mul_cancel hdvd]

theorem recordOf_sizeInLba {b : Build} {l : Layout} {part : PartInfo b} (hdvd : 2 ^ l.shift ∣ part.size)
    (hlt : part.size / 2 ^ l.shift < 2 ^ 32) : (recordOf l part).sizeInLba.toNat * 2 ^ l.shift = part.size := by
  have hsect : (recordOf l part).sizeInLba.toNat = part.size / 2 ^ l.shift := UInt32.toNat_ofNat_of_lt' hlt
  rw [hsect, Nat.div_mul_cancel hdvd]

/-- The loop over the partitions, from the one with this index on. -/
def recordLoop {b : Build} (l : Layout) : Nat → (Nat → UInt8) → List (PartInfo b) → Nat → UInt8
  | _, buffer, [] => buffer
  | partIndex, buffer, part :: rest =>
    recordLoop l (partIndex + 1)
      (patch buffer (MBR_RECORDS + partIndex * MBR_RECORD_SIZE) (recordOf l part).encode) rest

/-- `mbr`, in a cleared working buffer. -/
def bootRecord {b : Build} (l : Layout) (buffer : Nat → UInt8) (table : List (PartInfo b)) : Nat → UInt8 :=
  patch (recordLoop l 0 (patch buffer 0 (List.replicate l.sectorSize 0)) table) MBR_SIGNATURE (le16 MSDOS_MBR_SIGNATURE)

/-- Create partitions in MBR format. The whole is `none` when validate does not return; the working
buffer is `none` when it cannot be allocated. -/
def formatDisk {b : Build} {σ : Type} [Device σ] (workBuffer : Option (Nat → UInt8)) (device : σ)
    (pt table : List (PartInfo b)) : Option (Formatted b σ) :=
  if table.isEmpty ∨ table.length > 4 then some ⟨.badParam, device, pt, table⟩
  else
    let l := Layout.of b device
    match validate (Available.of b l.firstAllocatableSector l.allocatableSectors l.sectorSize) table with
    | none | some .aborted => none
    | some (.returned err table) =>
      if err = .success then
        match workBuffer with
        | none => some ⟨.noMem, device, pt, table⟩
        | some buffer =>
          match Device.write device 0 (slice (bootRecord l buffer table) 0 l.sectorSize) with
          | (false, device) => some ⟨.writeFailure, device, pt, table⟩
          | (true, device) =>
            match Device.sync device with
            | (false, device) => some ⟨.writeFailure, device, pt, table⟩
            | (true, device) => some ⟨.success, device, handOver [] table, []⟩
      else some ⟨err, device, pt, table⟩

section BootRecord
variable {b : Build} {l : Layout} {table : List (PartInfo b)} (buffer : Nat → UInt8)

private def recordBytes (l : Layout) (table : List (PartInfo b)) : List UInt8 :=
  table.flatMap fun part => (recordOf l part).encode

private theorem length_recordBytes (l : Layout) (table : List (PartInfo b)) :
    (recordBytes l table).length = table.length * MBR_RECORD_SIZE :=
  length_flatMap _ _ (fun part => (recordOf l part).length_encode) table

private theorem recordLoop_eq (partIndex : Nat) :
    recordLoop l partIndex buffer table =
      patch buffer (MBR_RECORDS + partIndex * MBR_RECORD_SIZE) (recordBytes l table) := by
  induction table generalizing partIndex buffer with
  | nil => exact (patch_nil _ _).symm
  | cons part rest ih =>
    have hcons : recordBytes l (part :: rest) = (recordOf l part).encode ++ recordBytes l rest := rfl
    rw [recordLoop, ih, hcons, patch_append, (recordOf l part).length_encode, Nat.succ_mul, Nat.add_assoc]

private theorem bootRecord_below {i : Nat} (hi : i < MBR_SIGNATURE) :
    bootRecord l buffer table i =
      patch (patch buffer 0 (List.replicate l.sectorSize 0)) MBR_RECORDS (recordBytes l table) i := by
  rw [bootRecord, patch_below _ _ hi, recordLoop_eq, Nat.zero_mul, Nat.add_zero]

private theorem cleared (hsize : 512 ≤ l.sectorSize) {i : Nat} (hi : i < 512) :
    patch buffer 0 (List.replicate l.sectorSize 0) i = 0 := by
  have h := patch_inside buffer 0 (List.replicate l.sectorSize 0) (i := i) (by rw [List.length_replicate]; omega)
  rwa [Nat.zero_add, List.getElem_replicate] at h

theorem bootRecord_boot_code (hsize : 512 ≤ l.sectorSize) {i : Nat} (hi : i < MBR_RECORDS) :
    bootRecord l buffer table i = 0 := by
  have hlt : i < 512 := Nat.lt_trans hi (by decide)
  rw [bootRecord_below buffer (Nat.lt_trans hi (by decide)), patch_below _ _ hi, cleared buffer hsize hlt]

theorem mbrSignature_bootRecord : mbrSignature (bootRecord l buffer table) = MSDOS_MBR_SIGNATURE := by
  have hlen : 0 + 2 ≤ (le16 MSDOS_MBR_SIGNATURE).length := Nat.le_of_eq (length_le16 _).symm
  have hread := read16_patch (f := recordLoop l 0 (patch buffer 0 (List.replicate l.sectorSize 0)) table)
    (a := MBR_SIGNATURE) hlen (field_self (length_le16 _))
  exact hread

theorem mbrRecord_bootRecord (hlen : table.length ≤ 4) {k : Nat} (hk : k < table.length) :
    mbrRecord (bootRecord l buffer table) k = recordOf l table[k] := by
  apply MbrRecord.decode_of_slice
  have hbelow : slice (bootRecord l buffer table) (MBR_RECORDS + k * MBR_RECORD_SIZE) MBR_RECORD_SIZE =
      slice (patch (patch buffer 0 (List.replicate l.sectorSize 0)) MBR_RECORDS (recordBytes l table))
        (MBR_RECORDS + k * MBR_RECORD_SIZE) MBR_RECORD_SIZE := by
    apply slice_congr
    intro i hi
    apply bootRecord_below
    rw [MBR_RECORD_SIZE] at hi ⊢
    rw [MBR_RECORDS, MBR_SIGNATURE]
    omega
  have hfit : k * MBR_RECORD_SIZE + MBR_RECORD_SIZE ≤ (recordBytes l table).length := by
    rw [length_recordBytes, ← Nat.succ_mul]
    exact Nat.mul_le_mul_right _ hk
  rw [hbelow, slice_patch _ _ hfit]
  exact field_flatMap _ _ (fun part => (recordOf l part).length_encode) table hk

theorem mbrRecord_unused (hsize : 512 ≤ l.sectorSize) {k : Nat} (hk : table.length ≤ k) (hlt : k < 4) :
    (mbrRecord (bootRecord l buffer table) k).startingLba = 0 := by
  have hzero : ∀ i < MBR_RECORD_SIZE, bootRecord l buffer table (MBR_RECORDS + k * MBR_RECORD_SIZE + i) = 0 := by
    intro i hi
    have hmul : table.length * MBR_RECORD_SIZE ≤ k * MBR_RECORD_SIZE := Nat.mul_le_mul_right _ hk
    have hin : MBR_RECORDS + k * MBR_RECORD_SIZE + i < MBR_SIGNATURE := by
      rw [MBR_RECORD_SIZE] at hi ⊢
      rw [MBR_RECORDS, MBR_SIGNATURE]
      omega
    rw [bootRecord_below buffer hin, patch_above _ _ (by rw [length_recordBytes]; omega)]
    exact cleared buffer hsize (Nat.lt_trans hin (by decide))
  change read32 _ (MBR_RECORDS + k * MBR_RECORD_SIZE + 8) = 0
  rw [read32, read_congr (g := fun _ => 0) fun i hi => ?_]
  · rfl
  · rw [Nat.add_assoc]
    exact hzero (8 + i) (by rw [MBR_RECORD_SIZE]; omega)

end BootRecord

/-- What a successful call has done. -/
theorem formatDisk_success {b : Build} {σ : Type} [Device σ] {workBuffer : Option (Nat → UInt8)} {device : σ}
    {pt table : List (PartInfo b)} {result : Formatted b σ} (h : formatDisk workBuffer device pt table = some result)
    (hok : result.err = .success) :
    ∃ buffer d', table ≠ [] ∧ table.length ≤ 4 ∧ workBuffer = some buffer ∧
      validate (Available.of b (Layout.of b device).firstAllocatableSector (Layout.of b device).allocatableSectors
        (Layout.of b device).sectorSize) table = some (.returned .success result.partitions) ∧
      Device.write device 0 (slice (bootRecord (Layout.of b device) buffer result.partitions) 0
        (Layout.of b device).sectorSize) = (true, d') ∧
      Device.sync d' = (true, result.device) ∧ result.table = [] := by
  rw [formatDisk] at h
  split at h
  · cases h
    cases hok
  · rename_i hcount
    dsimp only at h
    split at h
    · cases h
    · cases h
    · rename_i err parts hvalidate
      split at h
      · rename_i herr
        split at h
        · cases h
          cases hok
        · split at h
          · cases h
            cases hok
          · rename_i d' hwrite
            split at h
            · cases h
              cases hok
            · rename_i d'' hsync
              cases h
              cases herr
              refine ⟨_, d', fun hnil => (not_or.mp hcount).1 (List.isEmpty_iff.mpr hnil),
                Nat.le_of_not_lt (not_or.mp hcount).2, rfl, ?_, ?_, hsync, rfl⟩
              · rw [handOver_eq, List.nil_append]
                exact hvalidate
              · rw [handOver_eq, List.nil_append]
                exact hwrite
      · rename_i herr
        cases h
        exact absurd hok herr

end MBR

end DiskStorage
