import DiskStorage.Format.Capacity
import DiskStorage.Format.Mbr
import DiskStorage.Validate.Percentages

/-! Devices of all sizes: on which of them formatDisk is safe with tables of percentages. -/
namespace DiskStorage
open ByteStore

variable {b : Build} {σ : Type}

namespace SectorUnit
variable {size first total : Nat} (h : SectorUnit size)
include h

theorem range_aligned (hfirst : first * size = PARTITION_ALIGN) (hblocks : first + total < b.storageSize)
    (hpercent : total * 100 < 2 ^ 64) (hbytes : (first + total) * size < 2 ^ 64) :
    (Available.of b first total size).Aligned ∧ (Available.of b first total size).rangeStart = PARTITION_ALIGN ∧
      (Available.of b first total size).rangeEnd = (first + total) * size ∧
      (Available.of b first total size).totalBlocks = total ∧ (Available.of b first total size).blockAlign = first := by
  have hf : (Available.of b first total size).firstBlock = first := Build.storage_of_lt (by omega)
  have ht : (Available.of b first total size).totalBlocks = total := Build.storage_of_lt (by omega)
  have hs : (Available.of b first total size).blockSize = size := Nat.mod_eq_of_lt (Nat.lt_trans h.lt (by decide))
  have hstart : (Available.of b first total size).rangeStart = PARTITION_ALIGN := by
    rw [Available.rangeStart, hf, hs, hfirst]
  have hend : (Available.of b first total size).rangeEnd = (first + total) * size := by
    rw [Available.rangeEnd, hf, ht, hs]
  have halign : (Available.of b first total size).blockAlign = first := by
    rw [Available.blockAlign, hs, ← hfirst, Nat.mul_div_cancel _ h.pos]
  have hpos : 0 < first := Nat.pos_of_ne_zero fun h0 => by
    rw [h0, Nat.zero_mul] at hfirst
    exact absurd hfirst.symm (by decide)
  refine ⟨⟨⟨?_, ?_, ?_⟩, ?_, ?_, ?_, ?_, ?_, ?_⟩, hstart, hend, ht, halign⟩
  · rwa [ht]
  · rw [ht, halign]
    omega
  · rwa [halign]
  · rw [hf]
    exact hpos.ne'
  · rw [hs]
    exact h.dvd
  · rw [hstart]
  · rw [hstart]
    exact Build.PARTITION_ALIGN_lt
  · rwa [hf, ht]
  · rwa [hend]

theorem range_exact (hfirst : first * size = PARTITION_ALIGN) (hbytes : (first + total) * size < b.storageSize) :
    (Available.of b first total size).Exact ∧ (Available.of b first total size).rangeStart = PARTITION_ALIGN ∧
      (Available.of b first total size).rangeEnd = (first + total) * size ∧
      (Available.of b first total size).totalBlocks = total ∧ (Available.of b first total size).blockAlign = first := by
  have hle : first + total ≤ (first + total) * size := Nat.le_mul_of_pos_right _ h.pos
  have hmul : (first + total) * 512 ≤ (first + total) * size := Nat.mul_le_mul_left _ h.min_le
  have h64 := b.storageSize_le
  have hblocks : first + total < b.storageSize := by omega
  obtain ⟨halign, hrange⟩ := h.range_aligned hfirst hblocks (by omega) (by omega)
  exact ⟨⟨halign.toExactShares, halign.first, halign.block, halign.start, hrange.2.1.trans_lt hbytes⟩, hrange⟩

end SectorUnit

/-- What a call is to do: it returns an error before it writes anything, or it returns Success, with
all partitions on the device and clear of these regions. -/
def SafeResult [Device σ] (device : σ) (metadata : List (Nat × Nat)) (result : Formatted b σ) : Prop :=
  GPT.Refused device result ∨
    result.err = .success ∧ ∀ part ∈ result.partitions, part.stop ≤ Device.capacity device ∧
      ∀ region ∈ metadata, part.stop ≤ region.1 ∨ region.2 ≤ part.offset

private theorem refused_of_validate {device : σ} {a : Available b} {err : Error} {pt table table' : List (PartInfo b)}
    (hv : validate a table = some (.returned err table')) (herr : err ≠ .success) :
    GPT.Refused device (⟨err, device, pt, table'⟩ : Formatted b σ) := by
  refine ⟨herr, ?_, rfl⟩
  rintro rfl
  rcases (Available.validate_resolves hv).2.1 with h | h | h | h | h <;> cases h

namespace GPT

namespace Layout
variable (l : Layout b)

/-- Protective MBR, headers and entry arrays, in bytes. -/
def metadata : List (Nat × Nat) :=
  [(0, l.sectorSize), (l.sectorSize, 2 * l.sectorSize),
    ((l.driveSectors - 1) * l.sectorSize, l.driveSectors * l.sectorSize),
    (2 * l.sectorSize, 2 * l.sectorSize + GPT_ITEMS * GPT_ENTRY_SIZE),
    (l.backupPartitionTableSector * l.sectorSize,
      l.backupPartitionTableSector * l.sectorSize + GPT_ITEMS * GPT_ENTRY_SIZE)]

/-- No subtraction of sector counts wraps. -/
def Subtracts : Prop :=
  (l.backupPartitionTableSector : Int) = (l.driveSectors : Int) - l.numPartitionTableSectors - 1 ∧
    (l.allocatableSectors : Int) = (l.backupPartitionTableSector : Int) - l.firstAllocatableSector ∧
    (b.storage (l.driveSectors + (b.storageSize - 1)) : Int) = (l.driveSectors : Int) - 1

variable {l}

theorem subtracts_iff (hdrive : l.driveSectors < b.storageSize) :
    l.Subtracts ↔ l.reserved ≤ l.driveSectors := by
  rw [reserved]
  constructor
  · rintro ⟨hbackup, hallocatable, _⟩
    omega
  · intro hroom
    have hbackup := l.backup_eq_of_le hdrive (by omega)
    have hlt := l.backup_lt
    have hallocatable : l.allocatableSectors = l.backupPartitionTableSector - l.firstAllocatableSector := by
      rw [allocatableSectors, u64]
      omega
    have hlast : b.storage (l.driveSectors + (b.storageSize - 1)) = l.driveSectors - 1 := by
      have hsplit : l.driveSectors + (b.storageSize - 1) = l.driveSectors - 1 + b.storageSize := by omega
      rw [hsplit, Build.storage, Nat.add_mod_right, Nat.mod_eq_of_lt (by omega)]
    exact ⟨by omega, by omega, by omega⟩

end Layout

section Writes
variable [LawfulDevice σ] {l : Layout b} {d₀ d : σ}

/-- A device on the way, on which no write fails. -/
def Serving (unit : Nat) (d₀ d : σ) : Prop := (∃ f, Holds d₀ d f) ∧ Device.WritesSucceed unit d

private theorem writeSector_succeeds (sector : Nat) (hl : l.Roomy)
    (hcap : l.driveSectors * l.sectorSize ≤ Device.capacity d₀) (h : Serving l.sectorSize d₀ d) (buffer : Nat → UInt8)
    (hs : sector < l.driveSectors) :
    ∃ d', writeSector b l.shift d sector buffer = (true, d') ∧ Serving l.sectorSize d₀ d' := by
  obtain ⟨⟨f, hf⟩, hwrites⟩ := h
  have hin : sector * l.sectorSize + (slice buffer 0 l.sectorSize).length ≤ Device.capacity d₀ := by
    rw [slice_length, ← Nat.succ_mul]
    exact (Nat.mul_le_mul_right _ hs).trans hcap
  have hok := (hwrites d (.refl d)).1 (sector * l.sectorSize) (slice buffer 0 l.sectorSize) (Nat.dvd_mul_left ..)
    (by rw [slice_length]) (by rwa [hf.capacity_eq])
  refine ⟨(Device.write d (sector * l.sectorSize) (slice buffer 0 l.sectorSize)).2, ?_,
    ⟨_, hf.write hin (Prod.ext hok rfl)⟩, hwrites.write _ _⟩
  rw [writeSector, hl.sectorAddress_eq hs, ← hl.pow]
  exact Prod.ext hok rfl

private theorem passEntry_succeeds {index : Nat} (hl : l.Roomy)
    (hcap : l.driveSectors * l.sectorSize ≤ Device.capacity d₀)
    (st : EntryLoop b) (hindex : index < GPT_ITEMS) (h : Serving l.sectorSize d₀ d) :
    ∃ st' d', passEntry l index st d = (some st', d') ∧ Serving l.sectorSize d₀ d' := by
  rw [passEntry]
  split
  · rename_i hfull
    have hsector := hl.arraySector_lt hindex hfull
    have hbackup := hl.backup_eq
    have hroom := hl.room
    have hfirst := hl.first_le
    have hdrive := hl.drive_lt
    obtain ⟨d₁, hw₁, h₁⟩ := writeSector_succeeds (2 + index / l.entriesPerSector) hl hcap h
      (addEntry l index st).buffer (by omega)
    obtain ⟨d₂, hw₂, h₂⟩ := writeSector_succeeds (l.backupPartitionTableSector + index / l.entriesPerSector) hl hcap h₁
      (addEntry l index st).buffer (by omega)
    dsimp only
    rw [hw₁]
    dsimp only
    rw [u64_of_lt (Build.lt_u64 (b := b) (by omega)), hw₂]
    exact ⟨_, d₂, rfl, h₂⟩
  · exact ⟨_, d, rfl, h⟩

private theorem writeTables_succeeds (hl : l.Roomy) (hcap : l.driveSectors * l.sectorSize ≤ Device.capacity d₀)
    (h : Serving l.sectorSize d₀ d) (env : FormatEnv) (buffer : Nat → UInt8) (diskGuid : Uuid)
    (table : List (PartInfo b)) :
    ∃ d', writeTables l env buffer diskGuid table d = (true, d') := by
  have hroom := hl.room
  have hfirst := hl.first_le
  have hloop : ∃ st d₁, entryLoop l GPT_ITEMS 0 ⟨buffer, 0, table⟩ d = (some st, d₁) ∧ Serving l.sectorSize d₀ d₁ :=
    entryLoop_goes h (fun st hi h => passEntry_succeeds hl hcap st (Nat.zero_add GPT_ITEMS ▸ hi) h) _
  obtain ⟨st, d₁, hloop, h₁⟩ := hloop
  rw [writeTables, hloop]
  dsimp only
  generalize hheader : primaryHeader l (if diskGuid.isNull then env.generated else diskGuid) st.bcc = header
  generalize patch (patch st.buffer GPT_HEADER_SIZE env.headerPadding) 0 (sealed header).encode = buffer₁
  have hmy : header.myLba.toNat = 1 := by
    rw [← hheader]
    rfl
  have halternate : (secondaryHeader l header).myLba.toNat = l.driveSectors - 1 := by
    rw [← hheader]
    exact l.alternate_eq_of_pos hl.drive_lt (by omega)
  obtain ⟨d₂, hw₂, h₂⟩ := writeSector_succeeds _ hl hcap h₁ buffer₁ (show header.myLba.toNat < _ by omega)
  rw [hw₂]
  dsimp only
  obtain ⟨d₃, hw₃, h₃⟩ := writeSector_succeeds _ hl hcap h₂ (patch buffer₁ 0 (sealed (secondaryHeader l header)).encode)
    (show (secondaryHeader l header).myLba.toNat < _ by omega)
  rw [hw₃]
  dsimp only
  obtain ⟨d₄, hw₄, _, hwrites⟩ := writeSector_succeeds _ hl hcap h₃
    (patch (patch buffer₁ 0 (sealed (secondaryHeader l header)).encode) 0 (protectiveMbr l)) (show 0 < _ by omega)
  rw [hw₄]
  exact ⟨_, Prod.ext (hwrites d₄ (.refl d₄)).2 rfl⟩

end Writes

/-- What formatDisk is to do on a device: its subtractions are exact, and with tables of percentages it
returns, which rules out that the assert of validate fails, and is safe. -/
structure FormatsSafely (b : Build) [Device σ] (device : σ) : Prop where
  exact : ∀ sectorSize, chooseSectorSize b device = some sectorSize → (layoutOf b device sectorSize).Subtracts ∧
    ∀ table, AutoPercentages table → (layoutOf b device sectorSize).available.Clips table
  safe : ∀ env pt (table : List (PartInfo b)) diskGuid, table ≠ [] → AutoPercentages table →
    ∃ result, formatDisk env device pt table diskGuid = some result ∧
      SafeResult device
        ((chooseSectorSize b device).elim [] fun sectorSize => (layoutOf b device sectorSize).metadata) result

/-- There are the reserved sectors, and for partitions 100 more at least, or whole alignment units. -/
def HasRoom (b : Build) [Device σ] (device : σ) : Prop :=
  ∀ sectorSize, chooseSectorSize b device = some sectorSize →
    (layoutOf b device sectorSize).reserved ≤ Device.getSectorCount device ∧
      (100 ≤ Device.getSectorCount device - (layoutOf b device sectorSize).reserved ∨
        (layoutOf b device sectorSize).partAlignSectors ∣
          Device.getSectorCount device - (layoutOf b device sectorSize).reserved)

private theorem chooseSectorSize_le [Device σ] {device : σ} {sectorSize : Nat}
    (h : chooseSectorSize b device = some sectorSize) (hmin : DISK_MIN_SECTOR_SIZE ≤ Device.getSectorSize device) :
    sectorSize ≤ Device.getSectorSize device := by
  rw [chooseSectorSize] at h
  split at h
  · dsimp only at h
    split at h
    · cases h
    · cases h
      exact Nat.mod_le _ _
  · rename_i heq
    cases h
    rwa [of_not_not heq]

section
variable [LawfulDevice σ] {device : σ} {sectorSize : Nat}

theorem Layout.Roomy.range {l : Layout b} (hl : l.Roomy) :
    l.available.Exact ∧ l.available.rangeStart = PARTITION_ALIGN ∧
      l.available.rangeEnd = l.backupPartitionTableSector * l.sectorSize ∧
      l.available.totalBlocks = l.driveSectors - l.reserved ∧ l.available.blockAlign = l.partAlignSectors := by
  have hroom := hl.room
  have hbackup := hl.backup_eq
  have htotal := hl.allocatable_eq
  rw [Layout.reserved] at htotal
  have hsum : l.firstAllocatableSector + l.allocatableSectors = l.backupPartitionTableSector := by omega
  have hbytes : (l.firstAllocatableSector + l.allocatableSectors) * l.sectorSize < b.storageSize := by
    rw [hsum]
    exact Nat.lt_of_le_of_lt (Nat.mul_le_mul_right _ (by omega)) hl.bytes_lt
  obtain ⟨hexact, hstart, hend, hblocks, halign⟩ := hl.unit.range_exact (Layout.firstAllocatable_mul hl.unit) hbytes
  exact ⟨hexact, hstart, hend.trans (by rw [hsum]), hblocks.trans hl.allocatable_eq,
    halign.trans (Layout.firstAllocatable_eq hl.unit)⟩

/-- Between the first partition boundary and the backup a partition is clear of the metadata. -/
theorem Layout.Roomy.clear {l : Layout b} (hl : l.Roomy) {part : PartInfo b}
    (hlo : PARTITION_ALIGN ≤ part.offset) (hhi : part.stop ≤ l.backupPartitionTableSector * l.sectorSize) :
    ∀ region ∈ l.metadata, part.stop ≤ region.1 ∨ region.2 ≤ part.offset := by
  have htables := (Layout.tables_le hl.unit).2
  have hbackup := hl.backup_eq
  have hlast : l.backupPartitionTableSector * l.sectorSize ≤ (l.driveSectors - 1) * l.sectorSize :=
    Nat.mul_le_mul_right _ (by omega)
  intro region hregion
  rw [Layout.metadata] at hregion
  simp only [List.mem_cons, List.not_mem_nil, or_false] at hregion
  rcases hregion with rfl | rfl | rfl | rfl | rfl
  · exact Or.inr (by dsimp only; omega)
  · exact Or.inr (by dsimp only; omega)
  · exact Or.inl (hhi.trans hlast)
  · exact Or.inr (by dsimp only; omega)
  · exact Or.inl hhi

private theorem sectorCount_eq (hsize : Device.capacity device < b.storageSize)
    (hmin : DISK_MIN_SECTOR_SIZE ≤ Device.getSectorSize device)
    (hchoose : chooseSectorSize b device = some sectorSize) :
    b.storage (Device.getSectorCount device) = Device.getSectorCount device := by
  have hpos := Nat.lt_of_lt_of_le (sectorUnit_of_choose hchoose).pos (chooseSectorSize_le hchoose hmin)
  exact Build.storage_of_lt (Nat.lt_of_le_of_lt (Nat.le_mul_of_pos_right _ hpos) hsize)

theorem roomy_of_hasRoom (hsize : Device.capacity device < b.storageSize)
    (hmin : DISK_MIN_SECTOR_SIZE ≤ Device.getSectorSize device) (hchoose : chooseSectorSize b device = some sectorSize)
    (hroom : (layoutOf b device sectorSize).reserved ≤ Device.getSectorCount device) :
    (layoutOf b device sectorSize).Roomy ∧
    (layoutOf b device sectorSize).driveSectors = Device.getSectorCount device := by
  have hle := Nat.mul_le_mul_left (Device.getSectorCount device) (chooseSectorSize_le hchoose hmin)
  have hunit := sectorUnit_of_choose hchoose
  have hcount := sectorCount_eq hsize hmin hchoose
  refine ⟨⟨hunit, hroom.trans hcount.ge, ?_⟩, hcount⟩
  change b.storage (Device.getSectorCount device) * sectorSize < b.storageSize
  rw [hcount]
  exact Nat.lt_of_le_of_lt hle hsize

private theorem formatDisk_eq {env : FormatEnv} {pt table : List (PartInfo b)} {diskGuid : Uuid} {buffer : Nat → UInt8}
    (hne : table ≠ []) (hchoose : chooseSectorSize b device = some sectorSize) (hbuffer : env.buffer = some buffer) :
    formatDisk env device pt table diskGuid =
      match validate (layoutOf b device sectorSize).available table with
      | none | some .aborted => none
      | some (.returned err table) =>
        if err = .success then
          match writeTables (layoutOf b device sectorSize) env buffer diskGuid table device with
          | (false, device) => some ⟨.writeFailure, device, pt, table⟩
          | (true, device) => some ⟨.success, device, handOver [] table, []⟩
        else some ⟨err, device, pt, table⟩ := by
  rw [formatDisk, if_neg (mt List.isEmpty_iff.mp hne), hchoose]
  dsimp only
  rw [hbuffer]
  rfl

private theorem formatDisk_safe (hready : LawfulDevice.Ready device)
    (hwrites : ∀ s, chooseSectorSize b device = some s → Device.WritesSucceed s device)
    (hsize : Device.capacity device < b.storageSize) (hmin : DISK_MIN_SECTOR_SIZE ≤ Device.getSectorSize device)
    (hroom : HasRoom b device) (env : FormatEnv) (pt : List (PartInfo b)) {table : List (PartInfo b)} (diskGuid : Uuid)
    (hne : table ≠ []) (hp : AutoPercentages table) :
    ∃ result, formatDisk env device pt table diskGuid = some result ∧
      SafeResult device ((chooseSectorSize b device).elim [] fun sectorSize => (layoutOf b device sectorSize).metadata)
        result := by
  cases hchoose : chooseSectorSize b device with
  | none =>
    rw [formatDisk, if_neg (mt List.isEmpty_iff.mp hne), hchoose]
    exact ⟨_, rfl, Or.inl refused_badParam⟩
  | some sectorSize =>
    cases hbuffer : env.buffer with
    | none =>
      rw [formatDisk, if_neg (mt List.isEmpty_iff.mp hne), hchoose]
      dsimp only
      rw [hbuffer]
      exact ⟨_, rfl, Or.inl refused_noMem⟩
    | some buffer =>
      obtain ⟨hreserved, hblocks⟩ := hroom sectorSize hchoose
      obtain ⟨hl, hdrive⟩ := roomy_of_hasRoom hsize hmin hchoose hreserved
      obtain ⟨hexact, hstart, hend, htotal, halign⟩ := hl.range
      rw [← hdrive] at hblocks
      have hcap : (layoutOf b device sectorSize).driveSectors * sectorSize ≤ Device.capacity device := by
        rw [hdrive]
        exact Nat.mul_le_mul_left _ (chooseSectorSize_le hchoose hmin)
      obtain ⟨err, table', hv, hinside⟩ : (layoutOf b device sectorSize).available.Contains table := by
        rcases hblocks with h100 | hunits
        · exact Available.contains_of_hundred hexact (by rwa [htotal]) hne hp
        · exact Available.contains_of_whole hexact (by rwa [htotal, halign]) hne hp
      rw [formatDisk_eq hne hchoose hbuffer, hv]
      dsimp only
      by_cases hok : err = .success
      · obtain ⟨d', hw⟩ := writeTables_succeeds hl hcap ⟨⟨_, Holds.start hready⟩, hwrites _ hchoose⟩ env
          buffer diskGuid table'
        rw [if_pos hok, hw]
        refine ⟨_, rfl, Or.inr ⟨rfl, fun part hpart => ?_⟩⟩
        rw [handOver_eq, List.nil_append] at hpart
        obtain ⟨hlo, hhi⟩ := hinside hok part hpart
        rw [hstart] at hlo
        rw [hend] at hhi
        refine ⟨hhi.trans ((Nat.mul_le_mul_right _ ?_).trans hcap), hl.clear hlo hhi⟩
        have := hl.backup_eq
        omega
      · rw [if_neg hok]
        exact ⟨_, rfl, Or.inl (refused_of_validate hv hok)⟩

private theorem hasRoom_of_safely (hsize : Device.capacity device < b.storageSize)
    (hmin : DISK_MIN_SECTOR_SIZE ≤ Device.getSectorSize device) (h : FormatsSafely b device) : HasRoom b device := by
  intro sectorSize hchoose
  have hcount := sectorCount_eq hsize hmin hchoose
  have hreserved := (Layout.subtracts_iff (b.storage_lt _)).mp (h.exact sectorSize hchoose).1
  change _ ≤ b.storage (Device.getSectorCount device) at hreserved
  rw [hcount] at hreserved
  refine ⟨hreserved, ?_⟩
  obtain ⟨hl, hdrive⟩ := roomy_of_hasRoom hsize hmin hchoose hreserved
  obtain ⟨hexact, hstart, _, htotal, halign⟩ := hl.range
  rw [← hdrive, ← htotal, ← halign]
  by_contra hnot
  obtain ⟨hsmall, hunits⟩ := not_or.mp hnot
  have hsmall := Nat.lt_of_not_le hsmall
  have habort := Available.validate_whole_hundredth hexact hstart hsmall hunits
  obtain ⟨result, hformat, _⟩ := h.safe ⟨some fun _ => 0, Uuid.null, []⟩ [] _ Uuid.null (List.cons_ne_nil _ _)
    Available.autoPercentages_whole_hundredth
  rw [formatDisk_eq (List.cons_ne_nil _ _) hchoose rfl, habort] at hformat
  cases hformat

theorem formatsSafely_iff (hready : LawfulDevice.Ready device)
    (hwrites : ∀ s, chooseSectorSize b device = some s → Device.WritesSucceed s device)
    (hsize : Device.capacity device < b.storageSize) (hmin : DISK_MIN_SECTOR_SIZE ≤ Device.getSectorSize device) :
    FormatsSafely b device ↔ HasRoom b device := by
  constructor
  · exact hasRoom_of_safely hsize hmin
  · intro hroom
    refine ⟨fun sectorSize hchoose => ?_, fun env pt table diskGuid hne hp =>
      formatDisk_safe hready hwrites hsize hmin hroom env pt diskGuid hne hp⟩
    have hl := (roomy_of_hasRoom hsize hmin hchoose (hroom sectorSize hchoose).1).1
    exact ⟨(Layout.subtracts_iff hl.drive_lt).mpr hl.room, fun table hp =>
      Available.clips_of_exactShares hl.range.1.toExactShares hp⟩

end

end GPT

namespace MBR

/-- The subtraction of sector counts does not wrap. -/
def Layout.Subtracts (l : Layout) : Prop :=
  (l.allocatableSectors : Int) = (l.numDeviceSectors : Int) - l.firstAllocatableSector

theorem Layout.subtracts_iff {l : Layout} (hdevice : l.numDeviceSectors < 2 ^ 32) :
    l.Subtracts ↔ l.firstAllocatableSector ≤ l.numDeviceSectors := by
  have hfirst : l.firstAllocatableSector ≤ PARTITION_ALIGN := Nat.div_le_self _ _
  rw [PARTITION_ALIGN] at hfirst
  rw [Layout.Subtracts, Layout.allocatableSectors]
  omega

/-- What formatDisk is to do on a device, where the boot record is its only metadata. -/
structure FormatsSafely (b : Build) [Device σ] (device : σ) : Prop where
  exact : (Layout.of b device).Subtracts ∧
    ∀ table : List (PartInfo b), AutoPercentages table → ((Layout.of b device).available b).Clips table
  safe : ∀ workBuffer pt (table : List (PartInfo b)), table ≠ [] → AutoPercentages table →
    ∃ result, formatDisk workBuffer device pt table = some result ∧
      SafeResult device [(0, (Layout.of b device).sectorSize)] result

/-- The sectors that formatDisk counts are on the device. There are those in front of the first
boundary, and for partitions 100 more at least, or whole alignment units. -/
structure HasRoom (b : Build) [Device σ] (device : σ) : Prop where
  reserved : (Layout.of b device).firstAllocatableSector ≤ (Layout.of b device).numDeviceSectors
  inside : (Layout.of b device).numDeviceSectors * (Layout.of b device).sectorSize ≤ Device.capacity device
  blocks : 100 ≤ (Layout.of b device).numDeviceSectors - (Layout.of b device).firstAllocatableSector ∨
    (Layout.of b device).firstAllocatableSector ∣
      (Layout.of b device).numDeviceSectors - (Layout.of b device).firstAllocatableSector

section
variable [LawfulDevice σ] {device : σ}

theorem Layout.allocatable_eq {l : Layout} (hdevice : l.numDeviceSectors < 2 ^ 32)
    (hroom : l.firstAllocatableSector ≤ l.numDeviceSectors) :
    l.allocatableSectors = l.numDeviceSectors - l.firstAllocatableSector := by
  have := (Layout.subtracts_iff hdevice).mpr hroom
  rw [Layout.Subtracts] at this
  omega

theorem Layout.firstAllocatable_mul {l : Layout} (hunit : SectorUnit l.sectorSize) :
    l.firstAllocatableSector * l.sectorSize = PARTITION_ALIGN := by
  have hpow : l.sectorSize = 2 ^ l.shift := hunit.pow
  rw [Layout.firstAllocatableSector, ← hpow]
  exact Nat.div_mul_cancel hunit.dvd

private theorem Layout.range {l : Layout} (hunit : SectorUnit l.sectorSize) (hdevice : l.numDeviceSectors < 2 ^ 32)
    (hroom : l.firstAllocatableSector ≤ l.numDeviceSectors)
    (hbytes : l.numDeviceSectors * l.sectorSize < b.storageSize) :
    (l.available b).Exact ∧ (l.available b).rangeStart = PARTITION_ALIGN ∧
      (l.available b).rangeEnd = l.numDeviceSectors * l.sectorSize ∧
      (l.available b).totalBlocks = l.numDeviceSectors - l.firstAllocatableSector ∧
      (l.available b).blockAlign = l.firstAllocatableSector := by
  have htotal := Layout.allocatable_eq hdevice hroom
  have hsum : l.firstAllocatableSector + l.allocatableSectors = l.numDeviceSectors := by omega
  obtain ⟨hexact, hstart, hend, hblocks, halign⟩ :=
    hunit.range_exact (Layout.firstAllocatable_mul hunit) (by rwa [hsum])
  exact ⟨hexact, hstart, hend.trans (by rw [hsum]), hblocks.trans htotal, halign⟩

private theorem numDeviceSectors_lt : (Layout.of b device).numDeviceSectors < 2 ^ 32 := Nat.mod_lt _ (by decide)

theorem HasRoom.range (h : HasRoom b device) (hunit : SectorUnit (MBR.sectorSize b))
    (hsize : Device.capacity device < b.storageSize) :
    ((Layout.of b device).available b).Exact ∧ ((Layout.of b device).available b).rangeStart = PARTITION_ALIGN ∧
      ((Layout.of b device).available b).rangeEnd =
        (Layout.of b device).numDeviceSectors * (Layout.of b device).sectorSize ∧
      ((Layout.of b device).available b).totalBlocks =
        (Layout.of b device).numDeviceSectors - (Layout.of b device).firstAllocatableSector ∧
      ((Layout.of b device).available b).blockAlign = (Layout.of b device).firstAllocatableSector :=
  Layout.range hunit numDeviceSectors_lt h.reserved (Nat.lt_of_le_of_lt h.inside hsize)

private theorem formatDisk_eq {workBuffer : Option (Nat → UInt8)} {pt table : List (PartInfo b)} (hne : table ≠ [])
    (hlen : table.length ≤ 4) :
    formatDisk workBuffer device pt table =
      match validate ((Layout.of b device).available b) table with
      | none | some .aborted => none
      | some (.returned err table) =>
        if err = .success then
          match workBuffer with
          | none => some ⟨.noMem, device, pt, table⟩
          | some buffer =>
            match Device.write device 0 (slice (bootRecord (Layout.of b device) buffer table) 0
              (Layout.of b device).sectorSize) with
            | (false, device) => some ⟨.writeFailure, device, pt, table⟩
            | (true, device) =>
              match Device.sync device with
              | (false, device) => some ⟨.writeFailure, device, pt, table⟩
              | (true, device) => some ⟨.success, device, handOver [] table, []⟩
        else some ⟨err, device, pt, table⟩ :=
  if_neg (not_or.mpr ⟨mt List.isEmpty_iff.mp hne, Nat.not_lt.mpr hlen⟩)

private theorem formatDisk_safe (hwrites : Device.WritesSucceed (MBR.sectorSize b) device)
    (hunit : SectorUnit (MBR.sectorSize b))
    (hsize : Device.capacity device < b.storageSize) (hroom : HasRoom b device)
    (workBuffer : Option (Nat → UInt8)) (pt : List (PartInfo b)) {table : List (PartInfo b)} (hne : table ≠ [])
    (hp : AutoPercentages table) :
    ∃ result, formatDisk workBuffer device pt table = some result ∧
      SafeResult device [(0, (Layout.of b device).sectorSize)] result := by
  by_cases hlen : table.length > 4
  · exact ⟨_, if_pos (Or.inr hlen), Or.inl GPT.refused_badParam⟩
  · obtain ⟨hexact, hstart, hend, htotal, halign⟩ := hroom.range hunit hsize
    obtain ⟨err, table', hv, hinside⟩ : ((Layout.of b device).available b).Contains table := by
      rcases hroom.blocks with h100 | hunits
      · exact Available.contains_of_hundred hexact (by rwa [htotal]) hne hp
      · exact Available.contains_of_whole hexact (by rwa [htotal, halign]) hne hp
    rw [formatDisk_eq hne (Nat.le_of_not_lt hlen), hv]
    dsimp only
    by_cases hok : err = .success
    · rw [if_pos hok]
      cases workBuffer with
      | none => exact ⟨_, rfl, Or.inl GPT.refused_noMem⟩
      | some buffer =>
        dsimp only
        have hcount : 0 < (Layout.of b device).numDeviceSectors :=
          Nat.lt_of_lt_of_le (halign ▸ hexact.align) hroom.reserved
        have hsector : (Layout.of b device).sectorSize ≤ Device.capacity device :=
          (Nat.le_mul_of_pos_left _ hcount).trans hroom.inside
        obtain ⟨d', hwrite⟩ : ∃ d', Device.write device 0
            (slice (bootRecord (Layout.of b device) buffer table') 0 (Layout.of b device).sectorSize) = (true, d') :=
          ⟨_, Prod.ext ((hwrites device (.refl device)).1 0 _ (dvd_zero _) (dvd_of_eq (slice_length ..).symm)
            (by rwa [slice_length, Nat.zero_add])) rfl⟩
        have hlater : Device.Later device d' := by
          have := Device.Later.write 0 (slice (bootRecord (Layout.of b device) buffer table') 0
            (Layout.of b device).sectorSize) (.refl device)
          rwa [hwrite] at this
        obtain ⟨d'', hsync⟩ : ∃ d'', Device.sync d' = (true, d'') := ⟨_, Prod.ext (hwrites d' hlater).2 rfl⟩
        rw [hwrite]
        dsimp only
        rw [hsync]
        refine ⟨_, rfl, Or.inr ⟨rfl, fun part hpart => ?_⟩⟩
        rw [handOver_eq, List.nil_append] at hpart
        obtain ⟨hlo, hhi⟩ := hinside hok part hpart
        rw [hstart] at hlo
        rw [hend] at hhi
        refine ⟨hhi.trans hroom.inside, List.forall_mem_singleton.mpr (Or.inr ?_)⟩
        exact (Nat.le_of_dvd PARTITION_ALIGN_pos hunit.dvd).trans hlo
    · rw [if_neg hok]
      exact ⟨_, rfl, Or.inl (refused_of_validate hv hok)⟩

theorem hasRoom_of_safely (hunit : SectorUnit (MBR.sectorSize b))
    (hbytes : (Layout.of b device).numDeviceSectors * MBR.sectorSize b < b.storageSize) (h : FormatsSafely b device) :
    HasRoom b device := by
  have hreserved := (Layout.subtracts_iff numDeviceSectors_lt).mp h.exact.1
  obtain ⟨hexact, hstart, hend, htotal, halign⟩ :=
    Layout.range (b := b) (l := Layout.of b device) hunit numDeviceSectors_lt hreserved hbytes
  refine ⟨hreserved, ?_, ?_⟩
  · obtain ⟨part, hv, hstop⟩ := Available.validate_whole hexact
    obtain ⟨result, hformat, hsafe⟩ := h.safe (some fun _ => 0) [] [Available.wholeRange b] (List.cons_ne_nil _ _)
      Available.autoPercentages_whole
    rw [← hend, ← hstop]
    rw [formatDisk_eq (List.cons_ne_nil _ _) (by simp), hv] at hformat
    dsimp only at hformat
    rw [if_pos rfl] at hformat
    -- nothing is refused behind validate, but a write may fail
    rcases hsafe with hrefused | ⟨hok, hparts⟩
    · split at hformat
      · cases hformat
        exact absurd rfl hrefused.2.1
      · split at hformat
        · cases hformat
          exact absurd rfl hrefused.2.1
        · cases hformat
          exact absurd rfl hrefused.1
    · split at hformat
      · cases hformat
        cases hok
      · split at hformat
        · cases hformat
          cases hok
        · cases hformat
          exact (hparts part List.mem_cons_self).1
  · rw [← htotal, ← halign]
    by_contra hnot
    obtain ⟨hsmall, hunits⟩ := not_or.mp hnot
    have hsmall := Nat.lt_of_not_le hsmall
    obtain ⟨result, hformat, _⟩ :=
      h.safe (some fun _ => 0) [] [Available.wholeRange b, Available.hundredth b] (List.cons_ne_nil _ _)
      Available.autoPercentages_whole_hundredth
    rw [formatDisk_eq (List.cons_ne_nil _ _) (by simp),
      Available.validate_whole_hundredth hexact hstart hsmall hunits] at hformat
    cases hformat

theorem safely_of_hasRoom (hwrites : Device.WritesSucceed (MBR.sectorSize b) device)
    (hunit : SectorUnit (MBR.sectorSize b))
    (hsize : Device.capacity device < b.storageSize) (hroom : HasRoom b device) : FormatsSafely b device := by
  have hexact := (hroom.range hunit hsize).1.toExactShares
  exact ⟨⟨(Layout.subtracts_iff numDeviceSectors_lt).mpr hroom.reserved, fun table hp =>
    Available.clips_of_exactShares hexact hp⟩, fun workBuffer pt table hne hp =>
      formatDisk_safe hwrites hunit hsize hroom workBuffer pt hne hp⟩

end

end MBR

/-- Both overloads of formatDisk are safe with every table of percentages exactly when the device has
room: for GPT the reserved sectors, for MBR the first MiB, and behind them 100 sectors at least, or
whole alignment units. MBR takes the sectors of the device, cut to 32 bits, for ones of
DISK_MAX_SECTOR_SIZE, and these have to be on the device too: where their end cannot be represented,
partitions are on the device by chance only. Whole sectors, as each overload takes them, are written
without failures. -/
theorem formatDisk_safe_iff_room [LawfulDevice σ] (device : σ) (hready : LawfulDevice.Ready device)
    (hgpt : ∀ s, chooseSectorSize b device = some s → Device.WritesSucceed s device)
    (hmbr : Device.WritesSucceed (MBR.sectorSize b) device) (hsize : Device.capacity device < b.storageSize)
    (hmin : DISK_MIN_SECTOR_SIZE ≤ Device.getSectorSize device) (hunit : SectorUnit (MBR.sectorSize b)) :
    (GPT.FormatsSafely b device ↔ GPT.HasRoom b device) ∧ (MBR.HasRoom b device → MBR.FormatsSafely b device) ∧
      ((MBR.Layout.of b device).numDeviceSectors * MBR.sectorSize b < b.storageSize →
        MBR.FormatsSafely b device → MBR.HasRoom b device) :=
  ⟨GPT.formatsSafely_iff hready hgpt hsize hmin, MBR.safely_of_hasRoom hmbr hunit hsize,
    MBR.hasRoom_of_safely hunit⟩

/-- A device of so many sectors, without buffers, of which no raw operation fails. -/
def smallDevice (sectorCount : Nat) : BlockDevice 9 :=
  BlockDevice.fresh sectorCount ⟨fun _ => false, fun _ => Sector.zero⟩ fun _ => Sector.zero

/-- A device of 4 MiB has room. -/
theorem formatDisk_safe_four_mib : GPT.FormatsSafely ⟨true, true, true, 512⟩ (smallDevice 8192) ∧
    MBR.FormatsSafely ⟨true, true, true, 512⟩ (smallDevice 8192) := by
  have hwrites : Device.WritesSucceed 512 (smallDevice 8192) := BlockDevice.writesSucceed fun _ => rfl
  have hready : LawfulDevice.Ready (smallDevice 8192) :=
    ⟨BlockDevice.coherent_fresh _ _ _, show 8192 ≤ 2 ^ 32 - 1 by decide⟩
  obtain ⟨hgpt, hmbr, -⟩ := formatDisk_safe_iff_room (b := ⟨true, true, true, 512⟩) (smallDevice 8192) hready
    (fun s hs => Option.some.inj hs ▸ hwrites) hwrites (show 8192 * 512 < _ by decide) (show 512 ≤ 512 by decide)
    ⟨by decide, by decide, by decide⟩
  refine ⟨hgpt.mpr fun sectorSize hchoose => ?_, hmbr ⟨by decide, show 8192 * 512 ≤ 8192 * 512 by decide,
    Or.inl (by decide)⟩⟩
  cases hchoose
  exact ⟨by decide +kernel, Or.inl (by decide +kernel)⟩

/-- On a device of 100 sectors one entry of 100 percent is accepted, and starts behind the device. -/
theorem partition_behind_small_disk : Device.WritesSucceed 512 (smallDevice 100) ∧
    ¬ MBR.FormatsSafely ⟨true, true, true, 512⟩ (smallDevice 100) ∧
    ∃ (result : Formatted ⟨true, true, true, 512⟩ (BlockDevice 9)) (part : PartInfo _),
      MBR.formatDisk (some fun _ => 0) (smallDevice 100) [] [Available.wholeRange _] = some result ∧
        result.err = .success ∧ result.partitions[0]? = some part ∧
        Device.capacity (smallDevice 100) < part.offset := by
  refine ⟨BlockDevice.writesSucceed fun _ => rfl, ?_, ?_⟩
  · intro h
    have hle := (MBR.Layout.subtracts_iff (by decide)).mp h.exact.1
    exact absurd hle (by decide)
  · have hmap : (MBR.formatDisk (b := ⟨true, true, true, 512⟩) (some fun _ => 0) (smallDevice 100) []
        [Available.wholeRange _]).map (fun r => (r.err, (r.partitions[0]?).map PartInfo.offset)) =
        some (.success, some 0x100000) := by decide +kernel
    obtain ⟨result, hformat, heq⟩ := Option.map_eq_some_iff.mp hmap
    obtain ⟨part, hpart, hoffset⟩ := Option.map_eq_some_iff.mp (congrArg Prod.snd heq)
    refine ⟨result, part, hformat, congrArg Prod.fst heq, hpart, ?_⟩
    rw [hoffset]
    exact show 100 * 512 < 0x100000 by decide

end DiskStorage
