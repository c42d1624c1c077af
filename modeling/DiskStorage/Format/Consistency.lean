import DiskStorage.Format.Entries
import DiskStorage.Scanner.Sectors

/-! What is on a device that has been partitioned in GPT format. -/
namespace DiskStorage
open ByteStore LittleEndian

theorem sectorUnit_of_choose {b : Build} {σ : Type} [Device σ] {device : σ} {size : Nat}
    (h : chooseSectorSize b device = some size) :
    SectorUnit size := by
  have hpow := chooseSectorSize_pow h
  refine ⟨hpow, ?_, ?_⟩
  · rw [hpow]
    exact (chooseSectorSize_shift h).2
  · rw [hpow]
    exact Nat.pow_lt_pow_right (by decide) (chooseSectorSize_lt h)

namespace GPT
variable {b : Build}

@[simp] theorem length_protectiveMbr (l : Layout b) : (protectiveMbr l).length = 512 := by
  rw [protectiveMbr, List.length_append, List.length_append, List.length_append, List.length_replicate,
    List.length_replicate, MbrRecord.length_encode, length_le16]
  rfl

/-- What a scan reads of a table: the protective MBR, the primary header with some checksum, and the entry
array behind it. -/
structure Listed (l : Layout b) (diskGuid : Uuid) (crc : UInt32) (parts : List (PartInfo b)) (f : Nat → UInt8) : Prop
    where
  mbr : slice f 0 512 = protectiveMbr l
  primary : slice f l.sectorSize GPT_HEADER_SIZE = (sealed (primaryHeader l diskGuid crc)).encode
  entries : slice f (2 * l.sectorSize) (GPT_ITEMS * GPT_ENTRY_SIZE) =
    slice (arrayBytes l parts) 0 (GPT_ITEMS * GPT_ENTRY_SIZE)

/-- The structures of a table on a device: the protective MBR, two headers, and two copies of the entry array. -/
structure Partitioned (l : Layout b) (diskGuid : Uuid) (parts : List (PartInfo b)) (f : Nat → UInt8) : Prop
    extends Listed l diskGuid (arrayCrc l parts) parts f where
  secondary : slice f ((l.driveSectors - 1) * l.sectorSize) GPT_HEADER_SIZE =
    (sealed (secondaryHeader l (primaryHeader l diskGuid (arrayCrc l parts)))).encode
  backup : slice f (l.backupPartitionTableSector * l.sectorSize) (GPT_ITEMS * GPT_ENTRY_SIZE) =
    slice (arrayBytes l parts) 0 (GPT_ITEMS * GPT_ENTRY_SIZE)

variable {l : Layout b} {parts : List (PartInfo b)}

private theorem sector_start {f g : Nat → UInt8} {a n : Nat} {r : List UInt8}
    (h : slice f a n = slice (patch g 0 r) 0 n) (hr : r.length ≤ n) : slice f a r.length = r := by
  rw [← take_slice f a hr, h, take_slice _ 0 hr, slice_patch_same]

theorem Layout.alternate_eq_of_pos (l : Layout b) (hdrive : l.driveSectors < b.storageSize)
    (hpos : 0 < l.driveSectors) :
    (UInt64.ofNat (b.storage (l.driveSectors + (b.storageSize - 1)))).toNat = l.driveSectors - 1 := by
  have hsize := b.storageSize_pos
  have hsplit : l.driveSectors + (b.storageSize - 1) = l.driveSectors - 1 + b.storageSize := by omega
  have hlt : l.driveSectors - 1 < b.storageSize := by omega
  rw [hsplit, Build.storage, Nat.add_mod_right, Nat.mod_eq_of_lt hlt]
  exact UInt64.toNat_ofNat_of_lt' (Build.lt_u64 hlt)

theorem Layout.Roomy.alternate_eq (hl : l.Roomy) :
    (UInt64.ofNat (b.storage (l.driveSectors + (b.storageSize - 1)))).toNat = l.driveSectors - 1 := by
  have := hl.room
  exact l.alternate_eq_of_pos hl.drive_lt (by omega)

/-- A device with both tables, and then the first sectors of three buffers with a primary header, a
secondary header and a protective MBR in front. -/
def headersWritten (l : Layout b) (parts : List (PartInfo b)) (diskGuid : Uuid) (f u v w : Nat → UInt8) : Nat → UInt8 :=
  patch (patch (patch (tablesWritten l parts f l.numPartitionTableSectors)
    (1 * l.sectorSize)
      (slice (patch u 0 (sealed (primaryHeader l diskGuid (arrayCrc l parts))).encode) 0 l.sectorSize))
    ((l.driveSectors - 1) * l.sectorSize)
      (slice (patch v 0 (sealed (secondaryHeader l (primaryHeader l diskGuid (arrayCrc l parts)))).encode) 0
        l.sectorSize))
    (0 * l.sectorSize) (slice (patch w 0 (protectiveMbr l)) 0 l.sectorSize)

section Written
variable {diskGuid : Uuid} {f u v w : Nat → UInt8}

private theorem length_sector (g : Nat → UInt8) : (slice g 0 l.sectorSize).length = 1 * l.sectorSize := by
  rw [slice_length, Nat.one_mul]

variable (parts diskGuid f u v w)

theorem headersWritten_primary (hl : l.Roomy) :
    slice (headersWritten l parts diskGuid f u v w) l.sectorSize l.sectorSize =
      slice (patch u 0 (sealed (primaryHeader l diskGuid (arrayCrc l parts))).encode) 0 l.sectorSize := by
  have hroom := hl.room
  have hfirst := hl.first_le
  have hkept : slice (headersWritten l parts diskGuid f u v w) (1 * l.sectorSize) (1 * l.sectorSize) =
      slice (patch u 0 (sealed (primaryHeader l diskGuid (arrayCrc l parts))).encode) 0 l.sectorSize := by
    rw [headersWritten, slice_patch_blocks _ _ (length_sector _) (by omega),
      slice_patch_blocks _ _ (length_sector _) (by omega), Nat.one_mul, slice_patch_slice]
  rwa [Nat.one_mul] at hkept

theorem headersWritten_secondary (hl : l.Roomy) :
    slice (headersWritten l parts diskGuid f u v w) ((l.driveSectors - 1) * l.sectorSize) l.sectorSize =
      slice (patch v 0 (sealed (secondaryHeader l (primaryHeader l diskGuid (arrayCrc l parts)))).encode) 0
        l.sectorSize := by
  have hroom := hl.room
  have hfirst := hl.first_le
  have hkept : slice (headersWritten l parts diskGuid f u v w) ((l.driveSectors - 1) * l.sectorSize)
    (1 * l.sectorSize) =
      slice (patch v 0 (sealed (secondaryHeader l (primaryHeader l diskGuid (arrayCrc l parts)))).encode) 0
        l.sectorSize := by
    rw [headersWritten, slice_patch_blocks _ _ (length_sector _) (by omega), Nat.one_mul, slice_patch_slice]
  rwa [Nat.one_mul] at hkept

theorem headersWritten_headers (hl : l.Roomy) :
    slice (headersWritten l parts diskGuid f u v w) 0 512 = protectiveMbr l ∧
      slice (headersWritten l parts diskGuid f u v w) l.sectorSize GPT_HEADER_SIZE =
        (sealed (primaryHeader l diskGuid (arrayCrc l parts))).encode ∧
      slice (headersWritten l parts diskGuid f u v w) ((l.driveSectors - 1) * l.sectorSize) GPT_HEADER_SIZE =
        (sealed (secondaryHeader l (primaryHeader l diskGuid (arrayCrc l parts)))).encode := by
  have hmin : 512 ≤ l.sectorSize := hl.min_le
  have hheader : ∀ h : GptHeader, h.encode.length ≤ l.sectorSize := fun h => by
    rw [GptHeader.length_encode]
    exact Nat.le_trans (by decide) hmin
  have hmbr : slice (headersWritten l parts diskGuid f u v w) (0 * l.sectorSize) l.sectorSize =
      slice (patch w 0 (protectiveMbr l)) 0 l.sectorSize := by
    rw [headersWritten, slice_patch_slice]
  refine ⟨?_, ?_, ?_⟩
  · have h := sector_start hmbr (by rw [length_protectiveMbr]; exact hmin)
    rwa [length_protectiveMbr, Nat.zero_mul] at h
  · have h := sector_start (headersWritten_primary parts diskGuid f u v w hl) (hheader _)
    rwa [GptHeader.length_encode] at h
  · have h := sector_start (headersWritten_secondary parts diskGuid f u v w hl) (hheader _)
    rwa [GptHeader.length_encode] at h

variable {parts diskGuid f u v w}

theorem headersWritten_other (hzero : l.numPartitionTableSectors = 0) {s n : Nat} (hs : 2 ≤ s)
    (hend : s + n ≤ l.driveSectors - 1) :
    slice (headersWritten l parts diskGuid f u v w) (s * l.sectorSize) (n * l.sectorSize) =
      slice f (s * l.sectorSize) (n * l.sectorSize) := by
  rw [headersWritten, slice_patch_blocks _ _ (length_sector _) (by omega),
    slice_patch_blocks _ _ (length_sector _) (by omega), slice_patch_blocks _ _ (length_sector _) (by omega),
    tablesWritten, hzero, Nat.zero_mul, slice_zero, patch_nil, patch_nil]

/-- Later writes leave alone what the earlier ones have put on the device. -/
theorem headersWritten_partitioned (hl : l.Fits) :
    Partitioned l diskGuid parts (headersWritten l parts diskGuid f u v w) := by
  have hroom := hl.room
  have hapart := hl.tables_apart
  have hbackup := hl.backup_eq
  have htable := hl.table_pos
  have harray : (slice (arrayBytes l parts) 0 (l.numPartitionTableSectors * l.sectorSize)).length =
      l.numPartitionTableSectors * l.sectorSize := slice_length ..
  obtain ⟨hmbr, hprimary, hsecondary⟩ := headersWritten_headers parts diskGuid f u v w hl.toRoomy
  refine ⟨⟨hmbr, hprimary, ?_⟩, hsecondary, ?_⟩
  · rw [headersWritten, ← hl.table_mul, tablesWritten, slice_patch_blocks _ _ (length_sector _) (by omega),
      slice_patch_blocks _ _ (length_sector _) (by omega), slice_patch_blocks _ _ (length_sector _) (by omega),
      slice_patch_blocks _ _ harray (by omega), slice_patch_slice]
  · rw [headersWritten, ← hl.table_mul, tablesWritten, slice_patch_blocks _ _ (length_sector _) (by omega),
      slice_patch_blocks _ _ (length_sector _) (by omega), slice_patch_blocks _ _ (length_sector _) (by omega),
      slice_patch_slice]

end Written

section Device
variable {σ : Type} [LawfulDevice σ] {d₀ d d' : σ} {f : Nat → UInt8}

/-- What is written behind the loop comes from its buffer, with the bytes behind a header in front of it. -/
theorem writeTables_written (hl : l.Roomy) (hcap : Device.capacity d₀ = l.driveSectors * l.sectorSize)
    {env : FormatEnv} {buffer : Nat → UInt8} {diskGuid : Uuid} (h : Holds d₀ d f)
    (hrun : writeTables l env buffer diskGuid parts d = (true, d')) :
    ∃ st d₁ u v w guid, entryLoop l GPT_ITEMS 0 ⟨buffer, 0, parts⟩ d = (some st, d₁) ∧
      guid = (if diskGuid.isNull then env.generated else diskGuid) ∧
      u = patch st.buffer GPT_HEADER_SIZE env.headerPadding ∧
      v = patch u 0 (sealed (primaryHeader l guid (arrayCrc l parts))).encode ∧
      Holds d₀ d' (headersWritten l parts guid f u v w) ∧
      LawfulDevice.medium d' = headersWritten l parts guid f u v w := by
  have hroom := hl.room
  have hfirst := hl.first_le
  rw [writeTables] at hrun
  split at hrun
  · cases hrun
  · rename_i st d₁ hloop
    obtain ⟨hbcc, h₁⟩ := entryLoop_holds hl hcap h hloop
    dsimp only at hrun
    rw [hbcc] at hrun
    split at hrun
    · cases hrun
    · rename_i d₂ hw₂
      split at hrun
      · cases hrun
      · rename_i d₃ hw₃
        split at hrun
        · cases hrun
        · rename_i d₄ hw₄
          generalize (if diskGuid.isNull then env.generated else diskGuid) = guid at hw₂ hw₃ hw₄ ⊢
          have hmy : (primaryHeader l guid (arrayCrc l parts)).myLba.toNat = 1 := rfl
          have halternate : (secondaryHeader l (primaryHeader l guid (arrayCrc l parts))).myLba.toNat =
            l.driveSectors - 1 :=
            hl.alternate_eq
          rw [hmy] at hw₂
          rw [halternate] at hw₃
          have h₂ := writeSector_holds hl hcap h₁ (by omega) hw₂
          have h₃ := writeSector_holds hl hcap h₂ (by omega) hw₃
          have h₄ := writeSector_holds hl hcap h₃ (by omega) hw₄
          obtain ⟨h₅, hmedium⟩ := h₄.sync hrun
          exact ⟨st, d₁, _, _, _, guid, hloop, rfl, rfl, rfl, h₅, hmedium⟩

theorem writeTables_partitioned (hl : l.Fits) (hcap : Device.capacity d₀ = l.driveSectors * l.sectorSize)
    {env : FormatEnv} {buffer : Nat → UInt8} {diskGuid : Uuid} (h : Holds d₀ d f)
    (hrun : writeTables l env buffer diskGuid parts d = (true, d')) :
    ∃ f', Holds d₀ d' f' ∧ LawfulDevice.medium d' = f' ∧
      Partitioned l (if diskGuid.isNull then env.generated else diskGuid) parts f' := by
  obtain ⟨_, _, u, v, w, guid, _, hguid, _, _, hholds, hmedium⟩ := writeTables_written hl.toRoomy hcap h hrun
  rw [← hguid]
  exact ⟨_, hholds, hmedium, headersWritten_partitioned hl⟩

end Device

section Headers
variable {g : Nat → UInt8} {h : GptHeader}

private theorem headerCrc_sealed (hg : slice g 0 GPT_HEADER_SIZE = (sealed h).encode) (hzero : h.headerCrc32 = 0) :
    headerCrc g GPT_HEADER_SIZE = crc32 0 h.encode := by
  obtain ⟨front, back, hfront, hback, hencode⟩ := h.encode_checksum
  have hsplit : ∀ f : Nat → UInt8, slice f 0 GPT_HEADER_SIZE = slice f 0 16 ++ (slice f 16 4 ++ slice f 20 72) := by
    intro f
    rw [GPT_HEADER_SIZE, show 92 = 16 + (4 + 72) from rfl, slice_add, slice_add]
  rw [hsplit, sealed, hencode] at hg
  obtain ⟨h₁, hrest⟩ := List.append_inj hg (by rw [slice_length, hfront])
  obtain ⟨_, h₂⟩ := List.append_inj hrest (by rw [slice_length, length_le32])
  have hheader : h.encode = front ++ (le32 0 ++ back) := by
    rw [← hencode, ← hzero]
  have hfield : slice (patch g 16 (le32 0)) 16 4 = le32 0 := slice_patch_same g 16 (le32 0)
  rw [headerCrc, hsplit, hfield, slice_patch_disjoint g _ (Or.inl (Nat.le_refl 16)),
    slice_patch_disjoint g _ (Or.inr (by rw [length_le32])), h₁, h₂, hheader]

/-- A sealed header of the right kind is valid. -/
theorem verifyGptHeader_sealed (hg : slice g 0 GPT_HEADER_SIZE = (sealed h).encode) (hzero : h.headerCrc32 = 0)
    (hsignature : h.signature = GPT_HEADER_SIGNATURE) (hrevision : h.revision = GPT_HEADER_REVISION_V1)
    (hsize : h.headerSize = .ofNat GPT_HEADER_SIZE) (hentry : h.sizeofPartitionEntry = .ofNat GPT_ENTRY_SIZE)
    (hnum : h.numPartitionEntries = .ofNat GPT_ITEMS) : verifyGptHeader g = true := by
  have hcrc := headerCrc_sealed hg hzero
  have hsize' : h.headerSize.toNat = GPT_HEADER_SIZE := by
    rw [hsize]
    rfl
  rw [verifyGptHeader, GptHeader.decode_of_slice hg]
  simp only [sealed, hsignature, hrevision, hsize', hcrc, hentry, hnum, beq_self_eq_true]
  rfl

end Headers

/-- A sector size that a build supports. -/
structure SupportedSectorSize (b : Build) (sectorSize : Nat) : Prop extends SectorUnit sectorSize where
  le_max : sectorSize ≤ b.maxSectorSize

/-- A device that formatDisk accepts: its sector size is supported, its size is a `storage_size_t`, and
the number of allocatable sectors does not underflow. -/
structure Formattable {σ : Type} [Device σ] (b : Build) (device : σ) : Prop where
  supported : SupportedSectorSize b (Device.getSectorSize device)
  size_lt : Device.capacity device < b.storageSize
  room : (⟨Device.getSectorSize device, Device.getSectorCount device⟩ : Layout b).firstAllocatableSector +
    ((⟨Device.getSectorSize device, Device.getSectorCount device⟩ : Layout b).numPartitionTableSectors + 1) ≤
      Device.getSectorCount device

/-- A device that formatDisk is meant for: the entries fill whole sectors of it. -/
structure Suitable {σ : Type} [Device σ] (b : Build) (device : σ) : Prop extends Formattable b device where
  aligned : Device.getSectorSize device ∣ GPT_ITEMS * GPT_ENTRY_SIZE

section Suitable
variable {σ : Type} [Device σ] {device : σ}

theorem SupportedSectorSize.choose (h : SupportedSectorSize b (Device.getSectorSize device)) :
    chooseSectorSize b device = some (Device.getSectorSize device) := by
  have hmin := h.min_le
  have hmax := h.le_max
  rw [chooseSectorSize]
  split
  · have hmod : Device.getSectorSize device % 2 ^ 16 = Device.getSectorSize device := Nat.mod_eq_of_lt h.lt
    have hlog : isLog2 (Device.getSectorSize device) = true := beq_iff_eq.mpr h.pow
    dsimp only
    rw [hmod, if_neg]
    rw [not_or, not_or, hlog]
    exact ⟨Nat.not_lt.mpr hmax, Nat.not_lt.mpr hmin, Bool.false_ne_true⟩
  · rename_i heq
    rw [of_not_not heq] at hmax ⊢
    exact congrArg some (Nat.le_antisymm hmin hmax)

theorem Formattable.count_eq (h : Formattable b device) :
    b.storage (Device.getSectorCount device) = Device.getSectorCount device :=
  Build.storage_of_lt (Nat.lt_of_le_of_lt (Nat.le_mul_of_pos_right _ h.supported.pos) h.size_lt)

theorem Formattable.roomy (h : Formattable b device) :
    Layout.Roomy (b := b) ⟨Device.getSectorSize device, Device.getSectorCount device⟩ :=
  ⟨h.supported.toSectorUnit, h.room, h.size_lt⟩

theorem Suitable.fits (h : Suitable b device) :
    Layout.Fits (b := b) ⟨Device.getSectorSize device, Device.getSectorCount device⟩ :=
  ⟨h.roomy, h.aligned⟩

end Suitable

/-- A call of formatDisk that returns Success has validated the table and written it. -/
theorem formatDisk_success {σ : Type} [Device σ] {device : σ} {env : FormatEnv} {pt table : List (PartInfo b)}
    {diskGuid : Uuid} {result : Formatted b σ} (h : formatDisk env device pt table diskGuid = some result)
    (hok : result.err = .success) :
    ∃ sectorSize buffer parts, chooseSectorSize b device = some sectorSize ∧ env.buffer = some buffer ∧
      validate (Available.of b
        (⟨sectorSize, b.storage (Device.getSectorCount device)⟩ : Layout b).firstAllocatableSector
        (⟨sectorSize, b.storage (Device.getSectorCount device)⟩ : Layout b).allocatableSectors sectorSize) table =
          some (.returned .success parts) ∧
      writeTables ⟨sectorSize, b.storage (Device.getSectorCount device)⟩ env buffer diskGuid parts device =
        (true, result.device) ∧ result.partitions = parts ∧ result.table = [] := by
  rw [formatDisk] at h
  split at h
  · cases h
    cases hok
  · split at h
    · cases h
      cases hok
    · rename_i sectorSize hsize
      split at h
      · cases h
        cases hok
      · rename_i buffer hbuffer
        dsimp only at h
        split at h
        · cases h
        · cases h
        · rename_i err parts hvalidate
          split at h
          · rename_i herr
            subst herr
            split at h
            · cases h
              cases hok
            · rename_i device' hwrite
              cases h
              exact ⟨sectorSize, buffer, parts, hsize, hbuffer, hvalidate,
                hwrite, by rw [handOver_eq, List.nil_append], rfl⟩
          · rename_i herr
            cases h
            exact absurd hok herr

theorem Formattable.written {σ : Type} [Device σ] {device : σ} {env : FormatEnv} {pt table : List (PartInfo b)}
    {diskGuid : Uuid} {result : Formatted b σ} (hdevice : Formattable b device)
    (h : formatDisk env device pt table diskGuid = some result) (hok : result.err = .success) :
    ∃ buffer, validate (Available.of b
        (⟨Device.getSectorSize device, Device.getSectorCount device⟩ : Layout b).firstAllocatableSector
        (⟨Device.getSectorSize device, Device.getSectorCount device⟩ : Layout b).allocatableSectors
        (Device.getSectorSize device)) table = some (.returned .success result.partitions) ∧
      writeTables ⟨Device.getSectorSize device, Device.getSectorCount device⟩ env buffer diskGuid result.partitions
        device = (true, result.device) := by
  obtain ⟨sectorSize, buffer, parts, hsize, _, hvalidate, hwrite, rfl, _⟩ := formatDisk_success h hok
  rw [hdevice.supported.choose] at hsize
  cases hsize
  rw [hdevice.count_eq] at hvalidate hwrite
  exact ⟨buffer, hvalidate, hwrite⟩

/-- The protective MBR, the headers, the arrays and the usable sectors, from the first sector up to
the one behind the last. -/
def regions (primary secondary : GptHeader) (arraySectors : Nat) : List (Nat × Nat) :=
  [(0, 1), (primary.myLba.toNat, primary.myLba.toNat + 1), (secondary.myLba.toNat, secondary.myLba.toNat + 1),
    (primary.partitionEntryLba.toNat, primary.partitionEntryLba.toNat + arraySectors),
    (secondary.partitionEntryLba.toNat, secondary.partitionEntryLba.toNat + arraySectors),
    (primary.firstUsableLba.toNat, primary.lastUsableLba.toNat + 1)]

/-- The sectors that an entry array takes. -/
def arraySectors (sectorSize : Nat) : Nat := (128 * GPT_ENTRY_SIZE + (sectorSize - 1)) / sectorSize

/-- On a disk of so many sectors there are valid headers in the sectors 1 and the last one, which
refer to each other and to equal entry arrays with the checksum that they give, and a protective
MBR. All of these and the usable sectors are apart and inside the disk. -/
structure Consistent (f : Nat → UInt8) (sectorSize driveSectors : Nat) (primary secondary : GptHeader) : Prop where
  primary_eq : GptHeader.decode f (1 * sectorSize) = primary
  secondary_eq : GptHeader.decode f ((driveSectors - 1) * sectorSize) = secondary
  primary_valid : verifyGptHeader (fun i => f (1 * sectorSize + i)) = true
  secondary_valid : verifyGptHeader (fun i => f ((driveSectors - 1) * sectorSize + i)) = true
  myLba : primary.myLba.toNat = 1 ∧ secondary.myLba.toNat = driveSectors - 1
  alternateLba : primary.alternateLba = secondary.myLba ∧ secondary.alternateLba = primary.myLba
  entries : primary.numPartitionEntries.toNat = 128 ∧ secondary.numPartitionEntries.toNat = 128
  arrays_eq : slice f (primary.partitionEntryLba.toNat * sectorSize) (128 * GPT_ENTRY_SIZE) =
    slice f (secondary.partitionEntryLba.toNat * sectorSize) (128 * GPT_ENTRY_SIZE)
  primary_crc : primary.partitionEntryArrayCrc32 =
    crc32 0 (slice f (primary.partitionEntryLba.toNat * sectorSize) (128 * GPT_ENTRY_SIZE))
  secondary_crc : secondary.partitionEntryArrayCrc32 =
    crc32 0 (slice f (secondary.partitionEntryLba.toNat * sectorSize) (128 * GPT_ENTRY_SIZE))
  protectiveMbr : mbrSignature f = MSDOS_MBR_SIGNATURE ∧ (mbrRecord f 0).osType = EFI_PMBR_OSTYPE_EFI_GPT
  regions_apart : List.Pairwise (Extents.Apart Prod.fst Prod.snd)
    (regions primary secondary (arraySectors sectorSize))
  regions_inside : ∀ r ∈ regions primary secondary (arraySectors sectorSize),
    Extents.extent Prod.fst Prod.snd r ⊆ Set.Ico 0 driveSectors

section Partitioned
variable {f : Nat → UInt8} {diskGuid : Uuid} {crc : UInt32}

theorem Listed.mbr_eq (h : Listed l diskGuid crc parts f) : f = patch f 0 (protectiveMbr l) := by
  rw [← h.mbr, patch_slice_self]

theorem Listed.signature (h : Listed l diskGuid crc parts f) : mbrSignature f = MSDOS_MBR_SIGNATURE := by
  rw [h.mbr_eq, mbrSignature, ← Nat.zero_add MBR_SIGNATURE]
  apply read16_patch (by rw [length_protectiveMbr, MBR_SIGNATURE])
  have hboot : (List.replicate MBR_RECORDS (0 : UInt8)).length = 446 := List.length_replicate
  have hrecord : (protectiveRecord l).encode.length = 16 := MbrRecord.length_encode _
  have hrest : (List.replicate (3 * MBR_RECORD_SIZE) (0 : UInt8)).length = 48 := List.length_replicate
  rw [protectiveMbr, MBR_SIGNATURE, field_append_skip (by omega), field_append_skip (by omega),
    field_append_skip (by omega), hboot, hrecord, hrest]
  exact field_self (length_le16 _)

theorem Listed.record (h : Listed l diskGuid crc parts f) :
    (mbrRecord f 0).osType = EFI_PMBR_OSTYPE_EFI_GPT := by
  have hslice : slice (patch f 0 (protectiveMbr l)) (0 + MBR_RECORDS) MBR_RECORD_SIZE =
      field (protectiveMbr l) MBR_RECORDS MBR_RECORD_SIZE :=
    slice_patch f 0 (by rw [length_protectiveMbr, MBR_RECORDS, MBR_RECORD_SIZE]; decide)
  have hfield : field (protectiveMbr l) MBR_RECORDS MBR_RECORD_SIZE = (protectiveRecord l).encode := by
    rw [protectiveMbr, field_append_skip (by rw [List.length_replicate]), List.length_replicate, Nat.sub_self,
      field_append_here (MbrRecord.length_encode _)]
  rw [← h.mbr_eq, Nat.zero_add, hfield] at hslice
  rw [mbrRecord, Nat.zero_mul, Nat.add_zero, MbrRecord.decode_of_slice hslice]
  rfl

theorem Listed.boot_code (h : Listed l diskGuid crc parts f) {i : Nat} (hi : i < MBR_RECORDS) : f i = 0 := by
  have hboot : (List.replicate MBR_RECORDS (0 : UInt8)).length = MBR_RECORDS := List.length_replicate
  have hbyte := patch_inside f 0 (List.replicate MBR_RECORDS (0 : UInt8)) (i := i) (by rw [hboot]; exact hi)
  rw [h.mbr_eq, protectiveMbr, patch_append, patch_below _ _ (by rw [hboot, Nat.zero_add]; exact hi), ← Nat.zero_add i,
    hbyte, List.getElem_replicate]

theorem Listed.entry_bytes (h : Listed l diskGuid crc parts f) {i : Nat} (hi : i < GPT_ITEMS) :
    slice f (2 * l.sectorSize + i * GPT_ENTRY_SIZE) GPT_ENTRY_SIZE = entryBytes l parts i := by
  have hfit : (i + 1) * GPT_ENTRY_SIZE ≤ GPT_ITEMS * GPT_ENTRY_SIZE := Nat.mul_le_mul_right _ hi
  rw [Nat.succ_mul] at hfit
  have hbytes := slice_inside h.entries hfit
  rwa [Nat.zero_add, slice_arrayBytes] at hbytes

theorem Listed.decode_entry (h : Listed l diskGuid crc parts f) {i : Nat} (hi : i < GPT_ITEMS)
    {part : PartInfo b} (hpart : parts[i]? = some part) :
    GptEntry.decode f (2 * l.sectorSize + i * GPT_ENTRY_SIZE) = entryOf l.shift part := by
  have hbytes := h.entry_bytes hi
  rw [entryBytes, hpart, Option.elim_some] at hbytes
  exact GptEntry.decode_of_slice hbytes

theorem Partitioned.consistent (hl : l.Fits) (h : Partitioned l diskGuid parts f) :
    Consistent f l.sectorSize l.driveSectors (sealed (primaryHeader l diskGuid (arrayCrc l parts)))
      (sealed (secondaryHeader l (primaryHeader l diskGuid (arrayCrc l parts)))) := by
  have hroom := hl.room
  have hfirst := hl.first_le
  have hdrive := Build.lt_u64 hl.drive_lt
  have hbackup := hl.backup_eq
  have hapart := hl.tables_apart
  have htable := hl.table_pos
  have hsectors : arraySectors l.sectorSize = l.numPartitionTableSectors := by
    have hpos := hl.size_pos
    rw [arraySectors, show 128 * GPT_ENTRY_SIZE = GPT_ITEMS * GPT_ENTRY_SIZE from rfl, ← hl.table_mul, Nat.mul_comm,
      Nat.mul_add_div hpos, Nat.div_eq_of_lt (by omega), Nat.add_zero]
  have hstart : ∀ {a : Nat} {r : List UInt8}, slice f a GPT_HEADER_SIZE = r →
      slice (fun i => f (a + i)) 0 GPT_HEADER_SIZE = r := by
    intro a r hr
    rw [← hr]
    apply List.map_congr_left
    intro i _
    rw [Nat.zero_add]
  have hprimary : slice f (1 * l.sectorSize) GPT_HEADER_SIZE = _ := (Nat.one_mul l.sectorSize).symm ▸ h.primary
  have hlba : (2 : UInt64).toNat = 2 := rfl
  have hbackupLba : (UInt64.ofNat l.backupPartitionTableSector).toNat = l.backupPartitionTableSector :=
    UInt64.toNat_ofNat_of_lt' (by rw [UInt64.size]; omega)
  have husable : (UInt64.ofNat (2 + l.numPartitionTableSectors)).toNat = 2 + l.numPartitionTableSectors :=
    UInt64.toNat_ofNat_of_lt' (by rw [UInt64.size]; omega)
  have hlast : (UInt64.ofNat l.backupPartitionTableSector - 1).toNat = l.backupPartitionTableSector - 1 := by
    rw [UInt64.toNat_sub_of_le _ _ (by rw [UInt64.le_iff_toNat_le, hbackupLba, UInt64.toNat_one]; omega), hbackupLba,
      UInt64.toNat_one]
  have hentries : (sealed (primaryHeader l diskGuid (arrayCrc l parts))).partitionEntryLba.toNat = 2 := rfl
  have hentries' : (sealed (secondaryHeader l (primaryHeader l diskGuid (arrayCrc l parts)))).partitionEntryLba.toNat =
      l.backupPartitionTableSector := hbackupLba
  have hmy : (sealed (primaryHeader l diskGuid (arrayCrc l parts))).myLba.toNat = 1 := rfl
  have hmy' : (sealed (secondaryHeader l (primaryHeader l diskGuid (arrayCrc l parts)))).myLba.toNat =
      l.driveSectors - 1 := hl.alternate_eq
  have hfirstUsable : (sealed (primaryHeader l diskGuid (arrayCrc l parts))).firstUsableLba.toNat =
      2 + l.numPartitionTableSectors := husable
  have hlastUsable : (sealed (primaryHeader l diskGuid (arrayCrc l parts))).lastUsableLba.toNat =
      l.backupPartitionTableSector - 1 := hlast
  have hregions : regions (sealed (primaryHeader l diskGuid (arrayCrc l parts)))
      (sealed (secondaryHeader l (primaryHeader l diskGuid (arrayCrc l parts)))) l.numPartitionTableSectors =
      [(0, 1), (1, 2), (l.driveSectors - 1, l.driveSectors - 1 + 1), (2, 2 + l.numPartitionTableSectors),
        (l.backupPartitionTableSector, l.backupPartitionTableSector + l.numPartitionTableSectors),
        (2 + l.numPartitionTableSectors, l.backupPartitionTableSector - 1 + 1)] := by
    rw [regions, hmy, hmy', hentries, hentries', hfirstUsable, hlastUsable]
  constructor
  · exact GptHeader.decode_of_slice hprimary
  · exact GptHeader.decode_of_slice h.secondary
  · exact verifyGptHeader_sealed (hstart hprimary) rfl rfl rfl rfl rfl rfl
  · exact verifyGptHeader_sealed (hstart h.secondary) rfl rfl rfl rfl rfl rfl
  · exact ⟨rfl, hl.alternate_eq⟩
  · exact ⟨rfl, rfl⟩
  · exact ⟨rfl, rfl⟩
  · rw [hentries, hentries']
    exact h.entries.trans h.backup.symm
  · rw [hentries]
    exact congrArg (crc32 0) h.entries.symm
  · rw [hentries']
    exact congrArg (crc32 0) h.backup.symm
  · exact ⟨h.signature, h.record⟩
  · rw [hsectors, hregions]
    have hpairs : List.Pairwise (fun x y : Nat × Nat => x.2 ≤ y.1 ∨ y.2 ≤ x.1) [(0, 1), (1, 2),
        (l.driveSectors - 1, l.driveSectors - 1 + 1), (2, 2 + l.numPartitionTableSectors),
        (l.backupPartitionTableSector, l.backupPartitionTableSector + l.numPartitionTableSectors),
        (2 + l.numPartitionTableSectors, l.backupPartitionTableSector - 1 + 1)] := by
      simp only [List.pairwise_cons, List.forall_mem_cons, List.not_mem_nil, List.Pairwise.nil, false_imp_iff,
        implies_true, and_true]
      omega
    exact hpairs.imp fun hxy => hxy.elim Extents.apart_of_le fun hle => (Extents.apart_of_le hle).symm
  · rw [hsectors, hregions]
    refine fun r hr => Extents.extent_subset (Nat.zero_le _) ?_
    simp only [List.mem_cons, List.not_mem_nil, or_false] at hr
    rcases hr with rfl | rfl | rfl | rfl | rfl | rfl <;> dsimp only <;> omega

end Partitioned

/-- A call that returns Success leaves the table on the medium, as validate has placed it. -/
theorem Suitable.formatted {σ : Type} [LawfulDevice σ] {env : FormatEnv} {device : σ} {pt table : List (PartInfo b)}
    {diskGuid : Uuid} {result : Formatted b σ} (hdevice : Suitable b device) (hready : LawfulDevice.Ready device)
    (hformat : formatDisk env device pt table diskGuid = some result) (hok : result.err = .success) :
    Layout.Fits (b := b) ⟨Device.getSectorSize device, Device.getSectorCount device⟩ ∧
      validate (Available.of b
        (⟨Device.getSectorSize device, Device.getSectorCount device⟩ : Layout b).firstAllocatableSector
        (⟨Device.getSectorSize device, Device.getSectorCount device⟩ : Layout b).allocatableSectors
        (Device.getSectorSize device)) table = some (.returned .success result.partitions) ∧
      ∃ guid, Partitioned (b := b) ⟨Device.getSectorSize device, Device.getSectorCount device⟩ guid result.partitions
        (LawfulDevice.medium result.device) := by
  obtain ⟨buffer, hvalidate, hwrite⟩ := hdevice.written hformat hok
  obtain ⟨f, _, rfl, hpartitioned⟩ := writeTables_partitioned hdevice.fits rfl (Holds.start hready) hwrite
  exact ⟨hdevice.fits, hvalidate, _, hpartitioned⟩

private theorem not_consistent (hl : l.Roomy) (hnot : ¬ l.sectorSize ∣ GPT_ITEMS * GPT_ENTRY_SIZE)
    {f : Nat → UInt8} {diskGuid : Uuid} {crc : UInt32}
    (hsecondary : slice f ((l.driveSectors - 1) * l.sectorSize) GPT_HEADER_SIZE =
      (sealed (secondaryHeader l (primaryHeader l diskGuid crc))).encode) {primary secondary : GptHeader} :
    ¬ Consistent f l.sectorSize l.driveSectors primary secondary := by
  intro h
  have hbackup := hl.backup_eq
  have hdrive := Build.lt_u64 hl.drive_lt
  have hpos := hl.size_pos
  have hheader : secondary = sealed (secondaryHeader l (primaryHeader l diskGuid crc)) :=
    h.secondary_eq.symm.trans (GptHeader.decode_of_slice hsecondary)
  have hmy : secondary.myLba.toNat = l.driveSectors - 1 := h.myLba.2
  have hentries : secondary.partitionEntryLba.toNat = l.driveSectors - 1 := by
    have hlba : (UInt64.ofNat l.backupPartitionTableSector).toNat = l.backupPartitionTableSector :=
      UInt64.toNat_ofNat_of_lt' (by rw [UInt64.size]; omega)
    rw [hl.table_zero hnot, Nat.sub_zero] at hbackup
    rw [hheader, ← hbackup]
    exact hlba
  have harray : 0 < arraySectors l.sectorSize := by
    rw [arraySectors]
    exact Nat.div_pos (by rw [GPT_ENTRY_SIZE]; omega) hpos
  have hapart := h.regions_apart
  simp only [regions, List.pairwise_cons, List.forall_mem_cons, hmy, hentries] at hapart
  have hdisjoint := hapart.2.2.1.2.1
  have hfirst : l.driveSectors - 1 ∈ Set.Ico (l.driveSectors - 1) (l.driveSectors - 1 + 1) :=
    ⟨Nat.le_refl _, Nat.lt_succ_self _⟩
  exact Set.disjoint_left.mp hdisjoint hfirst ⟨Nat.le_refl _, Nat.lt_add_of_pos_right harray⟩

theorem Formattable.aligned_of_consistent {σ : Type} [LawfulDevice σ] {env : FormatEnv} {device : σ}
    {pt table : List (PartInfo b)} {diskGuid : Uuid} {result : Formatted b σ} (hready : LawfulDevice.Ready device)
    (hdevice : Formattable b device) (hformat : formatDisk env device pt table diskGuid = some result)
    (hok : result.err = .success) {primary secondary : GptHeader}
    (h : Consistent (LawfulDevice.medium result.device) (Device.getSectorSize device) (Device.getSectorCount device)
      primary secondary) : Device.getSectorSize device ∣ GPT_ITEMS * GPT_ENTRY_SIZE := by
  by_contra hnot
  obtain ⟨buffer, _, hwrite⟩ := hdevice.written hformat hok
  obtain ⟨_, _, u, v, w, guid, _, _, _, _, _, hmedium⟩ :=
    writeTables_written hdevice.roomy rfl (Holds.start hready) hwrite
  rw [hmedium] at h
  exact not_consistent hdevice.roomy hnot (headersWritten_headers _ _ _ _ _ _ hdevice.roomy).2.2 h

/-- When formatDisk succeeds, the medium has a consistent GPT, whatever was on it before, exactly when the
entries fill whole sectors. -/
theorem formatted_gpt_consistent_iff {σ : Type} [LawfulDevice σ] (env : FormatEnv) (device : σ)
    (pt table : List (PartInfo b)) (diskGuid : Uuid) (result : Formatted b σ) (hready : LawfulDevice.Ready device)
    (hdevice : Formattable b device) (hformat : formatDisk env device pt table diskGuid = some result)
    (hok : result.err = .success) :
    (∃ primary secondary, Consistent (LawfulDevice.medium result.device) (Device.getSectorSize device)
      (Device.getSectorCount device) primary secondary) ↔
        Device.getSectorSize device ∣ GPT_ITEMS * GPT_ENTRY_SIZE := by
  constructor
  · rintro ⟨primary, secondary, hconsistent⟩
    exact hdevice.aligned_of_consistent hready hformat hok hconsistent
  · intro haligned
    have hsuitable : Suitable b device := ⟨hdevice, haligned⟩
    obtain ⟨hl, _, _, hparts⟩ := hsuitable.formatted hready hformat hok
    exact ⟨_, _, hparts.consistent hl⟩

section RamDisk

private theorem passEntry_ramDisk (index : Nat) (st : EntryLoop b) (d : RamDisk) :
    ∃ st' d', passEntry l index st d = (some st', d') ∧ True := by
  rw [passEntry]
  split
  · exact ⟨_, _, rfl, trivial⟩
  · exact ⟨_, _, rfl, trivial⟩

theorem formatDisk_ramDisk {env : FormatEnv} {buffer : Nat → UInt8} {d : RamDisk} {pt table parts : List (PartInfo b)}
    {sectorSize : Nat} (diskGuid : Uuid) (hne : table ≠ []) (hbuffer : env.buffer = some buffer)
    (hsize : chooseSectorSize b d = some sectorSize)
    (hvalidate : validate (Available.of b
      (⟨sectorSize, b.storage d.sectorCount⟩ : Layout b).firstAllocatableSector
      (⟨sectorSize, b.storage d.sectorCount⟩ : Layout b).allocatableSectors sectorSize) table =
        some (.returned .success parts)) :
    ∃ d', formatDisk env d pt table diskGuid = some ⟨.success, d', parts, []⟩ := by
  have hwrite : ∃ d', writeTables ⟨sectorSize, b.storage d.sectorCount⟩ env buffer diskGuid parts d = (true, d') := by
    have hloop : ∃ st d', entryLoop ⟨sectorSize, b.storage d.sectorCount⟩ GPT_ITEMS 0 ⟨buffer, 0, parts⟩ d =
      (some st, d') ∧
        True := entryLoop_goes trivial (fun st _ _ => passEntry_ramDisk _ st _) _
    obtain ⟨st, d₁, hloop, _⟩ := hloop
    rw [writeTables, hloop]
    exact ⟨_, rfl⟩
  obtain ⟨d', hwrite⟩ := hwrite
  refine ⟨d', ?_⟩
  rw [formatDisk, if_neg (by rwa [List.isEmpty_iff]), hsize, hbuffer]
  dsimp only
  rw [show Device.getSectorCount d = d.sectorCount from rfl, hvalidate]
  dsimp only
  rw [if_pos rfl, hwrite, handOver_eq, List.nil_append]

def verdictError : Verdict b → Error
  | .returned err _ => err
  | .aborted => .noMem

theorem formatDisk_of_verdict (env : FormatEnv) (d : RamDisk) (table : List (PartInfo b)) {buffer : Nat → UInt8}
    (hne : table ≠ []) (hbuffer : env.buffer = some buffer) {sectorSize : Nat}
    (hsize : chooseSectorSize b d = some sectorSize)
    (hverdict : (validate (Available.of b (⟨sectorSize, b.storage d.sectorCount⟩ : Layout b).firstAllocatableSector
      (⟨sectorSize, b.storage d.sectorCount⟩ : Layout b).allocatableSectors sectorSize) table).map verdictError =
        some .success) :
    ∃ result, formatDisk env d [] table Uuid.null = some result ∧ result.err = .success := by
  obtain ⟨v, hv, heq⟩ := Option.map_eq_some_iff.mp hverdict
  cases v with
  | aborted => cases heq
  | returned err parts =>
    obtain rfl : err = .success := heq
    have hformat : ∃ d', formatDisk env d [] table Uuid.null = some ⟨.success, d', parts, []⟩ :=
      formatDisk_ramDisk Uuid.null hne hbuffer hsize hv
    obtain ⟨d', hformat⟩ := hformat
    exact ⟨_, hformat, rfl⟩

/-- One partition for all of a 4 MiB disk. -/
theorem formatted_gpt_consistent_four_mib : ∃ result,
    formatDisk (b := ⟨true, true, true, 512⟩) ⟨some fun _ => 0, Uuid.null, []⟩ (⟨fun _ => 0xff, 512, 8192⟩ : RamDisk) []
        [PartInfo.new [0x61] ⟨1, 0⟩ 0 100] Uuid.null = some result ∧ result.err = .success ∧
      ∃ primary secondary, Consistent (LawfulDevice.medium result.device) 512 8192 primary secondary := by
  obtain ⟨result, hformat, hok⟩ := formatDisk_of_verdict (b := ⟨true, true, true, 512⟩) ⟨some fun _ => 0, Uuid.null, []⟩
    ⟨fun _ => 0xff, 512, 8192⟩ [PartInfo.new [0x61] ⟨1, 0⟩ 0 100] (List.cons_ne_nil _ _) rfl rfl (by decide +kernel)
  refine ⟨result, hformat, hok, (formatted_gpt_consistent_iff _ _ _ _ _ _ trivial ?_ hformat hok).mpr (by decide)⟩
  exact ⟨⟨⟨by decide, by decide, by decide⟩, by decide⟩, by decide, by decide +kernel⟩

/-- A disk of 1000 sectors of 32768 bytes, as large as a `uint16_t` allows, with one partition of 40 percent. -/
theorem inconsistent_of_large_sectors : ∃ result,
    formatDisk (b := ⟨true, true, true, 32768⟩) ⟨some fun _ => 0, Uuid.null, []⟩
        (⟨fun _ => 0xff, 32768, 1000⟩ : RamDisk) [] [PartInfo.new [0x61] ⟨1, 0⟩ 0 40] Uuid.null = some result ∧
      result.err = .success ∧
      ¬ ∃ primary secondary, Consistent (LawfulDevice.medium result.device) 32768 1000 primary secondary := by
  obtain ⟨result, hformat, hok⟩ := formatDisk_of_verdict (b := ⟨true, true, true, 32768⟩)
    ⟨some fun _ => 0, Uuid.null, []⟩ ⟨fun _ => 0xff, 32768, 1000⟩ [PartInfo.new [0x61] ⟨1, 0⟩ 0 40]
    (List.cons_ne_nil _ _) rfl rfl (by decide +kernel)
  have hdevice : Formattable ⟨true, true, true, 32768⟩ (⟨fun _ => 0xff, 32768, 1000⟩ : RamDisk) :=
    ⟨⟨⟨by decide, by decide, by decide⟩, by decide⟩, by decide, by decide +kernel⟩
  refine ⟨result, hformat, hok, ?_⟩
  rintro ⟨primary, secondary, hconsistent⟩
  have hdvd : 32768 ∣ GPT_ITEMS * GPT_ENTRY_SIZE := hdevice.aligned_of_consistent trivial hformat hok hconsistent
  exact absurd hdvd (by decide)

end RamDisk

end GPT

end DiskStorage
