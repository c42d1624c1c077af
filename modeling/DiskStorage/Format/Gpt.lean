import DiskStorage.Scanner.Model
import DiskStorage.Validate.Model
import DiskStorage.Lib.Extents

/-! Partitioning a device in GPT format. -/
namespace DiskStorage
open ByteStore LittleEndian

/-- What formatDisk takes from outside: the memory of the working buffer, if it can be
allocated, the GUID that `generate` makes, and the bytes that `gpt_header_t` has behind its
92 bytes on some targets. -/
structure FormatEnv where
  buffer : Option (Nat → UInt8)
  generated : Uuid
  headerPadding : List UInt8

/-- What a call of formatDisk leaves: the device, its partitions and the caller's table. -/
structure Formatted (b : Build) (σ : Type) where
  err : Error
  device : σ
  partitions : List (PartInfo b)
  table : List (PartInfo b)

/-- `while(!table.isEmpty()) pt.add(table.pop())` -/
def handOver {b : Build} : List (PartInfo b) → List (PartInfo b) → List (PartInfo b)
  | pt, [] => pt
  | pt, part :: table => handOver (pt ++ [part]) table

@[simp] theorem handOver_eq {b : Build} (pt table : List (PartInfo b)) : handOver pt table = pt ++ table := by
  induction table generalizing pt with
  | nil => exact (List.append_nil pt).symm
  | cons part table ih => rw [handOver, ih, List.append_assoc, List.singleton_append]

/-- `writeSectors` for one sector. -/
def writeSector {σ : Type} [Device σ] (b : Build) (shift : Nat) (device : σ) (sector : Nat) (buffer : Nat → UInt8) :
    Bool × σ :=
  Device.write device (sectorAddress b shift sector) (slice buffer 0 (2 ^ shift))

namespace GPT

/-- The sectors of a device as formatDisk divides them. -/
structure Layout (b : Build) where
  sectorSize : Nat
  driveSectors : Nat

namespace Layout
variable {b : Build} (l : Layout b)

def shift : Nat := getSizeBits l.sectorSize

/-- Partition alignment for GPT [sector] -/
def partAlignSectors : Nat := PARTITION_ALIGN / 2 ^ l.shift

/-- Size of partition table [sector] -/
def numPartitionTableSectors : Nat := GPT_ITEMS * GPT_ENTRY_SIZE / 2 ^ l.shift

/-- The number of values of the type of `driveSectors - numPartitionTableSectors - 1`. -/
def commonSize (b : Build) : Nat := if b.size64 || b.sizeT64 then 2 ^ 64 else 2 ^ 32

def backupPartitionTableSector : Nat :=
  (l.driveSectors + (commonSize b - l.numPartitionTableSectors - 1)) % commonSize b

/-- `align_up`, for an alignment that is a power of two. -/
def firstAllocatableSector : Nat := Extents.roundUp (2 + l.numPartitionTableSectors) l.partAlignSectors

def allocatableSectors : Nat := u64 (l.backupPartitionTableSector + (2 ^ 64 - l.firstAllocatableSector))

def entriesPerSector : Nat := l.sectorSize / GPT_ENTRY_SIZE

/-- The range that formatDisk gives to validate. -/
def available : Available b := Available.of b l.firstAllocatableSector l.allocatableSectors l.sectorSize

/-- The sectors that are not for partitions: those in front of the first boundary, and the backup. -/
def reserved : Nat := l.firstAllocatableSector + (l.numPartitionTableSectors + 1)

end Layout

/-- The sectors of a device, for this sector size. -/
def layoutOf (b : Build) {σ : Type} [Device σ] (device : σ) (sectorSize : Nat) : Layout b :=
  ⟨sectorSize, b.storage (Device.getSectorCount device)⟩

/-- Conversion of a `char` to `uint16_t`. -/
def widen (b : Build) (c : UInt8) : UInt16 := c.toUInt16 + if b.signedChar && decide (0x80 ≤ c) then 0xff00 else 0

/-- The name of an entry: the characters of a name up to a zero, as many as there is room for. -/
def partitionName (b : Build) (name : List UInt8) : Fin 36 → UInt16 := fun j =>
  ((name.takeWhile fun c => c != 0)[j.val]?).elim 0 (widen b)

/-- The entry for a partition. -/
def entryOf {b : Build} (shift : Nat) (part : PartInfo b) : GptEntry where
  partitionTypeGuid := part.typeGuid
  uniquePartitionGuid := part.uniqueGuid
  startingLba := .ofNat (part.offset / 2 ^ shift)
  endingLba := .ofNat (u64 (part.offset + part.size) / 2 ^ shift) - 1
  attributes := 0
  partitionName := partitionName b part.name

/-- The locals of the loop over the entries: the working buffer, the checksum so far, and
the partitions from the iterator on. -/
structure EntryLoop (b : Build) where
  buffer : Nat → UInt8
  bcc : UInt32
  part : List (PartInfo b)

section
variable {b : Build} {σ : Type} [Device σ] (l : Layout b)

/-- The part of the body of the loop in front of the writes. -/
def addEntry (partitionIndex : Nat) (st : EntryLoop b) : EntryLoop b :=
  let i := partitionIndex % l.entriesPerSector
  let buffer := if i = 0 then patch st.buffer 0 (List.replicate l.sectorSize 0) else st.buffer
  let buffer := match st.part with
    | part :: _ => patch buffer (i * GPT_ENTRY_SIZE) (entryOf l.shift part).encode
    | [] => buffer
  ⟨buffer, crc32 st.bcc (slice buffer (i * GPT_ENTRY_SIZE) GPT_ENTRY_SIZE), st.part.tail⟩

/-- The body of the loop; `none` when a write fails. -/
def passEntry (partitionIndex : Nat) (st : EntryLoop b) (device : σ) : Option (EntryLoop b) × σ :=
  let st := addEntry l partitionIndex st
  if partitionIndex % l.entriesPerSector + 1 = l.entriesPerSector then
    let entryRelativeSector := partitionIndex / l.entriesPerSector
    match writeSector b l.shift device (2 + entryRelativeSector) st.buffer with
    | (false, device) => (none, device)
    | (true, device) =>
      match writeSector b l.shift device (u64 (l.backupPartitionTableSector + entryRelativeSector)) st.buffer with
      | (false, device) => (none, device)
      | (true, device) => (some st, device)
  else (some st, device)

/-- The loop for the next entries, `partitionIndex` and those behind it. -/
def entryLoop : Nat → Nat → EntryLoop b → σ → Option (EntryLoop b) × σ
  | 0, _, st, device => (some st, device)
  | left + 1, partitionIndex, st, device =>
    match passEntry l partitionIndex st device with
    | (none, device) => (none, device)
    | (some st, device) => entryLoop left (partitionIndex + 1) st device

/-- The primary header, without its checksum. -/
def primaryHeader (diskGuid : Uuid) (bcc : UInt32) : GptHeader where
  signature := GPT_HEADER_SIGNATURE
  revision := GPT_HEADER_REVISION_V1
  headerSize := .ofNat GPT_HEADER_SIZE
  headerCrc32 := 0
  reserved1 := 0
  myLba := 1
  alternateLba := .ofNat (b.storage (l.driveSectors + (b.storageSize - 1)))
  firstUsableLba := .ofNat (2 + l.numPartitionTableSectors)
  lastUsableLba := .ofNat l.backupPartitionTableSector - 1
  diskGuid := diskGuid
  partitionEntryLba := 2
  numPartitionEntries := .ofNat GPT_ITEMS
  sizeofPartitionEntry := .ofNat GPT_ENTRY_SIZE
  partitionEntryArrayCrc32 := bcc

/-- The secondary header, without its checksum. -/
def secondaryHeader (header : GptHeader) : GptHeader :=
  { header with
    myLba := header.alternateLba
    alternateLba := header.myLba
    partitionEntryLba := .ofNat l.backupPartitionTableSector }

/-- `header.header_crc32 = crc32(&header, GPT_HEADER_SIZE)` for a header without a checksum. -/
def sealed (header : GptHeader) : GptHeader := { header with headerCrc32 := crc32 0 header.encode }

/-- The record for the whole disk. -/
def protectiveRecord : MbrRecord where
  bootIndicator := 0
  startHead := 0
  startSector := 2
  startTrack := 0
  osType := EFI_PMBR_OSTYPE_EFI_GPT
  endHead := 0xff
  endSector := 0xff
  endTrack := 0xff
  startingLba := 1
  sizeInLba := .ofNat (min 0xffffffff (b.storage (l.driveSectors + (b.storageSize - 1))))

/-- `legacy_mbr_t` with that record, and nothing else but the signature. -/
def protectiveMbr : List UInt8 :=
  List.replicate MBR_RECORDS 0 ++ ((protectiveRecord l).encode ++
    (List.replicate (3 * MBR_RECORD_SIZE) 0 ++ le16 MSDOS_MBR_SIGNATURE))

/-- What formatDisk writes once the table is found valid, and whether all writes succeed. -/
def writeTables (env : FormatEnv) (buffer : Nat → UInt8) (diskGuid : Uuid) (table : List (PartInfo b)) (device : σ) :
    Bool × σ :=
  match entryLoop l GPT_ITEMS 0 ⟨buffer, 0, table⟩ device with
  | (none, device) => (false, device)
  | (some st, device) =>
    let header := primaryHeader l (if diskGuid.isNull then env.generated else diskGuid) st.bcc
    let buffer := patch (patch st.buffer GPT_HEADER_SIZE env.headerPadding) 0 (sealed header).encode
    match writeSector b l.shift device header.myLba.toNat buffer with
    | (false, device) => (false, device)
    | (true, device) =>
      let header := secondaryHeader l header
      let buffer := patch buffer 0 (sealed header).encode
      match writeSector b l.shift device header.myLba.toNat buffer with
      | (false, device) => (false, device)
      | (true, device) =>
        let buffer := patch buffer 0 (protectiveMbr l)
        match writeSector b l.shift device 0 buffer with
        | (false, device) => (false, device)
        | (true, device) => Device.sync device

end

/-- Create partitions in GPT format. The whole is `none` when validate does not return. -/
def formatDisk {b : Build} {σ : Type} [Device σ] (env : FormatEnv) (device : σ) (pt table : List (PartInfo b))
    (diskGuid : Uuid) : Option (Formatted b σ) :=
  if table.isEmpty then some ⟨.badParam, device, pt, table⟩
  else
    match chooseSectorSize b device with
    | none => some ⟨.badParam, device, pt, table⟩
    | some sectorSize =>
      match env.buffer with
      | none => some ⟨.noMem, device, pt, table⟩
      | some buffer =>
        let l : Layout b := ⟨sectorSize, b.storage (Device.getSectorCount device)⟩
        match validate (Available.of b l.firstAllocatableSector l.allocatableSectors sectorSize) table with
        | none | some .aborted => none
        | some (.returned err table) =>
          if err = .success then
            match writeTables l env buffer diskGuid table device with
            | (false, device) => some ⟨.writeFailure, device, pt, table⟩
            | (true, device) => some ⟨.success, device, handOver [] table, []⟩
          else some ⟨err, device, pt, table⟩

end GPT

end DiskStorage
