import DiskStorage.Device
import DiskStorage.DiskDefs

/-! The scanner that iterates through the partition tables of a device. -/
namespace DiskStorage
open ByteStore LittleEndian

/-- Max FAT12 clusters (differs from specs, but right for real DOS/Windows behavior) -/
def MAX_FAT12 : Nat := 0xFF5

/-- The number of characters of a volume label. -/
def MSDOS_NAME : Nat := 11

/-- What the scanner takes from outside: the partition types, how a UUID is printed, and the
memory of its two sector buffers with what lies behind them, if it can be allocated. -/
structure ScanEnv where
  types : PartitionTypes
  guidName : Uuid → List UInt8
  buffer : Option (Nat → UInt8)
  entryBuffer : Option (Nat → UInt8)

/-- Trailing blanks are left out. -/
def getLabel (s : List UInt8) : List UInt8 := (s.reverse.dropWhile fun c => c == 0x20).reverse

/-- The low bytes of the characters before the first zero. -/
def unicodeToOem (str : List UInt16) : List UInt8 := (str.takeWhile fun c => c != 0).map UInt16.toUInt8

def ascii (s : String) : List UInt8 := s.toList.map fun c => UInt8.ofNat c.toNat

/-- `isLog2` -/
def isLog2 (n : Nat) : Bool := n == 2 ^ getSizeBits n

/-- The checksum of a header in memory, over `header_size` bytes and with its own field zero. -/
def headerCrc (f : Nat → UInt8) (size : Nat) : UInt32 := crc32 0 (slice (patch f 16 (le32 0)) 0 size)

def verifyGptHeader (f : Nat → UInt8) : Bool :=
  let gpt := GptHeader.decode f 0
  gpt.signature == GPT_HEADER_SIGNATURE && gpt.revision == GPT_HEADER_REVISION_V1 &&
    decide (GPT_HEADER_SIZE ≤ gpt.headerSize.toNat) && headerCrc f gpt.headerSize.toNat == gpt.headerCrc32 &&
    decide (gpt.sizeofPartitionEntry.toNat = GPT_ENTRY_SIZE) && decide (gpt.numPartitionEntries.toNat ≤ 128)

section Identify
variable (b : Build) (types : PartitionTypes) (f : Nat → UInt8)

/-- `(fat.sectors ?: fat.total_sect) * fat.sector_size` -/
def fatSize : Nat :=
  let sectors := (read16 f 19).toNat
  (if sectors ≠ 0 then sectors else (read32 f 32).toNat) * (read16 f 11).toNat % 2 ^ 32

/-- The checks for FAT volumes formatted with early MS-DOS, which lack signature and fs_type.
`num_fats - 1` is an `int`. -/
def isFat : Bool :=
  let w := (read16 f 11).toNat
  let secPerClus := (f 13).toNat
  w &&& (w - 1) == 0 && decide (512 ≤ w) && decide (w ≤ 4096) &&
    secPerClus != 0 && secPerClus &&& (secPerClus - 1) == 0 &&
    read16 f 14 != 0 && decide ((f 16).toNat ≤ 2) && read16 f 17 != 0 &&
    (decide (128 ≤ (read16 f 19).toNat) || decide (0x10000 ≤ (read32 f 32).toNat)) && read16 f 22 != 0

/-- The partition that a boot sector describes, if it is one. The volume size of an exFAT volume shifted by
64 bits or more, which is undefined in the source, is 0 here. -/
def identify (offset : Nat) : Option (PartInfo b) :=
  let signature := read16 f 510
  if signature = MSDOS_MBR_SIGNATURE ∧ read64 f 3 = FSTYPE_EXFAT then
    some { PartInfo.new [] types.dataFat offset ((read64 f 72).toNat * 2 ^ (f 108).toNat % 2 ^ 64) with
      systype := .exfat }
  else if f 0 = 0xEB ∨ f 0 = 0xE9 ∨ f 0 = 0xE8 then
    if signature = MSDOS_MBR_SIGNATURE ∧ read64 f 82 = FSTYPE_FAT32 then
      some { PartInfo.new (getLabel (slice f 71 MSDOS_NAME)) types.dataFat offset (fatSize f) with systype := .fat32 }
    else if isFat f then
      let part : PartInfo b := PartInfo.new (getLabel (slice f 43 MSDOS_NAME)) types.dataFat offset (fatSize f)
      let numClusters := part.size / ((read16 f 11).toNat * (f 13).toNat)
      some { part with systype := if numClusters ≤ MAX_FAT12 then .fat12 else .fat16 }
    else none
  else none

end Identify

/-- The first ten bytes of `SmingTypeGuid::baseguid`, node[0] and node[1], and the rest of it. -/
def smingBaseGuid : Uuid := fun i =>
  [0x34, 0x42, 0xd5, 0x3c, 0x54, 0xcb, 0xd5, 0x4e, 0xbc, 0x8b, 0x00, 0x00, 0x7d, 0x42, 0x84, 0x70].getD i.val 0

/-- `SmingTypeGuid(fulltype)` -/
def smingTypeGuid (fulltype : FullType) : Uuid := fun i =>
  if i.val = 10 then fulltype.type else if i.val = 11 then fulltype.subtype else smingBaseGuid i

/-- `SmingTypeGuid::match` -/
def smingMatch (types : PartitionTypes) (guid : Uuid) : FullType :=
  let tmp : Uuid := fun i => if i.val = 10 ∨ i.val = 11 then 0 else guid i
  if ∀ i, smingBaseGuid i = tmp i then ⟨guid 10, guid 11⟩ else types.none

inductive ScanState where
  | idle
  | mbr
  | gpt
  | error
  | done
  deriving DecidableEq

/-- `mbrEntries` are the records that the last call of scanMbrEntries has stored. -/
structure Scanner where
  buffer : Nat → UInt8
  entryBuffer : Nat → UInt8
  state : ScanState
  sector : Nat
  mbrEntries : List MbrRecord
  numPartitionEntries : Nat
  partitionIndex : Nat
  mbrPartID : Nat
  sectorSize : Nat
  sectorSizeShift : Nat

def Scanner.new : Scanner := ⟨fun _ => 0, fun _ => 0, .idle, 0, [], 0, 0, 0, 0, 0⟩

/-- The non-empty records of a sector, with their starts relative to `baseLba`. -/
def scanMbrEntries (f : Nat → UInt8) (baseLba : UInt32) : List MbrRecord :=
  (((List.range 4).map fun i => mbrRecord f i).filter fun rec => rec.startingLba != 0 && rec.sizeInLba != 0).map
    fun rec => { rec with startingLba := rec.startingLba + baseLba }

/-- What a piece of next does: it returns, it goes on with the loop, or its assert fails. -/
inductive Pass (b : Build) (σ : Type) where
  | returned (part : Option (PartInfo b)) (scanner : Scanner) (device : σ)
  | again (scanner : Scanner) (device : σ)
  | aborted

section Next
variable {b : Build} {σ : Type} [Device σ] (env : ScanEnv)

/-- `sector << sectorSizeShift` of READ_SECTORS, in `storage_size_t`. -/
def sectorAddress (b : Build) (shift sector : Nat) : Nat := b.storage (b.storage sector * 2 ^ shift)

/-- READ_SECTORS for one sector, into a buffer of that size. -/
def readSector (b : Build) (sc : Scanner) (device : σ) (buffer : Nat → UInt8) (sector : Nat) :
    Option (Nat → UInt8) × σ :=
  match Device.read device (sectorAddress b sc.sectorSizeShift sector) (2 ^ sc.sectorSizeShift) with
  | (some bytes, device) => (some (patch buffer 0 bytes), device)
  | (none, device) => (none, device)

/-- The sector size that a build takes for a device. -/
def chooseSectorSize (b : Build) (device : σ) : Option Nat :=
  if b.maxSectorSize ≠ DISK_MIN_SECTOR_SIZE then
    let sectorSize := Device.getSectorSize device % 2 ^ 16
    if sectorSize > b.maxSectorSize ∨ sectorSize < DISK_MIN_SECTOR_SIZE ∨ !isLog2 sectorSize then none
    else some sectorSize
  else some b.maxSectorSize

/-- GPT behind a protective MBR: the header is read into the buffer and checked. -/
def openGpt (sc : Scanner) (device : σ) : Pass b σ :=
  match readSector b sc device sc.buffer GPT_PRIMARY_PARTITION_TABLE_LBA with
  | (none, device) => .returned none { sc with state := .error } device
  | (some buffer, device) =>
    let sc := { sc with buffer := buffer }
    if verifyGptHeader buffer then
      let gpt := GptHeader.decode buffer 0
      let sc := { sc with
        numPartitionEntries := gpt.numPartitionEntries.toNat % 2 ^ 16
        sector := gpt.partitionEntryLba.toNat
        partitionIndex := 0 }
      match env.entryBuffer with
      | none => .returned none { sc with state := .error } device
      | some entryBuffer => .again { sc with entryBuffer := entryBuffer, state := .gpt } device
    else .returned none { sc with state := .error } device

/-- The `state == State::idle` part of next. -/
def openTable (sc : Scanner) (device : σ) : Pass b σ :=
  match chooseSectorSize b device with
  | none => .returned none
      { sc with sectorSize := Device.getSectorSize device % 2 ^ 16, state := .error } device
  | some sectorSize =>
    let sc := { sc with sectorSize := sectorSize, sectorSizeShift := getSizeBits sectorSize }
    match env.buffer with
    | none => .returned none sc device
    | some buffer =>
      let sc := { sc with buffer := buffer }
      match readSector b sc device sc.buffer 0 with
      | (none, device) => .returned none { sc with state := .error } device
      | (some buffer, device) =>
        let sc := { sc with buffer := buffer }
        match identify b env.types buffer 0 with
        | some part => .returned (some part) { sc with state := .done } device
        | none =>
          if mbrSignature buffer ≠ MSDOS_MBR_SIGNATURE then .returned none sc device
          else if (mbrRecord buffer 0).osType = EFI_PMBR_OSTYPE_EFI_GPT then openGpt env sc device
          else
            let mbrEntries := scanMbrEntries buffer 0
            .again { sc with mbrEntries := mbrEntries, numPartitionEntries := mbrEntries.length, state := .mbr } device

/-- The partition of an MBR record, with the first sector of the partition in the buffer. -/
def mbrPart (sc : Scanner) (entry : MbrRecord) : PartInfo b :=
  let offset := b.storage (entry.startingLba.toNat * 2 ^ sc.sectorSizeShift % 2 ^ 32)
  let part := (identify b env.types sc.buffer offset).getD
    (PartInfo.new [] env.types.none offset (entry.sizeInLba.toNat * 2 ^ sc.sectorSizeShift % 2 ^ 32))
  let systype := getSysTypeFromIndicator entry.osType.toNat
  { part with
    name := ascii ("mbr" ++ toString sc.mbrPartID)
    sysind := entry.osType.toNat
    systype := systype
    fullType := if part.fullType.type = env.types.invalid ∧ systype.isFat then env.types.dataFat else part.fullType }

/-- The body of the loop for an MBR record. -/
def passMbr (sc : Scanner) (device : σ) (entry : MbrRecord) : Pass b σ :=
  let sc := { sc with partitionIndex := sc.partitionIndex + 1 }
  match readSector b sc device sc.buffer entry.startingLba.toNat with
  | (none, device) => .again sc device
  | (some buffer, device) =>
    let sc := { sc with buffer := buffer }
    if entry.osType = OSTYPE_EXTENDED then
      let mbrEntries := scanMbrEntries buffer entry.startingLba
      .again { sc with mbrEntries := mbrEntries, numPartitionEntries := mbrEntries.length, partitionIndex := 0 } device
    else
      let sc := { sc with mbrPartID := (sc.mbrPartID + 1) % 2 ^ 16 }
      .returned (some (mbrPart env sc entry)) sc device

/-- `sectorSize / sizeof(gpt_entry_t)` -/
def Scanner.entriesPerSector (sc : Scanner) : Nat := sc.sectorSize / GPT_ENTRY_SIZE

/-- The GPT entry at `partitionIndex`, in the buffer. -/
def Scanner.gptEntry (sc : Scanner) : GptEntry :=
  GptEntry.decode sc.buffer (sc.partitionIndex % sc.entriesPerSector * GPT_ENTRY_SIZE)

/-- The partition of a GPT entry: of a regular filing system, or by its first sector. -/
def gptPart (shift : Nat) (entry : GptEntry) (entryBuffer : Nat → UInt8) : PartInfo b :=
  let offset := b.storage (entry.startingLba.toNat * 2 ^ shift % 2 ^ 64)
  let size := b.storage ((1 + entry.endingLba - entry.startingLba).toNat * 2 ^ shift % 2 ^ 64)
  let fulltype := smingMatch env.types entry.partitionTypeGuid
  let part :=
    if env.types.valid fulltype then PartInfo.new [] fulltype offset size
    else (identify b env.types entryBuffer offset).getD (PartInfo.new [] env.types.none offset size)
  { part with
    typeGuid := entry.partitionTypeGuid
    uniqueGuid := entry.uniquePartitionGuid
    name := unicodeToOem ((List.finRange 36).map entry.partitionName) }

/-- The body of the loop for the GPT entry at `partitionIndex`, with its sector in the buffer. -/
def passGptEntry (sc : Scanner) (device : σ) : Pass b σ :=
  let entry := sc.gptEntry
  let sc := { sc with partitionIndex := sc.partitionIndex + 1 }
  if entry.partitionTypeGuid.isNull then .again sc device
  else if env.types.valid (smingMatch env.types entry.partitionTypeGuid) then
    .returned (some (gptPart env sc.sectorSizeShift entry sc.entryBuffer)) sc device
  else
    match readSector b sc device sc.entryBuffer entry.startingLba.toNat with
    | (none, device) => .again sc device
    | (some entryBuffer, device) =>
      let sc := { sc with entryBuffer := entryBuffer }
      .returned (some (gptPart env sc.sectorSizeShift entry entryBuffer)) sc device

def passGpt (sc : Scanner) (device : σ) : Pass b σ :=
  if sc.partitionIndex % sc.entriesPerSector = 0 then
    match readSector b sc device sc.buffer sc.sector with
    | (none, device) => .returned none { sc with sector := (sc.sector + 1) % 2 ^ 64, state := .error } device
    | (some buffer, device) => passGptEntry env { sc with sector := (sc.sector + 1) % 2 ^ 64, buffer := buffer } device
  else passGptEntry env sc device

/-- `while(partitionIndex < numPartitionEntries)`: one test and one pass. -/
def pass (sc : Scanner) (device : σ) : Pass b σ :=
  if sc.partitionIndex < sc.numPartitionEntries then
    match sc.state with
    | .mbr =>
      match sc.mbrEntries[sc.partitionIndex]? with
      | some entry => passMbr env sc device entry
      | none => .aborted
    | .gpt => passGpt env sc device
    | .idle | .error | .done => .aborted
  else .returned none { sc with state := .done } device

/-- The loop of next; `none` when the number of passes does not suffice. -/
def nextLoop : Nat → Scanner → σ → Option (Option (Option (PartInfo b) × Scanner × σ))
  | 0, _, _ => none
  | fuel + 1, sc, device =>
    match pass env sc device with
    | .returned part sc device => some (some (part, sc, device))
    | .again sc device => nextLoop fuel sc device
    | .aborted => some none

/-- `Scanner::next`: nothing is returned when an assert fails. -/
def next (fuel : Nat) (sc : Scanner) (device : σ) : Option (Option (Option (PartInfo b) × Scanner × σ)) :=
  if sc.state = .idle then
    match openTable env sc device with
    | .returned part sc device => some (some (part, sc, device))
    | .again sc device => nextLoop env fuel sc device
    | .aborted => some none
  else nextLoop env fuel sc device

/-- The loop of scanPartitions, with the partitions so far. -/
def scanLoop : Nat → Scanner → σ → List (PartInfo b) → Option (Option (Bool × σ × List (PartInfo b)))
  | 0, _, _, _ => none
  | fuel + 1, sc, device, pt =>
    match next (b := b) env fuel sc device with
    | none => none
    | some none => some none
    | some (some (none, sc, device)) => some (some (sc.state != .error, device, pt))
    | some (some (some part, sc, device)) =>
      let name := if part.name.length = 0 && !part.uniqueGuid.isNull then env.guidName part.uniqueGuid else part.name
      scanLoop fuel sc device (pt ++ [{ part with name := name }])

/-- The device's partitions are cleared first. -/
def scanPartitions (fuel : Nat) (device : σ) : Option (Option (Bool × σ × List (PartInfo b))) :=
  scanLoop env fuel Scanner.new device []

end Next

end DiskStorage
