import DiskStorage.PartInfo
import DiskStorage.Lib.LittleEndian

/-! On-disk structures, byte by byte, and their checksum. -/
namespace DiskStorage
open ByteStore LittleEndian

def FSTYPE_FAT32 : UInt64 := 0x2020203233544146
def FSTYPE_EXFAT : UInt64 := 0x2020205441465845

/-- Sectors per track for determination of drive CHS -/
def N_SEC_TRACK : Nat := 63

/-- Number of GPT table size -/
def GPT_ITEMS : Nat := 128

def OSTYPE_EXTENDED : UInt8 := 0x05
def EFI_PMBR_OSTYPE_EFI_GPT : UInt8 := 0xEE
def MSDOS_MBR_SIGNATURE : UInt16 := 0xaa55
def GPT_HEADER_SIGNATURE : UInt64 := 0x5452415020494645
def GPT_HEADER_REVISION_V1 : UInt32 := 0x00010000
def GPT_HEADER_SIZE : Nat := 92
def GPT_PRIMARY_PARTITION_TABLE_LBA : Nat := 1

/-- `sizeof(gpt_entry_t)` -/
def GPT_ENTRY_SIZE : Nat := 128

/-- One bit of the checksum. -/
def crcBit (crc : UInt32) : UInt32 := (crc >>> 1) ^^^ (0xEDB88320 &&& (0 - (crc &&& 1)))

def crc32Byte (crc : UInt32) (d : UInt8) : UInt32 := Nat.repeat crcBit 8 (crc ^^^ d.toUInt32)

def crc32 (bcc : UInt32) (data : List UInt8) : UInt32 := ~~~(data.foldl crc32Byte (~~~bcc))

theorem crc32_nil (bcc : UInt32) : crc32 bcc [] = bcc := UInt32.not_not

/-- The checksum may be taken piece by piece. -/
theorem crc32_append (bcc : UInt32) (l r : List UInt8) : crc32 bcc (l ++ r) = crc32 (crc32 bcc l) r := by
  rw [crc32, crc32, crc32, UInt32.not_not, List.foldl_append]

section Fields

def le16 (v : UInt16) : List UInt8 := encode 2 v.toNat
def le32 (v : UInt32) : List UInt8 := encode 4 v.toNat
def le64 (v : UInt64) : List UInt8 := encode 8 v.toNat
def Uuid.bytes (guid : Uuid) : List UInt8 := List.ofFn guid

def read16 (f : Nat → UInt8) (a : Nat) : UInt16 := .ofNat (read f a 2)
def read32 (f : Nat → UInt8) (a : Nat) : UInt32 := .ofNat (read f a 4)
def read64 (f : Nat → UInt8) (a : Nat) : UInt64 := .ofNat (read f a 8)
def readUuid (f : Nat → UInt8) (a : Nat) : Uuid := fun i => f (a + i)

@[simp] theorem length_le16 (v : UInt16) : (le16 v).length = 2 := length_encode 2 _
@[simp] theorem length_le32 (v : UInt32) : (le32 v).length = 4 := length_encode 4 _
@[simp] theorem length_le64 (v : UInt64) : (le64 v).length = 8 := length_encode 8 _
@[simp] theorem Uuid.length_bytes (guid : Uuid) : guid.bytes.length = 16 := List.length_ofFn

variable {f : Nat → UInt8} {a o : Nat} {l : List UInt8}

theorem read16_eq_zero_iff : read16 f a = 0 ↔ ∀ i < 2, f (a + i) = 0 := by
  rw [← read_eq_zero_iff, ← UInt16.toNat_inj, read16, UInt16.toNat_ofNat_of_lt' (read_lt f a 2), UInt16.toNat_zero]

theorem read64_eq_zero_iff : read64 f a = 0 ↔ ∀ i < 8, f (a + i) = 0 := by
  rw [← read_eq_zero_iff, ← UInt64.toNat_inj, read64, UInt64.toNat_ofNat_of_lt' (read_lt f a 8), UInt64.toNat_zero]

theorem read16_patch {v : UInt16} (h : o + 2 ≤ l.length) (hf : field l o 2 = le16 v) :
    read16 (patch f a l) (a + o) = v := by
  rw [read16, read_patch f a h, hf, le16, decode_encode_of_lt v.toNat_lt, UInt16.ofNat_toNat]

theorem read32_patch {v : UInt32} (h : o + 4 ≤ l.length) (hf : field l o 4 = le32 v) :
    read32 (patch f a l) (a + o) = v := by
  rw [read32, read_patch f a h, hf, le32, decode_encode_of_lt v.toNat_lt, UInt32.ofNat_toNat]

theorem read64_patch {v : UInt64} (h : o + 8 ≤ l.length) (hf : field l o 8 = le64 v) :
    read64 (patch f a l) (a + o) = v := by
  rw [read64, read_patch f a h, hf, le64, decode_encode_of_lt v.toNat_lt, UInt64.ofNat_toNat]

theorem readUuid_patch {v : Uuid} (h : o + 16 ≤ l.length) (hf : field l o 16 = v.bytes) :
    readUuid (patch f a l) (a + o) = v := by
  have hs := slice_patch f a h
  rw [hf] at hs
  funext i
  have hi : i.val < (slice (patch f a l) (a + o) 16).length := by
    rw [slice_length]
    exact i.isLt
  have hget := getElem_slice (patch f a l) (a + o) 16 i.val hi
  rw [readUuid, ← hget]
  simp only [hs, Uuid.bytes, List.getElem_ofFn]

theorem byte_patch {v : UInt8} (h : o + 1 ≤ l.length) (hf : field l o 1 = [v]) : patch f a l (a + o) = v := by
  have hs := slice_patch f a h
  rw [hf] at hs
  exact List.singleton_inj.mp hs

end Fields

/-- `gpt_header_t` -/
structure GptHeader where
  signature : UInt64
  revision : UInt32
  headerSize : UInt32
  headerCrc32 : UInt32
  reserved1 : UInt32
  myLba : UInt64
  alternateLba : UInt64
  firstUsableLba : UInt64
  lastUsableLba : UInt64
  diskGuid : Uuid
  partitionEntryLba : UInt64
  numPartitionEntries : UInt32
  sizeofPartitionEntry : UInt32
  partitionEntryArrayCrc32 : UInt32

namespace GptHeader

def encode (h : GptHeader) : List UInt8 :=
  le64 h.signature ++ (le32 h.revision ++ (le32 h.headerSize ++ (le32 h.headerCrc32 ++ (le32 h.reserved1 ++
    (le64 h.myLba ++ (le64 h.alternateLba ++ (le64 h.firstUsableLba ++ (le64 h.lastUsableLba ++
      (h.diskGuid.bytes ++ (le64 h.partitionEntryLba ++ (le32 h.numPartitionEntries ++
        (le32 h.sizeofPartitionEntry ++ le32 h.partitionEntryArrayCrc32))))))))))))

def decode (f : Nat → UInt8) (a : Nat) : GptHeader where
  signature := read64 f (a + 0)
  revision := read32 f (a + 8)
  headerSize := read32 f (a + 12)
  headerCrc32 := read32 f (a + 16)
  reserved1 := read32 f (a + 20)
  myLba := read64 f (a + 24)
  alternateLba := read64 f (a + 32)
  firstUsableLba := read64 f (a + 40)
  lastUsableLba := read64 f (a + 48)
  diskGuid := readUuid f (a + 56)
  partitionEntryLba := read64 f (a + 72)
  numPartitionEntries := read32 f (a + 80)
  sizeofPartitionEntry := read32 f (a + 84)
  partitionEntryArrayCrc32 := read32 f (a + 88)

theorem length_encode (h : GptHeader) : h.encode.length = GPT_HEADER_SIZE := by
  simp only [encode, List.length_append, length_le64, length_le32, Uuid.length_bytes]
  rfl

theorem decode_patch (f : Nat → UInt8) (a : Nat) (h : GptHeader) : decode (patch f a h.encode) a = h := by
  have hlen : h.encode.length = 92 := h.length_encode
  have signature : read64 (patch f a h.encode) (a + 0) = h.signature := read64_patch (by omega) (by simp [encode])
  have revision : read32 (patch f a h.encode) (a + 8) = h.revision := read32_patch (by omega) (by simp [encode])
  have headerSize : read32 (patch f a h.encode) (a + 12) = h.headerSize := read32_patch (by omega) (by simp [encode])
  have headerCrc32 : read32 (patch f a h.encode) (a + 16) = h.headerCrc32 := read32_patch (by omega) (by simp [encode])
  have reserved1 : read32 (patch f a h.encode) (a + 20) = h.reserved1 := read32_patch (by omega) (by simp [encode])
  have myLba : read64 (patch f a h.encode) (a + 24) = h.myLba := read64_patch (by omega) (by simp [encode])
  have alternateLba : read64 (patch f a h.encode) (a + 32) = h.alternateLba :=
    read64_patch (by omega) (by simp [encode])
  have firstUsableLba : read64 (patch f a h.encode) (a + 40) = h.firstUsableLba :=
    read64_patch (by omega) (by simp [encode])
  have lastUsableLba : read64 (patch f a h.encode) (a + 48) = h.lastUsableLba :=
    read64_patch (by omega) (by simp [encode])
  have diskGuid : readUuid (patch f a h.encode) (a + 56) = h.diskGuid := readUuid_patch (by omega) (by simp [encode])
  have partitionEntryLba : read64 (patch f a h.encode) (a + 72) = h.partitionEntryLba :=
    read64_patch (by omega) (by simp [encode])
  have numPartitionEntries : read32 (patch f a h.encode) (a + 80) = h.numPartitionEntries :=
    read32_patch (by omega) (by simp [encode])
  have sizeofPartitionEntry : read32 (patch f a h.encode) (a + 84) = h.sizeofPartitionEntry :=
    read32_patch (by omega) (by simp [encode])
  have partitionEntryArrayCrc32 : read32 (patch f a h.encode) (a + 88) = h.partitionEntryArrayCrc32 :=
    read32_patch (by omega) (by simp [encode])
  simp only [decode, signature, revision, headerSize, headerCrc32, reserved1, myLba, alternateLba, firstUsableLba,
    lastUsableLba, diskGuid, partitionEntryLba, numPartitionEntries, sizeofPartitionEntry, partitionEntryArrayCrc32]

theorem decode_of_slice {f : Nat → UInt8} {a : Nat} {h : GptHeader} (hf : slice f a GPT_HEADER_SIZE = h.encode) :
    decode f a = h := by
  rw [← patch_slice_self f a GPT_HEADER_SIZE, hf, decode_patch]

/-- The checksum field is the only one that depends on the checksum. -/
theorem encode_checksum (h : GptHeader) : ∃ front back : List UInt8, front.length = 16 ∧ back.length = 72 ∧
    ∀ crc, encode { h with headerCrc32 := crc } = front ++ (le32 crc ++ back) := by
  refine ⟨le64 h.signature ++ (le32 h.revision ++ le32 h.headerSize), le32 h.reserved1 ++ (le64 h.myLba ++
    (le64 h.alternateLba ++ (le64 h.firstUsableLba ++ (le64 h.lastUsableLba ++ (h.diskGuid.bytes ++
      (le64 h.partitionEntryLba ++ (le32 h.numPartitionEntries ++ (le32 h.sizeofPartitionEntry ++
        le32 h.partitionEntryArrayCrc32)))))))), ?_, ?_, fun crc => ?_⟩
  · simp only [List.length_append, length_le64, length_le32]
  · simp only [List.length_append, length_le64, length_le32, Uuid.length_bytes]
  · simp only [encode, List.append_assoc]

end GptHeader

/-- `gpt_entry_t`. The attributes are never looked at. -/
structure GptEntry where
  partitionTypeGuid : Uuid
  uniquePartitionGuid : Uuid
  startingLba : UInt64
  endingLba : UInt64
  attributes : UInt64
  partitionName : Fin 36 → UInt16

namespace GptEntry

def encode (e : GptEntry) : List UInt8 :=
  e.partitionTypeGuid.bytes ++ (e.uniquePartitionGuid.bytes ++ (le64 e.startingLba ++ (le64 e.endingLba ++
    (le64 e.attributes ++ (List.finRange 36).flatMap fun j => le16 (e.partitionName j)))))

def decode (f : Nat → UInt8) (a : Nat) : GptEntry where
  partitionTypeGuid := readUuid f (a + 0)
  uniquePartitionGuid := readUuid f (a + 16)
  startingLba := read64 f (a + 32)
  endingLba := read64 f (a + 40)
  attributes := read64 f (a + 48)
  partitionName := fun j => read16 f (a + (56 + j * 2))

private theorem length_name (e : GptEntry) :
    ((List.finRange 36).flatMap fun j => le16 (e.partitionName j)).length = 72 := by
  rw [length_flatMap _ 2 fun j => length_le16 _, List.length_finRange]

theorem length_encode (e : GptEntry) : e.encode.length = GPT_ENTRY_SIZE := by
  simp only [encode, List.length_append, length_le64, Uuid.length_bytes, length_name]
  rfl

theorem decode_patch (f : Nat → UInt8) (a : Nat) (e : GptEntry) : decode (patch f a e.encode) a = e := by
  have hlen : e.encode.length = 128 := e.length_encode
  have partitionTypeGuid : readUuid (patch f a e.encode) (a + 0) = e.partitionTypeGuid :=
    readUuid_patch (by omega) (by simp [encode])
  have uniquePartitionGuid : readUuid (patch f a e.encode) (a + 16) = e.uniquePartitionGuid :=
    readUuid_patch (by omega) (by simp [encode])
  have startingLba : read64 (patch f a e.encode) (a + 32) = e.startingLba := read64_patch (by omega) (by simp [encode])
  have endingLba : read64 (patch f a e.encode) (a + 40) = e.endingLba := read64_patch (by omega) (by simp [encode])
  have attributes : read64 (patch f a e.encode) (a + 48) = e.attributes := read64_patch (by omega) (by simp [encode])
  have partitionName : (fun j : Fin 36 => read16 (patch f a e.encode) (a + (56 + j * 2))) = e.partitionName := by
    funext j
    have hj := j.isLt
    apply read16_patch (by omega)
    have hskip : field e.encode (56 + j * 2) 2 =
        field ((List.finRange 36).flatMap fun j => le16 (e.partitionName j)) (j * 2) 2 := by
      have h1 : 16 ≤ 56 + j.val * 2 := by omega
      have h2 : 16 ≤ 56 + j.val * 2 - 16 := by omega
      have h3 : 8 ≤ 56 + j.val * 2 - 16 - 16 := by omega
      have h4 : 8 ≤ 56 + j.val * 2 - 16 - 16 - 8 := by omega
      have h5 : 8 ≤ 56 + j.val * 2 - 16 - 16 - 8 - 8 := by omega
      have h6 : 56 + j.val * 2 - 16 - 16 - 8 - 8 - 8 = j * 2 := by omega
      simp [encode, h1, h2, h3, h4, h5, h6]
    rw [hskip, field_flatMap _ 2 (fun j => length_le16 _) _ (by rw [List.length_finRange]; exact hj)]
    simp
  simp only [decode, partitionTypeGuid, uniquePartitionGuid, startingLba, endingLba, attributes, partitionName]

theorem decode_of_slice {f : Nat → UInt8} {a : Nat} {e : GptEntry} (hf : slice f a GPT_ENTRY_SIZE = e.encode) :
    decode f a = e := by
  rw [← patch_slice_self f a GPT_ENTRY_SIZE, hf, decode_patch]

theorem decode_unused {g : Nat → UInt8} {a : Nat} (h : slice g a GPT_ENTRY_SIZE = List.replicate GPT_ENTRY_SIZE 0) :
    (decode g a).partitionTypeGuid.isNull = true := by
  have hzero : ∀ i < GPT_ENTRY_SIZE, g (a + i) = 0 := by
    intro i hi
    have hlt : i < (slice g a GPT_ENTRY_SIZE).length := by rwa [slice_length]
    rw [← getElem_slice g a GPT_ENTRY_SIZE i hlt]
    simp only [h, List.getElem_replicate]
  apply decide_eq_true
  intro i
  have hi := i.isLt
  have hbyte := hzero i (by rw [GPT_ENTRY_SIZE]; omega)
  simpa only [decode, readUuid, Nat.add_zero] using hbyte

end GptEntry

/-- `gpt_mbr_record_t` -/
structure MbrRecord where
  bootIndicator : UInt8
  startHead : UInt8
  startSector : UInt8
  startTrack : UInt8
  osType : UInt8
  endHead : UInt8
  endSector : UInt8
  endTrack : UInt8
  startingLba : UInt32
  sizeInLba : UInt32
  deriving DecidableEq

/-- `sizeof(gpt_mbr_record_t)` -/
def MBR_RECORD_SIZE : Nat := 16

namespace MbrRecord

def encode (r : MbrRecord) : List UInt8 :=
  [r.bootIndicator, r.startHead, r.startSector, r.startTrack, r.osType, r.endHead, r.endSector, r.endTrack] ++
    (le32 r.startingLba ++ le32 r.sizeInLba)

def decode (f : Nat → UInt8) (a : Nat) : MbrRecord where
  bootIndicator := f (a + 0)
  startHead := f (a + 1)
  startSector := f (a + 2)
  startTrack := f (a + 3)
  osType := f (a + 4)
  endHead := f (a + 5)
  endSector := f (a + 6)
  endTrack := f (a + 7)
  startingLba := read32 f (a + 8)
  sizeInLba := read32 f (a + 12)

theorem length_encode (r : MbrRecord) : r.encode.length = MBR_RECORD_SIZE := by
  rw [encode, List.length_append, List.length_append, length_le32, length_le32]
  rfl

theorem decode_patch (f : Nat → UInt8) (a : Nat) (r : MbrRecord) : decode (patch f a r.encode) a = r := by
  have hlen : r.encode.length = 16 := r.length_encode
  have bootIndicator : patch f a r.encode (a + 0) = r.bootIndicator := byte_patch (by omega) rfl
  have startHead : patch f a r.encode (a + 1) = r.startHead := byte_patch (by omega) rfl
  have startSector : patch f a r.encode (a + 2) = r.startSector := byte_patch (by omega) rfl
  have startTrack : patch f a r.encode (a + 3) = r.startTrack := byte_patch (by omega) rfl
  have osType : patch f a r.encode (a + 4) = r.osType := byte_patch (by omega) rfl
  have endHead : patch f a r.encode (a + 5) = r.endHead := byte_patch (by omega) rfl
  have endSector : patch f a r.encode (a + 6) = r.endSector := byte_patch (by omega) rfl
  have endTrack : patch f a r.encode (a + 7) = r.endTrack := byte_patch (by omega) rfl
  have startingLba : read32 (patch f a r.encode) (a + 8) = r.startingLba := by
    apply read32_patch (by omega)
    rw [encode, field_append_skip (Nat.le_refl 8)]
    exact field_append_here (length_le32 _)
  have sizeInLba : read32 (patch f a r.encode) (a + 12) = r.sizeInLba := by
    apply read32_patch (by omega)
    rw [encode, field_append_skip (show 8 ≤ 12 by decide)]
    exact (field_append_skip (Nat.le_of_eq (length_le32 _))).trans
      (by rw [length_le32]; exact field_self (length_le32 _))
  simp only [decode, bootIndicator, startHead, startSector, startTrack, osType, endHead, endSector, endTrack,
    startingLba, sizeInLba]

theorem decode_of_slice {f : Nat → UInt8} {a : Nat} {r : MbrRecord} (hf : slice f a MBR_RECORD_SIZE = r.encode) :
    decode f a = r := by
  rw [← patch_slice_self f a MBR_RECORD_SIZE, hf, decode_patch]

end MbrRecord

/-- Where `legacy_mbr_t` has its partition records and its signature. -/
def MBR_RECORDS : Nat := 446

def MBR_SIGNATURE : Nat := 510

def mbrRecord (f : Nat → UInt8) (i : Nat) : MbrRecord := MbrRecord.decode f (MBR_RECORDS + i * MBR_RECORD_SIZE)

def mbrSignature (f : Nat → UInt8) : UInt16 := read16 f MBR_SIGNATURE

end DiskStorage
