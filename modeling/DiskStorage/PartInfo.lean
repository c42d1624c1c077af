import Mathlib.Algebra.Order.Ring.Nat

/-! What a build fixes, and the partition information that the table functions and the
scanner exchange. -/
namespace DiskStorage

/-- ENABLE_STORAGE_SIZE64, DISK_MAX_SECTOR_SIZE, and of the target whether `size_t` has 64
bits and `char` is signed. -/
structure Build where
  size64 : Bool
  sizeT64 : Bool
  signedChar : Bool
  maxSectorSize : Nat

def DISK_MIN_SECTOR_SIZE : Nat := 512

def u64 (n : Nat) : Nat := n % 2 ^ 64

theorem u64_of_lt {n : Nat} (h : n < 2 ^ 64) : u64 n = n := Nat.mod_eq_of_lt h

namespace Build
variable (b : Build)

/-- The number of values of `storage_size_t`. -/
def storageSize : Nat := if b.size64 then 2 ^ 64 else 2 ^ 32

/-- Conversion to `storage_size_t`. -/
def storage (n : Nat) : Nat := n % b.storageSize

theorem storageSize_cases : b.storageSize = 2 ^ 64 ∨ b.storageSize = 2 ^ 32 := by
  rw [storageSize]
  cases b.size64
  · exact Or.inr rfl
  · exact Or.inl rfl

theorem storageSize_pos : 0 < b.storageSize := by
  have := b.storageSize_cases
  omega

theorem storageSize_le : b.storageSize ≤ 2 ^ 64 := by
  have := b.storageSize_cases
  omega

theorem storage_lt (n : Nat) : b.storage n < b.storageSize := Nat.mod_lt n b.storageSize_pos

variable {b}

theorem storage_of_lt {n : Nat} (h : n < b.storageSize) : b.storage n = n := Nat.mod_eq_of_lt h

theorem storage_of_lt_word {n : Nat} (h : n < 2 ^ 32) : b.storage n = n := by
  apply storage_of_lt
  have := b.storageSize_cases
  omega

theorem lt_u64 {n : Nat} (h : n < b.storageSize) : n < 2 ^ 64 := Nat.lt_of_lt_of_le h b.storageSize_le

end Build

/-- The return values of validate and formatDisk. -/
inductive Error where
  | success
  | badParam
  | misAligned
  | outOfRange
  | noSpace
  | noMem
  | readFailure
  | writeFailure
  | eraseFailure
  deriving DecidableEq

/-- Identifies exact disk volume type -/
inductive SysType where
  | unknown
  | fat12
  | fat16
  | fat32
  | exfat
  deriving DecidableEq

/-- `fatTypes[systype]` -/
def SysType.isFat : SysType → Bool
  | unknown => false
  | fat12 | fat16 | fat32 | exfat => true

def SI_FAT12 : Nat := 0x01
def SI_FAT16 : Nat := 0x04
def SI_FAT16B : Nat := 0x06
def SI_IFS : Nat := 0x07
def SI_EXFAT : Nat := 0x07
def SI_FAT32X : Nat := 0x0c

/-- The values of SysIndicator. -/
def sysIndicators : List Nat := [SI_FAT12, SI_FAT16, SI_FAT16B, SI_IFS, SI_EXFAT, SI_FAT32X]

def getSysTypeFromIndicator (si : Nat) : SysType :=
  if si = SI_FAT12 then .fat12
  else if si = SI_FAT16 ∨ si = SI_FAT16B then .fat16
  else if si = SI_FAT32X then .fat32
  else if si = SI_EXFAT then .exfat
  else .unknown

/-- A UUID in the order of its bytes in memory. -/
abbrev Uuid := Fin 16 → UInt8

def Uuid.null : Uuid := fun _ => 0

/-- `!bool(guid)` -/
def Uuid.isNull (guid : Uuid) : Bool := decide (∀ i, guid i = 0)

/-- Type and subtype of a partition. -/
structure FullType where
  type : UInt8
  subtype : UInt8
  deriving DecidableEq

/-- The constants of `Storage::Partition` that the code uses. -/
structure PartitionTypes where
  invalid : UInt8
  data : UInt8
  fat : UInt8
  anySubtype : UInt8

namespace PartitionTypes
variable (types : PartitionTypes)

/-- `Partition::FullType{}` -/
def none : FullType := ⟨types.invalid, types.anySubtype⟩

/-- `Partition::SubType::Data::fat` -/
def dataFat : FullType := ⟨types.data, types.fat⟩

/-- `bool(fulltype)` -/
def valid (fulltype : FullType) : Bool := fulltype.type != types.invalid

end PartitionTypes

/-- In-memory partition information. `offset` and `size` are `storage_size_t`. -/
structure PartInfo (b : Build) where
  name : List UInt8
  fullType : FullType
  offset : Nat
  size : Nat
  typeGuid : Uuid
  uniqueGuid : Uuid
  systype : SysType
  sysind : Nat
  offset_lt : offset < b.storageSize
  size_lt : size < b.storageSize

namespace PartInfo
variable {b : Build}

/-- `new PartInfo(name, fullType, offset, size, 0)` -/
def new (name : List UInt8) (fullType : FullType) (offset size : Nat) : PartInfo b where
  name := name
  fullType := fullType
  offset := b.storage offset
  size := b.storage size
  typeGuid := Uuid.null
  uniqueGuid := Uuid.null
  systype := .unknown
  sysind := 0
  offset_lt := b.storage_lt offset
  size_lt := b.storage_lt size

def setOffset (part : PartInfo b) (offset : Nat) : PartInfo b :=
  { part with offset := b.storage offset, offset_lt := b.storage_lt offset }

def setSize (part : PartInfo b) (size : Nat) : PartInfo b :=
  { part with size := b.storage size, size_lt := b.storage_lt size }

@[simp] theorem setOffset_offset (part : PartInfo b) (n : Nat) : (part.setOffset n).offset = b.storage n := rfl
@[simp] theorem setOffset_size (part : PartInfo b) (n : Nat) : (part.setOffset n).size = part.size := rfl
@[simp] theorem setSize_offset (part : PartInfo b) (n : Nat) : (part.setSize n).offset = part.offset := rfl
@[simp] theorem setSize_size (part : PartInfo b) (n : Nat) : (part.setSize n).size = b.storage n := rfl

end PartInfo

end DiskStorage
