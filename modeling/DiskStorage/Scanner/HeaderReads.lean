import DiskStorage.Scanner.Sectors

/-! The bytes that verifyGptHeader reads, which are in the buffer it is given, or behind it. -/
namespace DiskStorage
open ByteStore LittleEndian

/-- The loop of crc32 from position `a` on, with the positions of the bytes it reads. -/
def crcReads (f : Nat → UInt8) : Nat → Nat → UInt32 → UInt32 × List Nat
  | _, 0, bcc => (bcc, [])
  | a, length + 1, bcc =>
    let (bcc, reads) := crcReads f (a + 1) length (crc32Byte bcc (f a))
    (bcc, a :: reads)

/-- verifyGptHeader, with the positions of the bytes it reads. A check that fails is the last one. -/
def verifyReads (f : Nat → UInt8) : Bool × List Nat :=
  let gpt := GptHeader.decode f 0
  let size := gpt.headerSize.toNat
  let (bcc, crcPositions) := crcReads (patch f 16 (le32 0)) 0 size (~~~0)
  let signature := List.range' 0 8
  let revision := signature ++ List.range' 8 4
  let headerSize := revision ++ List.range' 12 4
  let checksum := headerSize ++ List.range' 16 4 ++ crcPositions
  let entrySize := checksum ++ List.range' 84 4
  let entryCount := entrySize ++ List.range' 80 4
  if gpt.signature ≠ GPT_HEADER_SIGNATURE then (false, signature)
  else if gpt.revision ≠ GPT_HEADER_REVISION_V1 then (false, revision)
  else if size < GPT_HEADER_SIZE then (false, headerSize)
  else if ~~~bcc ≠ gpt.headerCrc32 then (false, checksum)
  else if gpt.sizeofPartitionEntry.toNat ≠ GPT_ENTRY_SIZE then (false, entrySize)
  else (decide (gpt.numPartitionEntries.toNat ≤ 128), entryCount)

/-- What verifyGptHeader reads lies in a buffer of `size` bytes. -/
def ReadsInside (f : Nat → UInt8) (size : Nat) : Prop := ∀ i ∈ (verifyReads f).2, i < size

/-- The header passes the checks in front of that of `header_size`. -/
structure HeaderMarked (f : Nat → UInt8) : Prop where
  signature : (GptHeader.decode f 0).signature = GPT_HEADER_SIGNATURE
  revision : (GptHeader.decode f 0).revision = GPT_HEADER_REVISION_V1

section Reads
variable {f : Nat → UInt8}

private theorem read32_agree {g : Nat → UInt8} {o : Nat} (h : ∀ i ∈ List.range' o 4, f i = g i) :
    read32 g (0 + o) = read32 f (0 + o) := by
  refine congrArg UInt32.ofNat (read_congr fun i hi => ?_)
  rw [Nat.zero_add]
  exact (h (o + i) (List.mem_range'_1.mpr (by omega))).symm

private theorem read64_agree {g : Nat → UInt8} {o : Nat} (h : ∀ i ∈ List.range' o 8, f i = g i) :
    read64 g (0 + o) = read64 f (0 + o) := by
  refine congrArg UInt64.ofNat (read_congr fun i hi => ?_)
  rw [Nat.zero_add]
  exact (h (o + i) (List.mem_range'_1.mpr (by omega))).symm

private theorem slice_agree {g : Nat → UInt8} {length : Nat} (l : List UInt8)
    (h : ∀ i ∈ List.range' 0 length, f i = g i) :
    slice (patch g 16 l) 0 length = slice (patch f 16 l) 0 length := by
  apply slice_congr
  intro i hi
  have heq : f (0 + i) = g (0 + i) := h (0 + i) (List.mem_range'_1.mpr (by omega))
  rw [patch, patch, heq]

theorem crcReads_eq (f : Nat → UInt8) (a length : Nat) (bcc : UInt32) :
    crcReads f a length bcc = ((slice f a length).foldl crc32Byte bcc, List.range' a length) := by
  induction length generalizing a bcc with
  | zero => rfl
  | succ length ih =>
    rw [crcReads, ih, Nat.add_comm length 1, slice_add, List.foldl_append, Nat.add_comm 1 length, List.range'_succ]
    rfl

theorem verifyReads_result (f : Nat → UInt8) : (verifyReads f).1 = verifyGptHeader f := by
  rw [verifyReads, verifyGptHeader, headerCrc, crc32, crcReads_eq]
  dsimp only
  split_ifs <;> simp_all

theorem mem_verifyReads {i : Nat} (h : i ∈ (verifyReads f).2) :
    i < 88 ∨ HeaderMarked f ∧ GPT_HEADER_SIZE ≤ (GptHeader.decode f 0).headerSize.toNat ∧
      i < (GptHeader.decode f 0).headerSize.toNat := by
  rw [verifyReads, crcReads_eq] at h
  dsimp only at h
  by_cases hsignature : (GptHeader.decode f 0).signature = GPT_HEADER_SIGNATURE
  · by_cases hrevision : (GptHeader.decode f 0).revision = GPT_HEADER_REVISION_V1
    · by_cases hsize : (GptHeader.decode f 0).headerSize.toNat < GPT_HEADER_SIZE
      · rw [if_neg (not_not.mpr hsignature), if_neg (not_not.mpr hrevision), if_pos hsize] at h
        simp only [List.mem_append, List.mem_range'_1] at h
        omega
      · have hmem : i < 88 ∨ i < (GptHeader.decode f 0).headerSize.toNat := by
          rw [if_neg (not_not.mpr hsignature), if_neg (not_not.mpr hrevision), if_neg hsize] at h
          split_ifs at h <;> simp only [List.mem_append, List.mem_range'_1] at h <;> omega
        exact hmem.imp_right fun hi => ⟨⟨hsignature, hrevision⟩, Nat.le_of_not_lt hsize, hi⟩
    · rw [if_neg (not_not.mpr hsignature), if_pos hrevision] at h
      simp only [List.mem_append, List.mem_range'_1] at h
      omega
  · rw [if_pos hsignature, List.mem_range'_1] at h
    omega

theorem verifyReads_covers (h : HeaderMarked f)
    (hsize : GPT_HEADER_SIZE ≤ (GptHeader.decode f 0).headerSize.toNat) {i : Nat}
    (hi : i < (GptHeader.decode f 0).headerSize.toNat) : i ∈ (verifyReads f).2 := by
  have hcrc : i ∈ List.range' 0 (GptHeader.decode f 0).headerSize.toNat := by
    rw [List.mem_range'_1]
    omega
  rw [verifyReads, crcReads_eq]
  dsimp only
  rw [if_neg (not_not.mpr h.signature), if_neg (not_not.mpr h.revision), if_neg (Nat.not_lt.mpr hsize)]
  split_ifs <;> simp only [List.mem_append, hcrc, or_true, true_or]

theorem verifyReads_congr {g : Nat → UInt8} (h : ∀ i ∈ (verifyReads f).2, f i = g i) :
    verifyReads g = verifyReads f := by
  rw [verifyReads, crcReads_eq] at h
  rw [verifyReads, verifyReads, crcReads_eq, crcReads_eq]
  dsimp only at h ⊢
  -- each check in turn: its field agrees, and if it fails nothing else is read
  have hsignature : (GptHeader.decode g 0).signature = (GptHeader.decode f 0).signature := by
    apply read64_agree
    intro i hi
    apply h i
    split_ifs <;> simp only [List.mem_append, hi, true_or]
  rw [hsignature]
  split
  · rfl
  rename_i hs
  rw [if_neg hs] at h
  have hrevision : (GptHeader.decode g 0).revision = (GptHeader.decode f 0).revision := by
    apply read32_agree
    intro i hi
    apply h i
    split_ifs <;> simp only [List.mem_append, hi, true_or, or_true]
  rw [hrevision]
  split
  · rfl
  rename_i hr
  rw [if_neg hr] at h
  have hsize : (GptHeader.decode g 0).headerSize = (GptHeader.decode f 0).headerSize := by
    apply read32_agree
    intro i hi
    apply h i
    split_ifs <;> simp only [List.mem_append, hi, true_or, or_true]
  rw [hsize]
  split
  · rfl
  rename_i hl
  rw [if_neg hl] at h
  have hchecksum : (GptHeader.decode g 0).headerCrc32 = (GptHeader.decode f 0).headerCrc32 := by
    apply read32_agree
    intro i hi
    apply h i
    split_ifs <;> simp only [List.mem_append, hi, true_or, or_true]
  have hcovered : slice (patch g 16 (le32 0)) 0 (GptHeader.decode f 0).headerSize.toNat =
      slice (patch f 16 (le32 0)) 0 (GptHeader.decode f 0).headerSize.toNat := by
    apply slice_agree _
    intro i hi
    apply h i
    split_ifs <;> simp only [List.mem_append, hi, true_or, or_true]
  rw [hchecksum, hcovered]
  split
  · rfl
  rename_i hc
  rw [if_neg hc] at h
  have hentry : (GptHeader.decode g 0).sizeofPartitionEntry = (GptHeader.decode f 0).sizeofPartitionEntry := by
    apply read32_agree
    intro i hi
    apply h i
    split_ifs <;> simp only [List.mem_append, hi, true_or, or_true]
  rw [hentry]
  split
  · rfl
  rename_i he
  rw [if_neg he] at h
  have hcount : (GptHeader.decode g 0).numPartitionEntries = (GptHeader.decode f 0).numPartitionEntries := by
    apply read32_agree
    intro i hi
    apply h i
    simp only [List.mem_append, hi, or_true]
  rw [hcount]

end Reads

/-- verifyGptHeader stays inside the sector exactly when a header that is marked as one does not
claim to be larger than it. -/
theorem header_reads_inside_iff {σ : Type} [Device σ] (b : Build) (device : σ) (f : Nat → UInt8) (size : Nat)
    (h : chooseSectorSize b device = some size) :
    ReadsInside f size ↔ ¬ (HeaderMarked f ∧ size < (GptHeader.decode f 0).headerSize.toNat) := by
  have hlarge : 512 ≤ size := by
    rw [chooseSectorSize_pow h]
    exact (chooseSectorSize_shift h).2
  constructor
  · rintro hin ⟨hmarked, hlt⟩
    have hmem := verifyReads_covers hmarked (by rw [GPT_HEADER_SIZE]; omega) hlt
    exact Nat.lt_irrefl _ (hin size hmem)
  · intro hgood i hi
    rcases mem_verifyReads hi with hfield | ⟨hmarked, -, hlt⟩
    · omega
    · have hle : (GptHeader.decode f 0).headerSize.toNat ≤ size := Nat.le_of_not_lt fun hlt => hgood ⟨hmarked, hlt⟩
      omega

/-- A sector that starts like a GPT header of `low + 256 * high` bytes. -/
def markedHeader (low high : UInt8) : Nat → UInt8 := fun i =>
  [0x45, 0x46, 0x49, 0x20, 0x50, 0x41, 0x52, 0x54, 0, 0, 1, 0, low, high].getD i 0

/-- Of the usual 92 bytes, all are in the sector. -/
theorem header_reads_inside_usual : ReadsInside (markedHeader 92 0) 512 := by
  refine (header_reads_inside_iff ⟨true, true, true, 512⟩ (⟨markedHeader 92 0, 512, 4096⟩ : RamDisk) _ 512 rfl).mpr ?_
  rintro ⟨-, hlt⟩
  exact absurd hlt (by decide)

/-- Of 513 bytes, the last is behind it. -/
theorem header_read_outside : chooseSectorSize ⟨true, true, true, 512⟩ (⟨markedHeader 1 2, 512, 4096⟩ : RamDisk) =
    some 512 ∧ ¬ ReadsInside (markedHeader 1 2) 512 := by
  refine ⟨rfl, fun hin => ?_⟩
  have hmarked : HeaderMarked (markedHeader 1 2) := ⟨by decide, by decide⟩
  have hmem : 512 ∈ (verifyReads (markedHeader 1 2)).2 := verifyReads_covers hmarked (by decide) (by decide)
  exact Nat.lt_irrefl _ (hin 512 hmem)

end DiskStorage
