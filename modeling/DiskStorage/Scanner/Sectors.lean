import DiskStorage.Scanner.Model
import Mathlib.Tactic.SplitIfs

/-! What the scanner takes from a sector lies in its first 512 bytes. -/
namespace DiskStorage
open ByteStore LittleEndian

variable {b : Build} {f g : Nat → UInt8}

theorem patch_slice (buffer f : Nat → UInt8) (a : Nat) {i n : Nat} (hi : i < n) :
    patch buffer 0 (slice f a n) i = f (a + i) := by
  have hlt : i < (slice f a n).length := by rwa [slice_length]
  have h := patch_inside buffer 0 (slice f a n) hlt
  rw [Nat.zero_add] at h
  rw [h, getElem_slice]

section Congr
variable (h : ∀ i < 512, f i = g i)
include h

private theorem read16_congr {o : Nat} (ho : o + 2 ≤ 512) : read16 f o = read16 g o :=
  congrArg UInt16.ofNat (read_congr fun _ _ => h _ (by omega))

private theorem read32_congr {o : Nat} (ho : o + 4 ≤ 512) : read32 f o = read32 g o :=
  congrArg UInt32.ofNat (read_congr fun _ _ => h _ (by omega))

private theorem read64_congr {o : Nat} (ho : o + 8 ≤ 512) : read64 f o = read64 g o :=
  congrArg UInt64.ofNat (read_congr fun _ _ => h _ (by omega))

theorem mbrRecord_congr {i : Nat} (hi : i < 4) : mbrRecord f i = mbrRecord g i := by
  have hread : ∀ {o}, o + 4 ≤ 16 → read32 f (446 + i * 16 + o) = read32 g (446 + i * 16 + o) := fun ho =>
    read32_congr h (by omega)
  have hbyte : ∀ {o}, o < 16 → f (446 + i * 16 + o) = g (446 + i * 16 + o) := fun ho => h _ (by omega)
  rw [mbrRecord, mbrRecord, MbrRecord.decode, MbrRecord.decode]
  simp only [MBR_RECORDS, MBR_RECORD_SIZE]
  rw [hbyte (by decide : 0 < 16), hbyte (by decide : 1 < 16), hbyte (by decide : 2 < 16), hbyte (by decide : 3 < 16),
    hbyte (by decide : 4 < 16), hbyte (by decide : 5 < 16), hbyte (by decide : 6 < 16), hbyte (by decide : 7 < 16),
    hread (by decide : 8 + 4 ≤ 16), hread (by decide : 12 + 4 ≤ 16)]

theorem mbrSignature_congr : mbrSignature f = mbrSignature g := read16_congr h (by decide)

theorem scanMbrEntries_congr (lba : UInt32) : scanMbrEntries f lba = scanMbrEntries g lba := by
  rw [scanMbrEntries, scanMbrEntries, List.map_congr_left fun i hi => mbrRecord_congr h (List.mem_range.mp hi)]

theorem identify_congr (types : PartitionTypes) (offset : Nat) :
    identify b types f offset = identify b types g offset := by
  have hslice : ∀ {o}, o + 11 ≤ 512 → slice f o 11 = slice g o 11 := fun ho => slice_congr fun _ _ => h _ (by omega)
  rw [identify, isFat, fatSize, MSDOS_NAME, read16_congr h (show 510 + 2 ≤ 512 by decide),
    read64_congr h (show 3 + 8 ≤ 512 by decide), read64_congr h (show 72 + 8 ≤ 512 by decide),
    read64_congr h (show 82 + 8 ≤ 512 by decide), read32_congr h (show 32 + 4 ≤ 512 by decide),
    read16_congr h (show 11 + 2 ≤ 512 by decide), read16_congr h (show 14 + 2 ≤ 512 by decide),
    read16_congr h (show 17 + 2 ≤ 512 by decide), read16_congr h (show 19 + 2 ≤ 512 by decide),
    read16_congr h (show 22 + 2 ≤ 512 by decide), hslice (show 71 + 11 ≤ 512 by decide),
    hslice (show 43 + 11 ≤ 512 by decide), h 0 (by decide), h 13 (by decide), h 16 (by decide), h 108 (by decide)]
  rfl

end Congr

theorem chooseSectorSize_shift {σ : Type} [Device σ] {device : σ} {size : Nat}
    (h : chooseSectorSize b device = some size) : 9 ≤ getSizeBits size ∧ 512 ≤ 2 ^ getSizeBits size := by
  have hsize : 512 ≤ size := by
    rw [chooseSectorSize] at h
    split at h
    · dsimp only at h
      split at h
      · cases h
      · rename_i hout
        cases h
        have := (not_or.mp (not_or.mp hout).2).1
        exact Nat.le_of_not_lt this
    · rename_i heq
      cases h
      exact Nat.le_of_eq (of_not_not heq).symm
  have hbits : 9 ≤ getSizeBits size := (Nat.le_log2 (by omega)).mpr hsize
  exact ⟨hbits, Nat.pow_le_pow_right (n := 2) (by decide) hbits⟩

theorem chooseSectorSize_pow {σ : Type} [Device σ] {device : σ} {size : Nat}
    (h : chooseSectorSize b device = some size) : size = 2 ^ getSizeBits size := by
  rw [chooseSectorSize] at h
  split at h
  · dsimp only at h
    split at h
    · cases h
    · rename_i hout
      cases h
      have hlog := (not_or.mp (not_or.mp hout).2).2
      rw [Bool.not_eq_true, Bool.not_eq_false', isLog2, beq_iff_eq] at hlog
      exact hlog
  · rename_i heq
    cases h
    rw [of_not_not heq]
    decide

theorem chooseSectorSize_lt {σ : Type} [Device σ] {device : σ} {size : Nat}
    (h : chooseSectorSize b device = some size) : getSizeBits size < 16 := by
  have hpos : size ≠ 0 := by
    rw [chooseSectorSize_pow h]
    exact (Nat.two_pow_pos _).ne'
  apply (Nat.log2_lt hpos).mpr
  rw [chooseSectorSize] at h
  split at h
  · dsimp only at h
    split at h
    · cases h
    · cases h
      exact Nat.mod_lt _ (by decide)
  · rename_i heq
    cases h
    rw [of_not_not heq]
    decide

/-- A sector number is taken modulo the word size in any case. -/
theorem sectorAddress_mod (b : Build) (shift sector : Nat) :
    sectorAddress b shift (sector % 2 ^ 64) = sectorAddress b shift sector := by
  have hdvd : b.storageSize ∣ 2 ^ 64 := by
    rcases b.storageSize_cases with h | h
    · rw [h]
    · rw [h]
      decide
  have hsector : b.storage (sector % 2 ^ 64) = b.storage sector := Nat.mod_mod_of_dvd sector hdvd
  rw [sectorAddress, hsector, sectorAddress]

theorem readSector_congr {σ : Type} [Device σ] {sc : Scanner} {device : σ} {buffer : Nat → UInt8} {s s' : Nat}
    (h : s % 2 ^ 64 = s' % 2 ^ 64) : readSector b sc device buffer s = readSector b sc device buffer s' := by
  rw [readSector, readSector, ← sectorAddress_mod b _ s, h, sectorAddress_mod]

theorem identify_none {types : PartitionTypes} {f : Nat → UInt8} {offset : Nat}
    (h : identify b types f offset = none) (offset' : Nat) : identify b types f offset' = none := by
  rw [identify] at h ⊢
  split_ifs at h ⊢
  rfl
  rfl

theorem identify_offset {types : PartitionTypes} {f : Nat → UInt8} {offset : Nat} {part : PartInfo b}
    (h : identify b types f offset = some part) : part.offset = b.storage offset := by
  rw [identify] at h
  split_ifs at h
  all_goals
    cases h
    rfl

/-- The jump and the name at its start tell a boot sector. -/
theorem identify_of_start {types : PartitionTypes} (hjump : ¬ (f 0 = 0xEB ∨ f 0 = 0xE9 ∨ f 0 = 0xE8))
    (hname : f 3 ≠ 0x45) (offset : Nat) : identify b types f offset = none := by
  have hexfat : read64 f 3 ≠ FSTYPE_EXFAT := by
    intro heq
    have hlt : read f 3 8 < 2 ^ 64 := read_lt f 3 8
    have hread : read f 3 8 = FSTYPE_EXFAT.toNat := (UInt64.toNat_ofNat_of_lt' hlt).symm.trans (congrArg UInt64.toNat heq)
    have hfirst : read f 3 8 = (f 3).toNat + 256 * decode (slice f 4 7) := rfl
    have hbyte : (f 3).toNat = 0x45 := by
      have hsize := (f 3).toNat_lt
      have hvalue : FSTYPE_EXFAT.toNat = 0x2020205441465845 := rfl
      omega
    exact hname (UInt8.toNat_inj.mp hbyte)
  rw [identify, if_neg (fun hand => hexfat hand.2), if_neg hjump]

/-- A sector without boot code is no boot sector. -/
theorem identify_of_no_boot_code {types : PartitionTypes} (h : ∀ i < MBR_RECORDS, f i = 0) (offset : Nat) :
    identify b types f offset = none := by
  refine identify_of_start ?_ ?_ offset
  · rw [h 0 (by decide)]
    decide
  · rw [h 3 (by decide)]
    decide

theorem GptEntry.decode_congr {f g : Nat → UInt8} {a : Nat} (h : ∀ i < GPT_ENTRY_SIZE, f (a + i) = g (a + i)) :
    GptEntry.decode f a = GptEntry.decode g a := by
  have hread : ∀ {o n}, o + n ≤ GPT_ENTRY_SIZE → read f (a + o) n = read g (a + o) n := by
    intro o n ho
    apply read_congr
    intro i hi
    rw [Nat.add_assoc]
    exact h _ (by omega)
  have hguid : ∀ {o}, o + 16 ≤ GPT_ENTRY_SIZE → readUuid f (a + o) = readUuid g (a + o) := by
    intro o ho
    funext i
    rw [readUuid, readUuid, Nat.add_assoc]
    exact h _ (by omega)
  rw [decode, decode, hguid (by decide : 0 + 16 ≤ _), hguid (by decide : 16 + 16 ≤ _)]
  simp only [read16, read64]
  rw [hread (by decide : 32 + 8 ≤ _), hread (by decide : 40 + 8 ≤ _), hread (by decide : 48 + 8 ≤ _)]
  refine congrArg (GptEntry.mk _ _ _ _ _) (funext fun j => ?_)
  have hj := j.isLt
  rw [hread (o := 56 + j.val * 2) (n := 2) (by rw [GPT_ENTRY_SIZE]; omega)]

theorem GptEntry.decode_shift (f : Nat → UInt8) (c a : Nat) :
    GptEntry.decode (fun i => f (c + i)) a = GptEntry.decode f (c + a) := by
  have hread : ∀ o n, read (fun i => f (c + i)) (a + o) n = read f (c + a + o) n := by
    intro o n
    simp only [LittleEndian.read, slice, Nat.add_assoc]
  have hguid : ∀ o, readUuid (fun i => f (c + i)) (a + o) = readUuid f (c + a + o) := by
    intro o
    funext i
    simp only [readUuid, Nat.add_assoc]
  simp only [decode, read16, read64, hread, hguid]

end DiskStorage
