import DiskStorage.Scanner.Model
import DiskStorage.Lib.ShiftRegister

/-! Burst errors: changed bits that lie close together do not escape the checksum of a header. -/
namespace DiskStorage
open ByteStore LittleEndian ShiftRegister

section Checksum

/-- The polynomial of crc32, low bits first. -/
def crcPolynomial : BitVec 32 := 0xEDB88320#32

theorem crcPolynomial_msb : crcPolynomial.msb = true := rfl

theorem crcBit_toBitVec (crc : UInt32) : (crcBit crc).toBitVec = shift crcPolynomial crc.toBitVec := by
  have hmask : (crc &&& 1).toBitVec = BitVec.setWidth 32 (BitVec.ofBool (crc.toBitVec.getLsbD 0)) :=
    BitVec.and_one_eq_setWidth_ofBool_getLsbD
  rw [crcBit, shift, UInt32.toBitVec_xor, UInt32.toBitVec_and, UInt32.toBitVec_sub, hmask]
  cases crc.toBitVec.getLsbD 0 <;> rfl

theorem crc32Byte_toBitVec (crc : UInt32) (d : UInt8) :
    (crc32Byte crc d).toBitVec = feedByte crcPolynomial crc.toBitVec d := by
  have hbits : ∀ n (x : UInt32), (Nat.repeat crcBit n x).toBitVec = (shift crcPolynomial)^[n] x.toBitVec := by
    intro n x
    induction n with
    | zero => rfl
    | succ n ih => rw [Nat.repeat, crcBit_toBitVec, ih, Function.iterate_succ_apply']
  exact hbits 8 (crc ^^^ d.toUInt32)

theorem foldl_crc32Byte_toBitVec (l : List UInt8) (crc : UInt32) :
    (l.foldl crc32Byte crc).toBitVec = l.foldl (feedByte crcPolynomial) crc.toBitVec := by
  induction l generalizing crc with
  | nil => rfl
  | cons d l ih => rw [List.foldl_cons, List.foldl_cons, ih, crc32Byte_toBitVec]

/-- The checksum is that of the shift register, complemented before and after. -/
theorem crc32_toBitVec (bcc : UInt32) (l : List UInt8) :
    (crc32 bcc l).toBitVec = ~~~(l.foldl (feedByte crcPolynomial) (~~~bcc).toBitVec) := by
  rw [crc32, UInt32.toBitVec_not, foldl_crc32Byte_toBitVec]

theorem crc32_slice_ne {f g : Nat → UInt8} {n p : Nat} (h : Burst (bit f) (bit g) (8 * n) p 32) (bcc : UInt32) :
    crc32 bcc (slice f 0 n) ≠ crc32 bcc (slice g 0 n) := by
  intro heq
  have hbits := congrArg UInt32.toBitVec heq
  rw [crc32_toBitVec, crc32_toBitVec, BitVec.not_inj] at hbits
  exact foldl_feedByte_ne crcPolynomial f crcPolynomial_msb (by decide) h _ hbits

theorem crc32_burst_ne (bcc : UInt32) (l r : List UInt8) (p : Nat) (hlen : l.length = r.length)
    (h : Burst (bit fun i => l.getD i 0) (bit fun i => r.getD i 0) (8 * l.length) p 32) :
    crc32 bcc l ≠ crc32 bcc r := by
  have hne := crc32_slice_ne h bcc
  rwa [slice_getD l 0, hlen, slice_getD r 0] at hne

end Checksum

section Header
variable {f g : Nat → UInt8} {sectorSize p : Nat}

private theorem burst_field {n a m : Nat} (h : Burst (bit f) (bit g) (8 * n) p 32) (ha : 8 * (a + m) ≤ p)
    (hn : a + m ≤ n) : read f a m = read g a m := by
  apply read_congr
  intro i hi
  exact h.byte_agree (by omega) (by omega)

theorem verifyGptHeader_crc (h : verifyGptHeader f = true) :
    headerCrc f (GptHeader.decode f 0).headerSize.toNat = (GptHeader.decode f 0).headerCrc32 := by
  simp only [verifyGptHeader, Bool.and_eq_true, beq_iff_eq] at h
  exact h.1.1.2

theorem verifyGptHeader_burst (f g : Nat → UInt8) (sectorSize p : Nat) (hf : verifyGptHeader f = true)
    (hsize : (GptHeader.decode f 0).headerSize.toNat ≤ sectorSize)
    (h : Burst (bit f) (bit g) (8 * sectorSize) p 32) (hlo : 8 * 20 ≤ p)
    (hhi : p + 32 ≤ 8 * (GptHeader.decode f 0).headerSize.toNat) : verifyGptHeader g = false := by
  have hheaderSize : (GptHeader.decode g 0).headerSize = (GptHeader.decode f 0).headerSize :=
    congrArg UInt32.ofNat (burst_field h (by omega) (by omega)).symm
  have hheaderCrc : (GptHeader.decode g 0).headerCrc32 = (GptHeader.decode f 0).headerCrc32 :=
    congrArg UInt32.ofNat (burst_field h (by omega) (by omega)).symm
  -- the checksum field is zero in what the checksum is taken over
  have hcovered : Burst (bit (patch f 16 (le32 0))) (bit (patch g 16 (le32 0)))
      (8 * (GptHeader.decode f 0).headerSize.toNat) p 32 :=
    h.overwrite (Nat.mul_le_mul_left 8 hsize) hhi (by rw [length_le32]; omega)
  by_contra hg
  rw [Bool.not_eq_false] at hg
  -- both checksums would be the stored one
  apply crc32_slice_ne hcovered 0
  calc
    headerCrc f (GptHeader.decode f 0).headerSize.toNat = (GptHeader.decode f 0).headerCrc32 := verifyGptHeader_crc hf
    _ = (GptHeader.decode g 0).headerCrc32 := hheaderCrc.symm
    _ = headerCrc g (GptHeader.decode g 0).headerSize.toNat := (verifyGptHeader_crc hg).symm
    _ = headerCrc g (GptHeader.decode f 0).headerSize.toNat := by rw [hheaderSize]

end Header

/-- A valid header with any burst of up to 32 bits behind its checksum is rejected, since crc32
tells buffers with such a burst apart wherever it is. -/
theorem header_bursts_detected :
    (∀ (f g : Nat → UInt8) (sectorSize p : Nat), verifyGptHeader f = true →
      (GptHeader.decode f 0).headerSize.toNat ≤ sectorSize → Burst (bit f) (bit g) (8 * sectorSize) p 32 →
      8 * 20 ≤ p → p + 32 ≤ 8 * (GptHeader.decode f 0).headerSize.toNat → verifyGptHeader g = false) ∧
    ∀ (bcc : UInt32) (l r : List UInt8) (p : Nat), l.length = r.length →
      Burst (bit fun i => l.getD i 0) (bit fun i => r.getD i 0) (8 * l.length) p 32 → crc32 bcc l ≠ crc32 bcc r :=
  ⟨verifyGptHeader_burst, crc32_burst_ne⟩

/-- A header of 92 bytes, with its checksum. -/
def plainHeader : Nat → UInt8 :=
  patch (fun _ => 0) 0 ([0x45, 0x46, 0x49, 0x20, 0x50, 0x41, 0x52, 0x54, 0, 0, 1, 0, 92, 0, 0, 0, 0x42, 0xbc, 0xbe,
    0x05] ++ (List.replicate 60 0 ++ [128, 0, 0, 0, 128, 0, 0, 0]))

/-- One bit of its first byte behind the checksum. -/
theorem header_bursts_detected_flip :
    verifyGptHeader (patch plainHeader 20 [1]) = false ∧ crc32 0 [0, 0] ≠ crc32 0 [0, 1] := by
  have hverify : verifyGptHeader plainHeader = true := by decide +kernel
  have hsize : (GptHeader.decode plainHeader 0).headerSize.toNat = 92 := by decide +kernel
  have hburst : Burst (bit plainHeader) (bit (patch plainHeader 20 [1])) (8 * 512) (8 * 20) 32 := by
    constructor
    · intro i _ hne
      by_contra hout
      apply hne
      have hbyte : i / 8 < 20 ∨ 20 + [(1 : UInt8)].length ≤ i / 8 := by
        rw [List.length_singleton]
        omega
      rw [bit, bit, patch_outside plainHeader _ hbyte]
    · exact ⟨160, by decide, by decide +kernel⟩
  constructor
  · exact header_bursts_detected.1 plainHeader _ 512 (8 * 20) hverify (by rw [hsize]; decide) hburst le_rfl
      (by rw [hsize]; decide)
  · exact header_bursts_detected.2 0 [0, 0] [0, 1] 8 rfl ⟨by decide, 8, by decide, by decide⟩

end DiskStorage
