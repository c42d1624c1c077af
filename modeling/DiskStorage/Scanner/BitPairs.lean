import DiskStorage.Scanner.Bursts
import DiskStorage.Lib.RegisterPeriod
import Mathlib.Tactic.NormNum.Prime

/-! Two changed bits do not escape the checksum of a header, however far they are apart. -/
namespace DiskStorage
open ByteStore LittleEndian ShiftRegister

section Period

/-- The binary digits of a number of 32 bits, the highest first. -/
def digits (n : Nat) : List Bool := (List.range 32).reverse.map n.testBit

private theorem moves_digits {n : Nat} (h : ofDigits (digits n) = n) :
    (shift crcPolynomial)^[n] (one 32) = moves crcPolynomial (digits n) := by
  rw [moves_eq, h]

private theorem crc_returns : (shift crcPolynomial)^[2 ^ 32 - 1] (one 32) = one 32 := by
  rw [moves_digits (by decide +kernel)]
  decide +kernel

private theorem prime_of_dvd {p : Nat} (hp : p.Prime) (h : p ∣ 2 ^ 32 - 1) : p ∈ [3, 5, 17, 257, 65537] := by
  have hparts : 2 ^ 32 - 1 = 3 * (5 * (17 * (257 * 65537))) := by norm_num
  have hprime : ∀ {q : Nat}, q.Prime → p ∣ q → p = q := fun hq hdvd => (Nat.prime_dvd_prime_iff_eq hp hq).mp hdvd
  rw [hparts, hp.dvd_mul, hp.dvd_mul, hp.dvd_mul, hp.dvd_mul] at h
  simp only [List.mem_cons, List.not_mem_nil, or_false]
  rcases h with h | h | h | h | h
  · exact .inl (hprime (by norm_num) h)
  · exact .inr (.inl (hprime (by norm_num) h))
  · exact .inr (.inr (.inl (hprime (by norm_num) h)))
  · exact .inr (.inr (.inr (.inl (hprime (by norm_num) h))))
  · exact .inr (.inr (.inr (.inr (hprime (by norm_num) h))))

theorem crc_period {d : Nat} (hpos : 0 < d) (hlt : d < 2 ^ 32 - 1) : (shift crcPolynomial)^[d] (one 32) ≠ one 32 := by
  have hparts : ∀ p ∈ [3, 5, 17, 257, 65537], ofDigits (digits ((2 ^ 32 - 1) / p)) = (2 ^ 32 - 1) / p ∧
      moves crcPolynomial (digits ((2 ^ 32 - 1) / p)) ≠ one 32 := by
    decide +kernel
  apply iterate_ne_of_prime_parts crc_returns _ hpos hlt
  intro p hp hdvd
  obtain ⟨hdigits, hmoves⟩ := hparts p (prime_of_dvd hp hdvd)
  rw [moves_digits hdigits]
  exact hmoves

end Period

theorem crc32_pair_ne {f g : Nat → UInt8} {n p q : Nat} (h : Pair (bit f) (bit g) (8 * n) p q)
    (hn : 8 * n < 2 ^ 32) (bcc : UInt32) : crc32 bcc (slice f 0 n) ≠ crc32 bcc (slice g 0 n) := by
  intro heq
  have hbits := congrArg UInt32.toBitVec heq
  rw [crc32_toBitVec, crc32_toBitVec, BitVec.not_inj] at hbits
  have hlt := h.lt
  have hin := h.inside
  exact foldl_feedByte_pair_ne crcPolynomial_msb (by decide) h (crc_period (by omega) (by omega)) _ hbits

section Header
variable {f g : Nat → UInt8} {sectorSize p q : Nat}

private theorem pair_field {n a m : Nat} (h : Pair (bit f) (bit g) n p q) (ha : 8 * (a + m) ≤ p) :
    read f a m = read g a m := by
  apply read_congr
  intro i hi
  apply h.byte_agree
  omega

private theorem verifyGptHeader_pair (hf : verifyGptHeader f = true)
    (hsize : (GptHeader.decode f 0).headerSize.toNat ≤ sectorSize) (hsector : sectorSize < 2 ^ 16)
    (h : Pair (bit f) (bit g) (8 * sectorSize) p q) (hlo : 8 * 20 ≤ p)
    (hhi : q < 8 * (GptHeader.decode f 0).headerSize.toNat) : verifyGptHeader g = false := by
  have hheaderSize : (GptHeader.decode g 0).headerSize = (GptHeader.decode f 0).headerSize :=
    congrArg UInt32.ofNat (pair_field h (by omega)).symm
  have hheaderCrc : (GptHeader.decode g 0).headerCrc32 = (GptHeader.decode f 0).headerCrc32 :=
    congrArg UInt32.ofNat (pair_field h (by omega)).symm
  -- the checksum is taken over the header with zeros in its own place
  have hcovered : Pair (bit (patch f 16 (le32 0))) (bit (patch g 16 (le32 0)))
      (8 * (GptHeader.decode f 0).headerSize.toNat) p q := by
    apply h.overwrite (Nat.mul_le_mul_left 8 hsize) hhi
    rw [length_le32]
    exact hlo
  by_contra hg
  rw [Bool.not_eq_false] at hg
  apply crc32_pair_ne hcovered (by omega) 0
  calc
    headerCrc f (GptHeader.decode f 0).headerSize.toNat = (GptHeader.decode f 0).headerCrc32 := verifyGptHeader_crc hf
    _ = (GptHeader.decode g 0).headerCrc32 := hheaderCrc.symm
    _ = headerCrc g (GptHeader.decode g 0).headerSize.toNat := (verifyGptHeader_crc hg).symm
    _ = headerCrc g (GptHeader.decode f 0).headerSize.toNat := by rw [hheaderSize]

end Header

/-- A valid header with any two bits flipped behind its checksum is rejected, since crc32 tells buffers of
less than 512 MiB apart that differ in two bits, wherever these are. -/
theorem header_pairs_detected :
    (∀ (f g : Nat → UInt8) (sectorSize p q : Nat), verifyGptHeader f = true →
      (GptHeader.decode f 0).headerSize.toNat ≤ sectorSize → sectorSize < 2 ^ 16 →
      Pair (bit f) (bit g) (8 * sectorSize) p q → 8 * 20 ≤ p →
      q < 8 * (GptHeader.decode f 0).headerSize.toNat → verifyGptHeader g = false) ∧
    ∀ (bcc : UInt32) (l r : List UInt8) (p q : Nat), l.length = r.length → 8 * l.length < 2 ^ 32 →
      Pair (bit fun i => l.getD i 0) (bit fun i => r.getD i 0) (8 * l.length) p q → crc32 bcc l ≠ crc32 bcc r := by
  constructor
  · intro f g sectorSize p q hf hsize hsector h hlo hhi
    exact verifyGptHeader_pair hf hsize hsector h hlo hhi
  · intro bcc l r p q hlen hn h
    have hne := crc32_pair_ne h hn bcc
    rwa [slice_getD l 0, hlen, slice_getD r 0] at hne

/-- The first bit behind the checksum and the last one of the header. -/
theorem header_pairs_detected_ends :
    verifyGptHeader (patch (patch plainHeader 20 [1]) 91 [128]) = false ∧ crc32 0 [1, 0] ≠ crc32 0 [0, 1] := by
  have hverify : verifyGptHeader plainHeader = true := by decide +kernel
  have hsize : (GptHeader.decode plainHeader 0).headerSize.toNat = 92 := by decide +kernel
  have hpair : Pair (bit plainHeader) (bit (patch (patch plainHeader 20 [1]) 91 [128])) (8 * 512) (8 * 20) 735 := by
    refine ⟨by decide, by decide, fun i _ => ?_⟩
    by_cases hfirst : i / 8 = 20
    · have hin : i = 160 ∨ i = 161 ∨ i = 162 ∨ i = 163 ∨ i = 164 ∨ i = 165 ∨ i = 166 ∨ i = 167 := by omega
      rcases hin with rfl | rfl | rfl | rfl | rfl | rfl | rfl | rfl <;> decide +kernel
    · by_cases hlast : i / 8 = 91
      · have hin : i = 728 ∨ i = 729 ∨ i = 730 ∨ i = 731 ∨ i = 732 ∨ i = 733 ∨ i = 734 ∨ i = 735 := by omega
        rcases hin with rfl | rfl | rfl | rfl | rfl | rfl | rfl | rfl <;> decide +kernel
      · have hout : i / 8 < 91 ∨ 91 + [(128 : UInt8)].length ≤ i / 8 := by
          rw [List.length_singleton]
          omega
        have hout' : i / 8 < 20 ∨ 20 + [(1 : UInt8)].length ≤ i / 8 := by
          rw [List.length_singleton]
          omega
        rw [bit, bit, patch_outside _ _ hout, patch_outside _ _ hout']
        constructor
        · exact fun hne => absurd rfl hne
        · intro hi
          omega
  constructor
  · exact header_pairs_detected.1 plainHeader _ 512 (8 * 20) 735 hverify (by rw [hsize]; decide) (by decide) hpair
      le_rfl (by rw [hsize]; decide)
  · exact header_pairs_detected.2 0 [1, 0] [0, 1] 0 8 rfl (by decide) ⟨by decide, by decide, by decide⟩

end DiskStorage
