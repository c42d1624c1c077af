import DiskStorage.Lib.ByteStore
import Mathlib.Logic.Function.Iterate

/-! Cyclic checksums, low bits first: a register that takes in one bit at a time, and the
bursts of changed bits that it tells apart. -/
namespace ShiftRegister
open ByteStore

section Register
variable {w : Nat} (poly : BitVec w)

/-- The register moves down by one place. A bit that drops out brings in the polynomial. -/
def shift (x : BitVec w) : BitVec w := (x >>> 1) ^^^ (if x.getLsbD 0 then poly else 0)

/-- A bit in the lowest place. -/
def low (w : Nat) (bit : Bool) : BitVec w := (BitVec.ofBool bit).setWidth w

/-- One bit is taken in. -/
def feed (x : BitVec w) (bit : Bool) : BitVec w := shift poly (x ^^^ low w bit)

def run (x : BitVec w) (bits : List Bool) : BitVec w := bits.foldl (feed poly) x

/-- Bits as a word, the first one in the lowest place. -/
def word (w : Nat) (bits : List Bool) : BitVec w := (BitVec.ofBoolListLE bits).setWidth w

@[simp] theorem getElem_low (bit : Bool) {i : Nat} (h : i < w) : (low w bit)[i] = (decide (i = 0) && bit) := by
  simp [low, BitVec.getLsbD_ofBool]

@[simp] theorem getElem_word (bits : List Bool) {i : Nat} (h : i < w) : (word w bits)[i] = bits.getD i false := by
  simp [word]

theorem run_append (x : BitVec w) (l r : List Bool) : run poly x (l ++ r) = run poly (run poly x l) r :=
  List.foldl_append

/-- The register is linear. -/
theorem shift_xor (x y : BitVec w) : shift poly (x ^^^ y) = shift poly x ^^^ shift poly y := by
  apply BitVec.eq_of_getLsbD_eq
  intro i _
  simp only [shift, BitVec.getLsbD_xor, BitVec.getLsbD_ushiftRight]
  cases x.getLsbD 0 <;> cases y.getLsbD 0 <;> simp <;> grind

/-- Nothing drops out of a word that has been moved up. -/
theorem shift_shiftLeft {x : BitVec w} (h : x.msb = false) : shift poly (x <<< 1) = x := by
  apply BitVec.eq_of_getLsbD_eq
  intro i hi
  rw [BitVec.msb_eq_getLsbD_last] at h
  by_cases hlast : 1 + i < w
  · simp [shift, hlast, hi]
  · obtain rfl : i = w - 1 := by omega
    simp [shift, hlast, h]

theorem word_cons (bit : Bool) (bits : List Bool) : word w (bit :: bits) = low w bit ^^^ word w bits <<< 1 := by
  apply BitVec.eq_of_getLsbD_eq
  intro i hi
  cases i with
  | zero => simp [hi]
  | succ i => simp [hi]

theorem word_msb {bits : List Bool} (h : bits.length < w) : (word w bits).msb = false := by
  have hout : bits.length ≤ w - 1 := by omega
  have hlast : w - 1 < w := by omega
  rw [BitVec.msb_eq_getLsbD_last, BitVec.getLsbD_eq_getElem hlast, getElem_word]
  simp [hout]

/-- Bits that fit the register may all be put in before it moves. -/
theorem run_eq_shifts {bits : List Bool} (h : bits.length ≤ w) (x : BitVec w) :
    run poly x bits = (shift poly)^[bits.length] (x ^^^ word w bits) := by
  induction bits generalizing x with
  | nil =>
    have hzero : word w [] = 0#w := rfl
    rw [hzero, BitVec.xor_zero]
    rfl
  | cons bit bits ih =>
    have hlen : bits.length < w := h
    have hstep : feed poly x bit ^^^ word w bits = shift poly (x ^^^ word w (bit :: bits)) := by
      rw [word_cons, ← BitVec.xor_assoc, shift_xor poly _ (word w bits <<< 1), shift_shiftLeft poly (word_msb hlen)]
      rfl
    calc
      run poly x (bit :: bits) = run poly (feed poly x bit) bits := rfl
      _ = (shift poly)^[bits.length] (feed poly x bit ^^^ word w bits) := ih hlen.le (feed poly x bit)
      _ = (shift poly)^[(bit :: bits).length] (x ^^^ word w (bit :: bits)) := by
        rw [hstep, List.length_cons, Function.iterate_succ_apply]

theorem word_injective {l r : List Bool} (hlen : l.length = r.length) (hw : l.length ≤ w)
    (h : word w l = word w r) : l = r := by
  apply List.ext_getElem hlen
  intro i hl hr
  have hi : i < w := by omega
  have hbit : (word w l)[i] = (word w r)[i] := by rw [h]
  simpa [hl, hr] using hbit

section Injective
variable {poly} (hpoly : poly.msb = true)
include hpoly

/-- The highest place shows whether the polynomial was brought in. -/
theorem msb_shift (x : BitVec w) : (shift poly x).msb = x.getLsbD 0 := by
  have hout : (x >>> 1).msb = false := by
    rw [BitVec.msb_eq_getLsbD_last, BitVec.getLsbD_ushiftRight]
    exact BitVec.getLsbD_of_ge x _ (by omega)
  rw [shift, BitVec.msb_xor, hout]
  cases x.getLsbD 0 <;> simp [hpoly]

theorem shift_injective : Function.Injective (shift poly) := by
  intro x y h
  have hlow : x.getLsbD 0 = y.getLsbD 0 := by
    rw [← msb_shift hpoly x, ← msb_shift hpoly y, h]
  have hup : x >>> 1 = y >>> 1 := by
    rw [shift, shift, hlow] at h
    exact (BitVec.xor_left_inj _).mp h
  apply BitVec.eq_of_getLsbD_eq
  intro i _
  cases i with
  | zero => exact hlow
  | succ i =>
    have hbit := congrArg (fun z : BitVec w => z.getLsbD i) hup
    simpa only [BitVec.getLsbD_ushiftRight, Nat.add_comm 1 i] using hbit

theorem feed_injective (bit : Bool) : Function.Injective fun x => feed poly x bit := by
  intro x y h
  exact (BitVec.xor_left_inj _).mp (shift_injective hpoly h)

/-- Registers that differ still differ after the same bits. -/
theorem run_injective (bits : List Bool) : Function.Injective fun x => run poly x bits := by
  induction bits with
  | nil => exact Function.injective_id
  | cons bit bits ih => exact ih.comp (feed_injective hpoly bit)

/-- Streams that differ in a window which fits the register are told apart, whatever is around it. -/
theorem run_window_ne {l r : List Bool} (hlen : l.length = r.length) (hw : l.length ≤ w) (hne : l ≠ r)
    (x : BitVec w) (front back : List Bool) :
    run poly x (front ++ (l ++ back)) ≠ run poly x (front ++ (r ++ back)) := by
  intro h
  rw [run_append, run_append, run_append poly x front, run_append poly _ r] at h
  have hwindow : run poly (run poly x front) l = run poly (run poly x front) r := run_injective hpoly back h
  rw [run_eq_shifts poly hw, run_eq_shifts poly (hlen.ge.trans hw), hlen] at hwindow
  have hword := (shift_injective hpoly).iterate _ hwindow
  exact hne (word_injective hlen hw ((BitVec.xor_right_inj _).mp hword))

end Injective

end Register

/-- Two streams of `n` bits differ, and only in the `w` bits from `p` on. -/
structure Burst (u v : Nat → Bool) (n p w : Nat) : Prop where
  inside : ∀ i < n, u i ≠ v i → p ≤ i ∧ i < p + w
  differs : ∃ i < n, u i ≠ v i

theorem Burst.agree {u v : Nat → Bool} {n p w i : Nat} (h : Burst u v n p w) (hi : i < n)
    (hout : i < p ∨ p + w ≤ i) : u i = v i := by
  by_contra hne
  have hinside := h.inside i hi hne
  omega

theorem Burst.split {u v : Nat → Bool} {n p w : Nat} (h : Burst u v n p w) :
    ∃ front l r back, slice u 0 n = front ++ (l ++ back) ∧ slice v 0 n = front ++ (r ++ back) ∧
      l.length = r.length ∧ l.length ≤ w ∧ l ≠ r := by
  obtain ⟨i, hi, hne⟩ := h.differs
  obtain ⟨hpi, hiw⟩ := h.inside i hi hne
  -- the window may reach beyond the last bit
  obtain ⟨k, m, hn, hk, hik⟩ : ∃ k m, n = p + (k + m) ∧ k ≤ w ∧ i < p + k ∧ (m = 0 ∨ k = w) :=
    ⟨min w (n - p), n - p - min w (n - p), by omega, by omega, by omega, by omega⟩
  have hfront : slice v 0 p = slice u 0 p := by
    apply slice_congr
    intro j hj
    exact (h.agree (by omega) (by omega)).symm
  have hback : slice v (p + k) m = slice u (p + k) m := by
    apply slice_congr
    intro j hj
    exact (h.agree (by omega) (by omega)).symm
  refine ⟨slice u 0 p, slice u p k, slice v p k, slice u (p + k) m, ?_, ?_, by simp, by simpa using hk, ?_⟩
  · rw [hn, slice_add, slice_add, Nat.zero_add]
  · rw [hn, slice_add, slice_add, Nat.zero_add, hfront, hback]
  · intro heq
    have hone := slice_inside (o := i - p) (m := 1) heq (by omega)
    rw [Nat.add_sub_cancel' hpi] at hone
    exact hne (List.singleton_inj.mp hone)

section Bytes
variable {w : Nat} (poly : BitVec w) (f : Nat → UInt8)

/-- The bits of a store of bytes, least significant first. -/
def bit (f : Nat → UInt8) (i : Nat) : Bool := (f (i / 8)).toBitVec.getLsbD (i % 8)

/-- Eight moves take in a byte. -/
def feedByte (x : BitVec w) (byte : UInt8) : BitVec w := (shift poly)^[8] (x ^^^ byte.toBitVec.setWidth w)

theorem bit_byte {a j : Nat} (hj : j < 8) : bit f (8 * a + j) = (f a).toBitVec.getLsbD j := by
  have hdiv : (8 * a + j) / 8 = a := by omega
  have hmod : (8 * a + j) % 8 = j := by omega
  rw [bit, hdiv, hmod]

theorem byte_ext {f g : Nat → UInt8} {a : Nat} (h : ∀ j < 8, bit f (8 * a + j) = bit g (8 * a + j)) : f a = g a := by
  apply UInt8.toBitVec_inj.mp
  apply BitVec.eq_of_getLsbD_eq
  intro j hj
  rw [← bit_byte f hj, h j hj, bit_byte g hj]

theorem Burst.byte_agree {f g : Nat → UInt8} {n p a : Nat} (h : Burst (bit f) (bit g) n p w) (ha : 8 * (a + 1) ≤ n)
    (hout : 8 * (a + 1) ≤ p ∨ p + w ≤ 8 * a) : f a = g a := by
  apply byte_ext
  intro j hj
  exact h.agree (by omega) (by omega)

/-- A burst stays when the same bytes are put beside it, and what is behind it is left out. -/
theorem Burst.overwrite {f g : Nat → UInt8} {n m p a : Nat} {l : List UInt8} (h : Burst (bit f) (bit g) n p w)
    (hm : m ≤ n) (hin : p + w ≤ m) (hout : 8 * (a + l.length) ≤ p ∨ p + w ≤ 8 * a) :
    Burst (bit (patch f a l)) (bit (patch g a l)) m p w where
  inside := by
    intro i hi hne
    apply h.inside i (by omega)
    intro heq
    apply hne
    by_cases hover : i / 8 < a ∨ a + l.length ≤ i / 8
    · rw [bit, bit, patch_outside f l hover, patch_outside g l hover]
      exact heq
    · obtain ⟨k, hk⟩ := Nat.exists_eq_add_of_le (Nat.le_of_not_lt (not_or.mp hover).1)
      have hlt : k < l.length := by omega
      rw [bit, bit, hk, patch_inside f a l hlt, patch_inside g a l hlt]
  differs := by
    obtain ⟨i, hi, hne⟩ := h.differs
    obtain ⟨hpi, hip⟩ := h.inside i hi hne
    have hover : i / 8 < a ∨ a + l.length ≤ i / 8 := by omega
    refine ⟨i, by omega, ?_⟩
    rw [bit, bit, patch_outside f l hover, patch_outside g l hover]
    exact hne

theorem word_byte (a : Nat) : word w (slice (bit f) (8 * a) 8) = (f a).toBitVec.setWidth w := by
  apply BitVec.eq_of_getLsbD_eq
  intro i hi
  by_cases hbyte : i < 8
  · simp [hi, hbyte, bit_byte f hbyte]
  · have hout : (f a).toBitVec.getLsbD i = false := BitVec.getLsbD_of_ge _ i (Nat.le_of_not_lt hbyte)
    simp [hi, hbyte, hout]

/-- Byte by byte or bit by bit. -/
theorem foldl_feedByte (hw : 8 ≤ w) (x : BitVec w) (a n : Nat) :
    (slice f a n).foldl (feedByte poly) x = run poly x (slice (bit f) (8 * a) (8 * n)) := by
  induction n with
  | zero => rfl
  | succ n ih =>
    have hbyte : run poly (run poly x (slice (bit f) (8 * a) (8 * n))) (slice (bit f) (8 * (a + n)) 8) =
        feedByte poly (run poly x (slice (bit f) (8 * a) (8 * n))) (f (a + n)) := by
      rw [run_eq_shifts poly (by simpa using hw), word_byte f, slice_length, feedByte]
    rw [slice_add, List.foldl_append, ih, Nat.mul_succ, slice_add, run_append, ← Nat.mul_add, hbyte]
    rfl

/-- The checksum of bytes tells bursts apart that fit the register. -/
theorem foldl_feedByte_ne {g : Nat → UInt8} {n p : Nat} (hpoly : poly.msb = true) (hw : 8 ≤ w)
    (h : Burst (bit f) (bit g) (8 * n) p w) (x : BitVec w) :
    (slice f 0 n).foldl (feedByte poly) x ≠ (slice g 0 n).foldl (feedByte poly) x := by
  obtain ⟨front, l, r, back, hl, hr, hlen, hlw, hne⟩ := h.split
  rw [foldl_feedByte poly f hw, foldl_feedByte poly g hw, Nat.mul_zero, hl, hr]
  exact run_window_ne hpoly hlen hlw hne x front back

end Bytes

end ShiftRegister
