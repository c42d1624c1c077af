import DiskStorage.Lib.ShiftRegister
import Mathlib.Dynamics.PeriodicPts.Defs
import Mathlib.Data.Nat.Prime.Basic

/-! The period of a shift register, found by squaring, and the pairs of changed bits that the register
tells apart. Words are read as polynomials, the highest place first. -/
namespace ShiftRegister
open ByteStore Function

section Product
variable {w : Nat} (poly : BitVec w)

/-- The word of one. -/
def one (w : Nat) : BitVec w := BitVec.twoPow w (w - 1)

/-- The product of two words, one place of the first after the other. -/
def mul (x y : BitVec w) : BitVec w :=
  (List.range w).foldl (fun acc i => shift poly acc ^^^ (if x.getLsbD i then y else 0)) 0

theorem shift_zero : shift poly 0 = 0 := by simp [shift]

theorem iterate_shift_xor (n : Nat) (x y : BitVec w) :
    (shift poly)^[n] (x ^^^ y) = (shift poly)^[n] x ^^^ (shift poly)^[n] y := by
  induction n generalizing x y with
  | zero => rfl
  | succ n ih => rw [iterate_succ_apply, shift_xor, ih, iterate_succ_apply, iterate_succ_apply]

theorem iterate_shift_zero (n : Nat) : (shift poly)^[n] 0 = 0 := iterate_fixed (shift_zero poly) n

theorem iterate_shift_mul (n : Nat) (x y : BitVec w) :
    (shift poly)^[n] (mul poly x y) = mul poly x ((shift poly)^[n] y) := by
  have hfold : ∀ (places : List Nat) (acc : BitVec w),
      (shift poly)^[n] (places.foldl (fun acc i => shift poly acc ^^^ (if x.getLsbD i then y else 0)) acc) =
        places.foldl (fun acc i => shift poly acc ^^^ (if x.getLsbD i then (shift poly)^[n] y else 0))
          ((shift poly)^[n] acc) := by
    intro places
    induction places with
    | nil => exact fun _ => rfl
    | cons i places ih =>
      intro acc
      rw [List.foldl_cons, List.foldl_cons, ih, iterate_shift_xor, ← iterate_succ_apply, iterate_succ_apply']
      congr 2
      split
      · rfl
      · exact iterate_shift_zero poly n
  rw [mul, hfold, iterate_shift_zero]
  rfl

theorem mul_one (x : BitVec w) : mul poly x (one w) = x := by
  have hfold : ∀ n ≤ w, (List.range n).foldl (fun acc i => shift poly acc ^^^ (if x.getLsbD i then one w else 0)) 0 =
      x <<< (w - n) := by
    intro n
    induction n with
    | zero =>
      intro _
      apply BitVec.eq_of_getLsbD_eq
      intro i hi
      simp [hi]
    | succ n ih =>
      intro hn
      have hlow : (x <<< (w - n)).getLsbD 0 = false := by
        have hpos : 0 < w - n := by omega
        simp [hpos]
      rw [List.range_succ, List.foldl_append, ih (by omega), List.foldl_cons, List.foldl_nil, shift, hlow]
      apply BitVec.eq_of_getLsbD_eq
      intro i hi
      have htop : (if x.getLsbD n then one w else 0).getLsbD i = (x.getLsbD n && decide (i = w - 1)) := by
        cases x.getLsbD n with
        | false => simp
        | true => simp [one, hi]
      rw [BitVec.getLsbD_xor, htop, BitVec.getLsbD_xor, BitVec.getLsbD_ushiftRight, BitVec.getLsbD_shiftLeft,
        BitVec.getLsbD_shiftLeft]
      -- the highest place is the one taken in
      by_cases hlast : i = w - 1
      · have hout : ¬ 1 + i < w := by omega
        have hin : ¬ i < w - (n + 1) := by omega
        have hplace : i - (w - (n + 1)) = n := by omega
        rw [decide_eq_true hlast, hplace]
        simp [hout, hin, hi]
      · have hnext : 1 + i < w := by omega
        have hin : 1 + i < w - n ↔ i < w - (n + 1) := by omega
        have hplace : 1 + i - (w - n) = i - (w - (n + 1)) := by omega
        rw [decide_eq_false hlast, hplace]
        simp [hnext, hin, hi]
  have hall := hfold w le_rfl
  rwa [Nat.sub_self, BitVec.shiftLeft_zero] at hall

theorem iterate_shift_eq_mul (n : Nat) (x : BitVec w) :
    (shift poly)^[n] x = mul poly x ((shift poly)^[n] (one w)) := by
  rw [← iterate_shift_mul, mul_one]

/-- As many moves as a number in binary says, the highest digit first: a square for each digit. -/
def moves (digits : List Bool) : BitVec w :=
  digits.foldl (fun x digit => if digit then shift poly (mul poly x x) else mul poly x x) (one w)

/-- The number. -/
def ofDigits (digits : List Bool) : Nat := digits.foldl (fun n digit => 2 * n + digit.toNat) 0

theorem moves_eq (digits : List Bool) : moves poly digits = (shift poly)^[ofDigits digits] (one w) := by
  have hfold : ∀ n : Nat,
      digits.foldl (fun x digit => if digit then shift poly (mul poly x x) else mul poly x x)
        ((shift poly)^[n] (one w)) =
      (shift poly)^[digits.foldl (fun n digit => 2 * n + digit.toNat) n] (one w) := by
    induction digits with
    | nil => exact fun _ => rfl
    | cons digit digits ih =>
      intro n
      have hsquare : mul poly ((shift poly)^[n] (one w)) ((shift poly)^[n] (one w)) = (shift poly)^[2 * n] (one w) := by
        rw [← iterate_shift_eq_mul, ← iterate_add_apply, Nat.two_mul]
      rw [List.foldl_cons, List.foldl_cons, hsquare]
      cases digit with
      | false => exact ih (2 * n)
      | true =>
        rw [if_pos rfl, ← iterate_succ_apply' (shift poly)]
        exact ih (2 * n + 1)
  exact hfold 0

end Product

section Period
variable {S : Type*} {f : S → S} {x : S} {N d : Nat}

/-- A point comes back after `N` moves, and not after a prime part of them. Then it does not come back
before. -/
theorem iterate_ne_of_prime_parts (hN : f^[N] x = x)
    (hprime : ∀ p, p.Prime → p ∣ N → f^[N / p] x ≠ x) (hpos : 0 < d) (hlt : d < N) : f^[d] x ≠ x := by
  intro hd
  have hdvd : minimalPeriod f x ∣ N := IsPeriodicPt.minimalPeriod_dvd hN
  have hle : minimalPeriod f x ≤ d := Nat.le_of_dvd hpos (IsPeriodicPt.minimalPeriod_dvd hd)
  obtain ⟨q, hq⟩ := hdvd
  have hne : q ≠ 1 := by
    rintro rfl
    omega
  obtain ⟨p, hp, r, rfl⟩ := Nat.exists_prime_and_dvd hne
  apply hprime p hp ⟨minimalPeriod f x * r, by rw [hq, Nat.mul_left_comm]⟩
  have hpart : N / p = minimalPeriod f x * r := by
    rw [hq, Nat.mul_left_comm, Nat.mul_div_cancel_left _ hp.pos]
  rw [hpart]
  exact (isPeriodicPt_minimalPeriod f x).mul_const r

end Period

section Pairs
variable {w : Nat} {poly : BitVec w}

theorem run_xor (x d : BitVec w) (bits : List Bool) :
    run poly (x ^^^ d) bits = run poly x bits ^^^ (shift poly)^[bits.length] d := by
  induction bits generalizing x d with
  | nil => rfl
  | cons bit bits ih =>
    have hfeed : feed poly (x ^^^ d) bit = feed poly x bit ^^^ shift poly d := by
      rw [feed, feed, ← shift_xor, BitVec.xor_assoc, BitVec.xor_comm d, ← BitVec.xor_assoc]
    calc
      run poly (x ^^^ d) (bit :: bits) = run poly (feed poly x bit ^^^ shift poly d) bits := by rw [← hfeed]; rfl
      _ = run poly x (bit :: bits) ^^^ (shift poly)^[(bit :: bits).length] d := ih _ _

theorem low_not (bit : Bool) : low w (!bit) = low w bit ^^^ low w true := by
  apply BitVec.eq_of_getLsbD_eq
  intro i hi
  rw [BitVec.getLsbD_xor, BitVec.getLsbD_eq_getElem hi, BitVec.getLsbD_eq_getElem hi, BitVec.getLsbD_eq_getElem hi]
  cases bit <;> simp

theorem low_true_eq (hw : 0 < w) : low w true = (shift poly)^[w - 1] (one w) := by
  have hplace : ∀ n < w, (shift poly)^[n] (one w) = BitVec.twoPow w (w - 1 - n) := by
    intro n
    induction n with
    | zero => exact fun _ => rfl
    | succ n ih =>
      intro hn
      have hsplit : w - 1 - n = w - 1 - (n + 1) + 1 := by omega
      have hbelow : ¬ w - 1 - (n + 1) = w - 1 := by omega
      have hmsb : (BitVec.twoPow w (w - 1 - (n + 1))).msb = false := by simp [BitVec.msb_twoPow, hbelow]
      rw [iterate_succ_apply', ih (by omega), hsplit, BitVec.twoPow_eq, BitVec.shiftLeft_add, ← BitVec.twoPow_eq,
        shift_shiftLeft poly hmsb]
  rw [hplace (w - 1) (by omega), Nat.sub_self]
  apply BitVec.eq_of_getLsbD_eq
  intro i hi
  simp [hi]

/-- Registers that differ in the bits taken in at two moments differ, unless the register comes back to one
in the time between them. -/
theorem run_pair_ne (hpoly : poly.msb = true) (hw : 0 < w) {a b : Bool} {front mid back : List Bool}
    (hback : (shift poly)^[mid.length + 1] (one w) ≠ one w) (x : BitVec w) :
    run poly x (front ++ a :: mid ++ b :: back) ≠ run poly x (front ++ (!a) :: mid ++ (!b) :: back) := by
  intro h
  rw [run_append, run_append poly x front, run_append poly x _ ((!b) :: back), run_append poly x front] at h
  have hbits := run_injective hpoly back h
  -- what the first bit has changed is moved until the second one comes in
  have hfirst : run poly (run poly x front) ((!a) :: mid) =
      run poly (run poly x front) (a :: mid) ^^^ (shift poly)^[mid.length + 1] (low w true) := by
    have hfeed : feed poly (run poly x front) (!a) = feed poly (run poly x front) a ^^^ shift poly (low w true) := by
      rw [feed, feed, low_not, ← shift_xor, BitVec.xor_assoc]
    calc
      run poly (run poly x front) ((!a) :: mid) = run poly (feed poly (run poly x front) (!a)) mid := rfl
      _ = run poly (feed poly (run poly x front) a) mid ^^^ (shift poly)^[mid.length] (shift poly (low w true)) := by
        rw [hfeed, run_xor]
      _ = run poly (run poly x front) (a :: mid) ^^^ (shift poly)^[mid.length + 1] (low w true) := rfl
  have hsecond := shift_injective hpoly hbits
  rw [hfirst, low_not, BitVec.xor_assoc, BitVec.xor_right_inj] at hsecond
  have hsame : (shift poly)^[mid.length + 1] (low w true) = low w true := by
    have hcancel := congrArg (· ^^^ (low w b ^^^ low w true)) hsecond
    rw [BitVec.xor_assoc, BitVec.xor_self, BitVec.xor_zero, ← BitVec.xor_assoc, BitVec.xor_self, BitVec.zero_xor]
      at hcancel
    exact hcancel.symm
  apply hback
  rw [show low w true = _ from low_true_eq hw, ← iterate_add_apply, Nat.add_comm, iterate_add_apply] at hsame
  exact (shift_injective hpoly).iterate (w - 1) hsame

end Pairs

/-- Two streams of `n` bits differ in two places. -/
structure Pair (u v : Nat → Bool) (n p q : Nat) : Prop where
  lt : p < q
  inside : q < n
  differ : ∀ i < n, u i ≠ v i ↔ i = p ∨ i = q

theorem Pair.split {u v : Nat → Bool} {n p q : Nat} (h : Pair u v n p q) :
    ∃ front mid back, mid.length + 1 = q - p ∧ slice u 0 n = front ++ u p :: mid ++ u q :: back ∧
      slice v 0 n = front ++ (!u p) :: mid ++ (!u q) :: back := by
  obtain ⟨m, rfl⟩ := Nat.exists_eq_add_of_lt h.lt
  obtain ⟨r, rfl⟩ := Nat.exists_eq_add_of_lt h.inside
  have hagree : ∀ {a c : Nat}, (∀ i < c, a + i ≠ p ∧ a + i ≠ p + m + 1) → a + c ≤ p + m + 1 + r + 1 →
      slice v a c = slice u a c := by
    intro a c hout hin
    apply slice_congr
    intro i hi
    have hsame := (h.differ (a + i) (by omega)).not.mpr (not_or.mpr (hout i hi))
    exact (not_not.mp hsame).symm
  have hflip : ∀ {i : Nat}, i = p ∨ i = p + m + 1 → v i = !u i := by
    intro i hi
    have hne := (h.differ i (by omega)).mpr hi
    cases hu : u i <;> cases hv : v i <;> simp_all
  have hsplit : ∀ f : Nat → Bool, slice f 0 (p + m + 1 + r + 1) =
      slice f 0 p ++ f p :: slice f (p + 1) m ++ f (p + m + 1) :: slice f (p + m + 1 + 1) r := by
    intro f
    have hone : ∀ a, slice f a 1 = [f a] := fun _ => rfl
    have hn : p + m + 1 + r + 1 = p + (1 + (m + (1 + r))) := by omega
    have hq : 0 + p + 1 + m = p + m + 1 := by omega
    rw [hn, slice_add, slice_add, slice_add, slice_add, hone, hone, hq]
    simp
  refine ⟨slice u 0 p, slice u (p + 1) m, slice u (p + m + 1 + 1) r, by rw [slice_length]; omega, hsplit u, ?_⟩
  rw [hsplit v, hagree (by omega) (by omega), hagree (by omega) (by omega), hagree (by omega) (by omega),
    hflip (.inl rfl), hflip (.inr rfl)]

section Bytes
variable {w : Nat} {poly : BitVec w} {f g : Nat → UInt8} {n p q : Nat}

/-- A pair stays when the same bytes are put in front of it, and what is behind it is left out. -/
theorem Pair.overwrite {m a : Nat} {l : List UInt8} (h : Pair (bit f) (bit g) n p q) (hm : m ≤ n) (hin : q < m)
    (hout : 8 * (a + l.length) ≤ p) : Pair (bit (patch f a l)) (bit (patch g a l)) m p q where
  lt := h.lt
  inside := hin
  differ := by
    intro i hi
    have hlt := h.lt
    by_cases hover : i / 8 < a ∨ a + l.length ≤ i / 8
    · rw [bit, bit, patch_outside f l hover, patch_outside g l hover]
      exact h.differ i (by omega)
    · obtain ⟨k, hk⟩ := Nat.exists_eq_add_of_le (Nat.le_of_not_lt (not_or.mp hover).1)
      have hlt : k < l.length := by omega
      rw [bit, bit, hk, patch_inside f a l hlt, patch_inside g a l hlt]
      constructor
      · exact fun hne => absurd rfl hne
      · intro hi
        omega

theorem Pair.byte_agree {a : Nat} (h : Pair (bit f) (bit g) n p q) (ha : 8 * (a + 1) ≤ p) : f a = g a := by
  have hlt := h.lt
  have hin := h.inside
  apply byte_ext
  intro j hj
  exact not_not.mp ((h.differ (8 * a + j) (by omega)).not.mpr (by omega))

/-- The checksum of bytes tells two flipped bits apart that are closer than the period. -/
theorem foldl_feedByte_pair_ne (hpoly : poly.msb = true) (hw : 8 ≤ w) (h : Pair (bit f) (bit g) (8 * n) p q)
    (hperiod : (shift poly)^[q - p] (one w) ≠ one w) (x : BitVec w) :
    (slice f 0 n).foldl (feedByte poly) x ≠ (slice g 0 n).foldl (feedByte poly) x := by
  obtain ⟨front, mid, back, hmid, hf, hg⟩ := h.split
  rw [foldl_feedByte poly f hw, foldl_feedByte poly g hw, Nat.mul_zero, hf, hg]
  exact run_pair_ne hpoly (by omega) (by rwa [hmid]) x

end Bytes

end ShiftRegister
