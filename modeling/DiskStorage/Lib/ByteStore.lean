import Mathlib.Algebra.Order.Ring.Nat
import Mathlib.Data.List.Basic

/-! Flat stores addressed by position: overwriting a run of cells, reading one back,
and how the two commute. -/
namespace ByteStore
variable {α : Type*}

/-- The store after the cells from `a` on are overwritten with `l`. -/
def patch (f : Nat → α) (a : Nat) (l : List α) : Nat → α := fun x =>
  if a ≤ x then (l[x - a]?).getD (f x) else f x

/-- The `n` cells from `a` on. -/
def slice (f : Nat → α) (a n : Nat) : List α := (List.range n).map fun i => f (a + i)

@[simp] theorem patch_nil (f : Nat → α) (a : Nat) : patch f a [] = f := by
  funext x
  simp [patch]

theorem patch_below (f : Nat → α) {a x : Nat} (l : List α) (h : x < a) : patch f a l x = f x := by
  simp [patch, show ¬ a ≤ x by omega]

theorem patch_above (f : Nat → α) {a x : Nat} (l : List α) (h : a + l.length ≤ x) :
    patch f a l x = f x := by
  simp [patch, List.getElem?_eq_none (show l.length ≤ x - a by omega)]

theorem patch_inside (f : Nat → α) (a : Nat) (l : List α) {i : Nat} (h : i < l.length) :
    patch f a l (a + i) = l[i] := by
  simp [patch, h]

theorem patch_outside (f : Nat → α) {a x : Nat} (l : List α) (h : x < a ∨ a + l.length ≤ x) :
    patch f a l x = f x :=
  h.elim (patch_below f l) (patch_above f l)

theorem patch_append (f : Nat → α) (a : Nat) (l r : List α) :
    patch f a (l ++ r) = patch (patch f a l) (a + l.length) r := by
  funext x
  rcases Nat.lt_or_ge x (a + l.length) with hx | hx
  · rw [patch_below _ _ hx]
    by_cases ha : a ≤ x
    · simp [patch, ha, List.getElem?_append_left (show x - a < l.length by omega)]
    · simp [patch, ha]
  · have hs : x - a - l.length = x - (a + l.length) := by omega
    simp [patch, hx, show a ≤ x by omega, hs,
      List.getElem?_append_right (show l.length ≤ x - a by omega),
      List.getElem?_eq_none (show l.length ≤ x - a by omega)]

@[simp] theorem slice_length (f : Nat → α) (a n : Nat) : (slice f a n).length = n := by
  simp [slice]

@[simp] theorem slice_zero (f : Nat → α) (a : Nat) : slice f a 0 = [] := rfl

@[simp] theorem getElem_slice (f : Nat → α) (a n i : Nat) (h : i < (slice f a n).length) :
    (slice f a n)[i] = f (a + i) := by
  simp [slice]

theorem slice_add (f : Nat → α) (a m n : Nat) :
    slice f a (m + n) = slice f a m ++ slice f (a + m) n := by
  simp [slice, List.range_add, Nat.add_assoc, Function.comp_def]

theorem take_slice (f : Nat → α) (a : Nat) {m n : Nat} (h : m ≤ n) : (slice f a n).take m = slice f a m := by
  obtain ⟨k, rfl⟩ := Nat.exists_eq_add_of_le h
  rw [slice_add, List.take_left' (slice_length f a m)]

theorem slice_congr {f g : Nat → α} {a n : Nat} (h : ∀ i < n, f (a + i) = g (a + i)) :
    slice f a n = slice g a n := by
  simp only [slice, List.map_inj_left, List.mem_range]
  exact h

theorem slice_getD (l : List α) (x : α) : slice (fun i => l.getD i x) 0 l.length = l := by
  apply List.ext_getElem (slice_length _ 0 l.length)
  intro i _ hi
  simp [hi]

theorem slice_inside {f g : Nat → α} {a c n o m : Nat} (h : slice f a n = slice g c n) (hin : o + m ≤ n) :
    slice f (a + o) m = slice g (c + o) m := by
  obtain ⟨r, rfl⟩ := Nat.exists_eq_add_of_le hin
  rw [slice_add f a (o + m) r, slice_add g c (o + m) r, slice_add f a o m, slice_add g c o m] at h
  have hfront := List.append_inj_left h (by simp)
  exact List.append_inj_right hfront (by simp)

theorem slice_patch_same (f : Nat → α) (a : Nat) (l : List α) :
    slice (patch f a l) a l.length = l := by
  apply List.ext_getElem (by simp)
  intro i _ hi
  rw [getElem_slice, patch_inside f a l hi]

theorem slice_patch_slice (f g : Nat → α) (a c n : Nat) : slice (patch f a (slice g c n)) a n = slice g c n := by
  have h := slice_patch_same f a (slice g c n)
  rwa [slice_length] at h

theorem slice_patch_disjoint (f : Nat → α) {a b n : Nat} (l : List α)
    (h : a + n ≤ b ∨ b + l.length ≤ a) : slice (patch f b l) a n = slice f a n := by
  apply slice_congr
  intro i hi
  exact patch_outside f l (by omega)

theorem patch_slice_self (f : Nat → α) (a n : Nat) : patch f a (slice f a n) = f := by
  funext x
  rcases Nat.lt_or_ge x a with hx | hx
  · exact patch_below f _ hx
  · obtain ⟨i, rfl⟩ := Nat.exists_eq_add_of_le hx
    rcases Nat.lt_or_ge i n with hi | hi
    · rw [patch_inside f a _ (by rwa [slice_length]), getElem_slice]
    · exact patch_above f _ (by rw [slice_length]; omega)

/-- Runs of whole blocks of `w` cells that are apart as blocks are apart. -/
theorem slice_patch_blocks (f : Nat → α) {a n c m w : Nat} (l : List α) (hl : l.length = m * w)
    (h : a + n ≤ c ∨ c + m ≤ a) : slice (patch f (c * w) l) (a * w) (n * w) = slice f (a * w) (n * w) := by
  apply slice_patch_disjoint f l
  rw [hl, ← Nat.add_mul, ← Nat.add_mul]
  exact h.imp (Nat.mul_le_mul_right w) (Nat.mul_le_mul_right w)

theorem patch_patch (f : Nat → α) (a : Nat) {l r : List α} (h : l.length ≤ r.length) :
    patch (patch f a l) a r = patch f a r := by
  funext x
  by_cases hx : x < a ∨ a + r.length ≤ x
  · rw [patch_outside _ r hx, patch_outside _ r hx, patch_outside f l (by omega)]
  · obtain ⟨i, rfl⟩ := Nat.exists_eq_add_of_le (Nat.le_of_not_lt (not_or.mp hx).1)
    have hi : i < r.length := by omega
    rw [patch_inside _ a r hi, patch_inside f a r hi]

/-- Two overwrites of separate runs of cells commute. -/
theorem patch_comm (f : Nat → α) {a b : Nat} (l r : List α)
    (h : a + l.length ≤ b ∨ b + r.length ≤ a) :
    patch (patch f a l) b r = patch (patch f b r) a l := by
  funext x
  by_cases hb : x < b ∨ b + r.length ≤ x
  · rw [patch_outside _ r hb]
    by_cases ha : x < a ∨ a + l.length ≤ x
    · rw [patch_outside _ l ha, patch_outside _ l ha, patch_outside _ r hb]
    · simp only [patch, show a ≤ x by omega, if_true,
        List.getElem?_eq_getElem (show x - a < l.length by omega), Option.getD_some]
  · rw [patch_outside (patch f b r) l (by omega)]
    simp only [patch, show b ≤ x by omega, if_true,
      List.getElem?_eq_getElem (show x - b < r.length by omega), Option.getD_some]

section Window
variable [Zero α]

/-- The `n` cells from `a` on, as a store of their own. -/
def window (f : Nat → α) (a n : Nat) : Nat → α := fun i => if i < n then f (a + i) else 0

theorem window_inside (f : Nat → α) (a : Nat) {n i : Nat} (h : i < n) : window f a n i = f (a + i) := if_pos h

theorem window_patch_outside (f : Nat → α) {a n x : Nat} (l : List α) (h : x + l.length ≤ a ∨ a + n ≤ x) :
    window (patch f x l) a n = window f a n := by
  funext i
  by_cases hi : i < n
  · rw [window_inside _ _ hi, window_inside _ _ hi]
    apply patch_outside
    omega
  · simp only [window, if_neg hi]

theorem window_patch_inside (f : Nat → α) {a n x : Nat} (l : List α) (h : a ≤ x) (hl : x + l.length ≤ a + n) :
    window (patch f x l) a n = patch (window f a n) (x - a) l := by
  funext i
  by_cases hin : x - a ≤ i ∧ i < x - a + l.length
  · obtain ⟨j, rfl⟩ := Nat.exists_eq_add_of_le hin.1
    have hj : j < l.length := by omega
    have hplace : a + (x - a + j) = x + j := by omega
    rw [window_inside _ _ (by omega), hplace, patch_inside f x l hj, patch_inside _ (x - a) l hj]
  · have hout : i < x - a ∨ x - a + l.length ≤ i := by omega
    rw [patch_outside _ l hout]
    by_cases hi : i < n
    · rw [window_inside _ _ hi, window_inside _ _ hi]
      apply patch_outside
      omega
    · simp only [window, if_neg hi]

theorem slice_window (f : Nat → α) (a : Nat) {n x m : Nat} (h : x + m ≤ n) :
    slice (window f a n) x m = slice f (a + x) m := by
  apply List.ext_getElem
  · simp
  · intro i hi _
    have hm : i < m := by rwa [slice_length] at hi
    rw [getElem_slice, getElem_slice, window_inside _ _ (by omega), Nat.add_assoc]

end Window

end ByteStore
