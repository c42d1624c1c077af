import Mathlib.Order.CompletePartialOrder
import Mathlib.Order.Interval.Set.LinearOrder
import Mathlib.Order.Interval.Set.Disjoint
import Mathlib.Data.List.Pairwise

/-! Half-open extents `[lo, hi)` on a line, and lists of them in order of their starts. -/
namespace Extents

section
variable {α τ : Type*} [LinearOrder τ] (lo hi : α → τ)

/-- The points of an extent. It has none when `hi` is not above `lo`. -/
def extent (x : α) : Set τ := Set.Ico (lo x) (hi x)

/-- Two extents without a common point. -/
def Apart (x y : α) : Prop := Disjoint (extent lo hi x) (extent lo hi y)

/-- Going through the list, each non-empty extent starts where the one before it has ended
or later, from `floor` on, and ends by `ceiling`. -/
def Stacked (floor ceiling : τ) : List α → Prop
  | [] => True
  | x :: rest =>
    if lo x < hi x then floor ≤ lo x ∧ hi x ≤ ceiling ∧ Stacked (hi x) ceiling rest
    else Stacked floor ceiling rest

instance Stacked.instDecidable (floor ceiling : τ) : (l : List α) → Decidable (Stacked lo hi floor ceiling l)
  | [] => isTrue trivial
  | x :: rest =>
    have := Stacked.instDecidable (hi x) ceiling rest
    have := Stacked.instDecidable floor ceiling rest
    inferInstanceAs (Decidable (if lo x < hi x then floor ≤ lo x ∧ hi x ≤ ceiling ∧ Stacked lo hi (hi x) ceiling rest
      else Stacked lo hi floor ceiling rest))

variable {lo hi} {x y : α} {floor ceiling : τ} {l : List α}

theorem extent_eq_empty (h : ¬ lo x < hi x) : extent lo hi x = ∅ := Set.Ico_eq_empty h

theorem extent_subset_iff (h : lo x < hi x) :
    extent lo hi x ⊆ Set.Ico floor ceiling ↔ floor ≤ lo x ∧ hi x ≤ ceiling :=
  Set.Ico_subset_Ico_iff h

theorem extent_subset (hlo : floor ≤ lo x) (hhi : hi x ≤ ceiling) : extent lo hi x ⊆ Set.Ico floor ceiling :=
  Set.Ico_subset_Ico hlo hhi

theorem Apart.symm (h : Apart lo hi x y) : Apart lo hi y x := Disjoint.symm h

theorem apart_of_le (h : hi x ≤ lo y) : Apart lo hi x y :=
  Set.disjoint_left.mpr fun _ hx hy => not_lt_of_ge (h.trans hy.1) hx.2

theorem apart_of_empty (h : ¬ lo x < hi x) : Apart lo hi x y := by
  rw [Apart, extent_eq_empty h]
  exact Set.empty_disjoint _

/-- Of two disjoint non-empty extents the one that starts first ends before the other starts. -/
theorem Apart.le (h : Apart lo hi x y) (hxy : lo x ≤ lo y) (hy : lo y < hi y) :
    hi x ≤ lo y := by
  rcases lt_or_ge (lo y) (hi x) with hlt | hge
  · exact absurd ⟨le_rfl, hy⟩ (Set.disjoint_left.mp h (show lo y ∈ extent lo hi x from ⟨hxy, hlt⟩))
  · exact hge

private theorem stacked_above (h : Stacked lo hi floor ceiling l) :
    ∀ y ∈ l, lo y < hi y → floor ≤ lo y := by
  induction l generalizing floor with
  | nil => intro y hy; cases hy
  | cons x rest ih =>
    intro y hy hne
    rw [Stacked] at h
    split at h
    · rename_i hx
      rcases List.mem_cons.mp hy with rfl | hy
      · exact h.1
      · exact h.1.trans (hx.le.trans (ih h.2.2 y hy hne))
    · rename_i hx
      rcases List.mem_cons.mp hy with rfl | hy
      · exact absurd hne hx
      · exact ih h y hy hne

private theorem Stacked.of_above {floor' : τ} (h : Stacked lo hi floor ceiling l)
    (habove : ∀ y ∈ l, lo y < hi y → floor' ≤ lo y) : Stacked lo hi floor' ceiling l := by
  induction l with
  | nil => trivial
  | cons x rest ih =>
    rw [Stacked] at h ⊢
    split
    · rw [if_pos ‹_›] at h
      exact ⟨habove x List.mem_cons_self ‹_›, h.2⟩
    · rw [if_neg ‹_›] at h
      exact ih h fun y hy => habove y (List.mem_cons_of_mem x hy)

/-- In order of their starts, extents are stacked exactly when they are pairwise disjoint and
lie between floor and ceiling. -/
theorem stacked_iff (hsorted : l.Pairwise fun x y => lo x ≤ lo y) :
    Stacked lo hi floor ceiling l ↔
      l.Pairwise (Apart lo hi) ∧ ∀ x ∈ l, extent lo hi x ⊆ Set.Ico floor ceiling := by
  induction l generalizing floor with
  | nil => exact iff_of_true trivial ⟨List.Pairwise.nil, fun _ h => nomatch h⟩
  | cons x rest ih =>
    obtain ⟨hx, hrest⟩ := List.pairwise_cons.mp hsorted
    rw [Stacked, List.pairwise_cons, List.forall_mem_cons]
    split
    · rename_i hne
      rw [extent_subset_iff hne]
      constructor
      · rintro ⟨hfloor, hceil, hst⟩
        obtain ⟨hpair, hsub⟩ := (ih hrest).mp hst
        refine ⟨⟨fun y hy => ?_, hpair⟩, ⟨hfloor, hceil⟩, fun y hy =>
          (hsub y hy).trans (Set.Ico_subset_Ico_left (hfloor.trans hne.le))⟩
        rcases lt_or_ge (lo y) (hi y) with hyne | hye
        · exact apart_of_le (stacked_above hst y hy hyne)
        · exact (apart_of_empty (not_lt_of_ge hye)).symm
      · rintro ⟨⟨hapart, hpair⟩, ⟨hfloor, hceil⟩, hsub⟩
        refine ⟨hfloor, hceil, ?_⟩
        have hst : Stacked lo hi floor ceiling rest := (ih hrest).mpr ⟨hpair, hsub⟩
        exact hst.of_above fun y hy hyne => (hapart y hy).le (hx y hy) hyne
    · rename_i he
      rw [ih hrest, extent_eq_empty he]
      constructor
      · rintro ⟨hpair, hsub⟩
        exact ⟨⟨fun y _ => apart_of_empty he, hpair⟩, Set.empty_subset _, hsub⟩
      · rintro ⟨⟨_, hpair⟩, _, hsub⟩
        exact ⟨hpair, hsub⟩

end

section Rounding

/-- Rounding up to a multiple of `n`. -/
def roundUp (m n : Nat) : Nat := (m + n - 1) / n * n

variable {m n k : Nat}

theorem dvd_roundUp (m n : Nat) : n ∣ roundUp m n := ⟨_, Nat.mul_comm _ _⟩

theorem le_roundUp (hn : 0 < n) : m ≤ roundUp m n := by
  have h := Nat.div_add_mod (m + n - 1) n
  have hlt := Nat.mod_lt (m + n - 1) hn
  rw [roundUp, Nat.mul_comm]
  omega

theorem roundUp_lt (hn : 0 < n) : roundUp m n < m + n := by
  have := Nat.div_mul_le_self (m + n - 1) n
  rw [roundUp]
  omega

/-- Rounding up does not pass a multiple that is not passed already. -/
theorem roundUp_le (hn : 0 < n) (hk : n ∣ k) (hm : m ≤ k) : roundUp m n ≤ k := by
  obtain ⟨c, rfl⟩ := hk
  have hlt : (m + n - 1) / n < c + 1 := by
    rw [Nat.div_lt_iff_lt_mul hn, Nat.succ_mul, Nat.mul_comm]
    omega
  rw [roundUp, Nat.mul_comm]
  exact Nat.mul_le_mul_left n (Nat.le_of_lt_succ hlt)

theorem roundUp_of_dvd (hn : 0 < n) (hm : n ∣ m) : roundUp m n = m :=
  Nat.le_antisymm (roundUp_le hn hm le_rfl) (le_roundUp hn)

theorem roundUp_eq_sub_mod (m n : Nat) : roundUp m n = (m + n - 1) - (m + n - 1) % n := by
  have h := Nat.div_add_mod (m + n - 1) n
  rw [roundUp, Nat.mul_comm]
  omega

end Rounding

section Shortfall

/-- At the target, or short of it by the gap at least. -/
def AtOrShort (gap target n : Nat) : Prop := n = target ∨ n + gap ≤ target

variable {gap target target' n n' k : Nat}

theorem AtOrShort.le (h : AtOrShort gap target n) : n ≤ target := by
  rcases h with rfl | h
  · exact le_rfl
  · omega

theorem AtOrShort.trans (h : AtOrShort gap target target') (h' : AtOrShort gap target' n) : AtOrShort gap target n := by
  have hle := h.le
  rcases h' with rfl | h'
  · exact h
  · exact Or.inr (h'.trans hle)

theorem AtOrShort.add (h : AtOrShort gap target n) (h' : AtOrShort gap target' n') :
    AtOrShort gap (target + target') (n + n') := by
  have hle := h.le
  have hle' := h'.le
  rcases h with rfl | h
  · rcases h' with rfl | h'
    · exact Or.inl rfl
    · exact Or.inr (by omega)
  · exact Or.inr (by omega)

/-- What is short of a multiple by a multiple is so when it is rounded up. -/
theorem AtOrShort.roundUp (hk : 0 < k) (htarget : k ∣ target) (hgap : k ∣ gap) (h : AtOrShort gap target n) :
    AtOrShort gap target (roundUp n k) := by
  rcases h with rfl | h
  · exact Or.inl (roundUp_of_dvd hk htarget)
  · have := roundUp_le hk (Nat.dvd_sub htarget hgap) (m := n) (by omega)
    exact Or.inr (by omega)

/-- A remainder is the number itself, or short of it by the modulus. -/
theorem atOrShort_mod (hgap : gap ≤ k) : AtOrShort gap n (n % k) := by
  have hsplit := Nat.div_add_mod n k
  rcases Nat.eq_zero_or_pos (n / k) with h | h
  · rw [h, Nat.mul_zero, Nat.zero_add] at hsplit
    exact Or.inl hsplit
  · have hmul : k * 1 ≤ k * (n / k) := Nat.mul_le_mul_left k h
    exact Or.inr (by omega)

end Shortfall

end Extents
