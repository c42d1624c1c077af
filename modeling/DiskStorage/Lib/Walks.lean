import Mathlib.Data.Fintype.EquivFin
import Mathlib.Data.Fintype.Option

/-! Walks along a partial link: where one goes on from a start, as long as there is a link. -/
namespace Walks
variable {α : Type*}

/-- The place after so many links, if the walk gets that far. -/
def walk (start : Option α) (link : α → Option α) : Nat → Option α
  | 0 => start
  | n + 1 => (walk start link n).bind link

/-- No place is come to twice. -/
def NoRepeat (start : Option α) (link : α → Option α) : Prop :=
  ∀ i j, i < j → walk start link i = walk start link j → walk start link i = none

variable {start : Option α} {link : α → Option α}

theorem walk_succ (n : Nat) : walk start link (n + 1) = (walk start link n).bind link := rfl

/-- A walk that has ended does not go on. -/
theorem walk_none {i j : Nat} (hij : i ≤ j) (h : walk start link i = none) : walk start link j = none := by
  induction hij with
  | refl => exact h
  | step _ ih => rw [walk_succ, ih, Option.bind_none]

theorem walk_add (m n : Nat) : walk start link (m + n) = walk (walk start link m) link n := by
  induction n with
  | zero => rfl
  | succ n ih => rw [← Nat.add_assoc, walk_succ, ih, walk_succ]

/-- A walk that has an end comes to no place twice. -/
theorem noRepeat_of_ends {n : Nat} (h : walk start link n = none) : NoRepeat start link := by
  intro i j hij heq
  obtain ⟨d, rfl⟩ := Nat.exists_eq_add_of_lt hij
  -- going round from the place, as often as it takes to come behind the end
  have hround : ∀ m, walk start link (i + m * (d + 1)) = walk start link i := by
    intro m
    induction m with
    | zero => rw [Nat.zero_mul, Nat.add_zero]
    | succ m ih => rw [Nat.succ_mul, ← Nat.add_assoc, walk_add, ih, ← walk_add, ← Nat.add_assoc, ← heq]
  rw [← hround n]
  exact walk_none ((Nat.le_mul_of_pos_right n (Nat.succ_pos d)).trans (Nat.le_add_left _ _)) h

/-- Among finitely many places a walk that comes to none of them twice has an end. -/
theorem NoRepeat.ends [Finite α] (h : NoRepeat start link) : ∃ n, walk start link n = none := by
  rcases Classical.em (∃ n, walk start link n = none) with hend | hnever
  · exact hend
  · have hinj : Function.Injective (walk start link) := by
      intro i j heq
      rcases Nat.lt_trichotomy i j with hlt | rfl | hgt
      · exact absurd ⟨i, h i j hlt heq⟩ hnever
      · rfl
      · exact absurd ⟨j, h j i hgt heq.symm⟩ hnever
    exact absurd hinj (not_injective_infinite_finite _)

end Walks
