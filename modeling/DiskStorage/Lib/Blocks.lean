import DiskStorage.Lib.ByteStore

/-! Flat stores seen in blocks of equal size, and lists of block writes: what a store holds
after each prefix of such a list, block by block. -/
namespace ByteStore
variable {α : Type*} {w : Nat} {f g : Nat → α}

/-- The cells of a block. -/
def block (w : Nat) (f : Nat → α) (s : Nat) : List α := slice f (s * w) w

@[simp] theorem length_block (f : Nat → α) (s : Nat) : (block w f s).length = w := slice_length ..

theorem block_congr {s t : Nat} (h : ∀ x < w, f (s * w + x) = g (t * w + x)) : block w f s = block w g t := by
  apply List.map_congr_left
  intro x hx
  exact h x (List.mem_range.mp hx)

/-- A patch is cell by cell. -/
theorem patch_congr {x : Nat} (h : f x = g x) (a : Nat) (l : List α) : patch f a l x = patch g a l x := by
  rw [patch, patch, h]

theorem block_patch_same (f : Nat → α) (s : Nat) {l : List α} (hl : l.length = w) :
    block w (patch f (s * w) l) s = l := by
  subst hl
  exact slice_patch_same f (s * l.length) l

theorem block_patch_ne (f : Nat → α) {s t : Nat} {l : List α} (hl : l.length = w) (h : s ≠ t) :
    block w (patch f (s * w) l) t = block w f t := by
  have hblocks := slice_patch_blocks f (a := t) (n := 1) (c := s) (m := 1) l (by rw [hl, Nat.one_mul])
    (by omega)
  rwa [Nat.one_mul] at hblocks

/-- The store after the writes of a list, each to a whole block, in order. -/
def overwrite (w : Nat) (f : Nat → α) : List (Nat × List α) → Nat → α
  | [] => f
  | (s, l) :: ws => overwrite w (patch f (s * w) l) ws

/-- All writes of a list are of whole blocks. -/
def Whole (w : Nat) (ws : List (Nat × List α)) : Prop := ∀ e ∈ ws, e.2.length = w

@[simp] theorem overwrite_nil : overwrite w f [] = f := rfl

@[simp] theorem overwrite_cons (s : Nat) (l : List α) (ws : List (Nat × List α)) :
    overwrite w f ((s, l) :: ws) = overwrite w (patch f (s * w) l) ws := rfl

theorem overwrite_append (ws vs : List (Nat × List α)) :
    overwrite w f (ws ++ vs) = overwrite w (overwrite w f ws) vs := by
  induction ws generalizing f with
  | nil => rfl
  | cons e ws ih => exact ih

section
variable {ws : List (Nat × List α)} {s : Nat} {l : List α}

theorem Whole.tail {e : Nat × List α} (h : Whole w (e :: ws)) : Whole w ws :=
  fun e' he' => h e' (List.mem_cons_of_mem _ he')

theorem Whole.take (h : Whole w ws) (n : Nat) : Whole w (ws.take n) := fun e he => h e (List.mem_of_mem_take he)

/-- A block that is not written keeps its cells. -/
theorem block_overwrite_notMem (h : Whole w ws) (hs : s ∉ ws.map Prod.fst) :
    block w (overwrite w f ws) s = block w f s := by
  induction ws generalizing f with
  | nil => rfl
  | cons e ws ih =>
    rw [List.map_cons, List.mem_cons, not_or] at hs
    apply (ih h.tail hs.2).trans
    exact block_patch_ne f (h e List.mem_cons_self) (Ne.symm hs.1)

/-- When no block is written twice, each write is there in the end. -/
theorem block_overwrite_mem (h : Whole w ws) (hnodup : (ws.map Prod.fst).Nodup) (hmem : (s, l) ∈ ws) :
    block w (overwrite w f ws) s = l := by
  induction ws generalizing f with
  | nil => cases hmem
  | cons e ws ih =>
    rw [List.map_cons, List.nodup_cons] at hnodup
    rcases List.mem_cons.mp hmem with rfl | hmem
    · apply (block_overwrite_notMem h.tail hnodup.1).trans
      exact block_patch_same f s (h (s, l) List.mem_cons_self)
    · exact ih h.tail hnodup.2 hmem

end

end ByteStore
