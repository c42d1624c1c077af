import DiskStorage.Lib.ByteStore

/-! Little-endian numbers, and records laid out one field behind the other. -/
namespace LittleEndian
open ByteStore

/-- The `n` lowest bytes of `v`, least significant first. -/
def encode : Nat → Nat → List UInt8
  | 0, _ => []
  | n + 1, v => UInt8.ofNat v :: encode n (v / 256)

def decode : List UInt8 → Nat
  | [] => 0
  | byte :: rest => byte.toNat + 256 * decode rest

@[simp] theorem length_encode (n v : Nat) : (encode n v).length = n := by
  induction n generalizing v with
  | zero => rfl
  | succ n ih => exact congrArg (· + 1) (ih (v / 256))

theorem decode_encode (n v : Nat) : decode (encode n v) = v % 256 ^ n := by
  induction n generalizing v with
  | zero =>
    rw [Nat.pow_zero, Nat.mod_one]
    rfl
  | succ n ih =>
    have hbyte : (UInt8.ofNat v).toNat = v % 256 := UInt8.toNat_ofNat'
    rw [encode, decode, ih, hbyte, Nat.pow_succ', ← Nat.mod_mul]

theorem decode_encode_of_lt {n v : Nat} (h : v < 256 ^ n) : decode (encode n v) = v := by
  rw [decode_encode, Nat.mod_eq_of_lt h]

theorem decode_lt (l : List UInt8) : decode l < 256 ^ l.length := by
  induction l with
  | nil => exact Nat.one_pos
  | cons byte rest ih =>
    have := byte.toNat_lt
    rw [decode, List.length_cons, Nat.pow_succ]
    omega

/-- The number in the `n` cells from `a` on. -/
def read (f : Nat → UInt8) (a n : Nat) : Nat := decode (slice f a n)

theorem read_lt (f : Nat → UInt8) (a n : Nat) : read f a n < 256 ^ n := by
  have h := decode_lt (slice f a n)
  rwa [slice_length] at h

/-- A number is zero when all its bytes are. -/
theorem decode_eq_zero_iff {l : List UInt8} : decode l = 0 ↔ ∀ byte ∈ l, byte = 0 := by
  induction l with
  | nil => simp [decode]
  | cons byte rest ih =>
    rw [decode, List.forall_mem_cons, ← ih, ← UInt8.toNat_inj, UInt8.toNat_zero]
    omega

theorem read_eq_zero_iff {f : Nat → UInt8} {a n : Nat} : read f a n = 0 ↔ ∀ i < n, f (a + i) = 0 := by
  rw [read, decode_eq_zero_iff]
  simp [slice]

theorem read_congr {f g : Nat → UInt8} {a n : Nat} (h : ∀ i < n, f (a + i) = g (a + i)) : read f a n = read g a n :=
  congrArg decode (slice_congr h)

/-- The `n` elements of a list from `o` on. -/
def field {α : Type*} (l : List α) (o n : Nat) : List α := (l.drop o).take n

section Field
variable {α : Type*} {l r : List α} {o n : Nat}

@[simp] theorem field_append_skip (h : l.length ≤ o) : field (l ++ r) o n = field r (o - l.length) n := by
  rw [field, field, List.drop_append, List.drop_of_length_le h, List.nil_append]

@[simp] theorem field_append_here (h : l.length = n) : field (l ++ r) 0 n = l := by
  rw [field, List.drop_zero, List.take_left' h]

@[simp] theorem field_self (h : l.length = n) : field l 0 n = l := by
  rw [field, List.drop_zero, List.take_of_length_le (Nat.le_of_eq h)]

theorem length_field (h : o + n ≤ l.length) : (field l o n).length = n := by
  rw [field, List.length_take, List.length_drop]
  omega

/-- Blocks of one width behind each other: the block at `i`. -/
theorem field_flatMap {β : Type*} (f : β → List α) (w : Nat) (hw : ∀ x, (f x).length = w) (xs : List β) {i : Nat}
    (hi : i < xs.length) : field (xs.flatMap f) (i * w) w = f xs[i] := by
  induction xs generalizing i with
  | nil => exact absurd hi (Nat.not_lt_zero i)
  | cons x xs ih =>
    rw [List.flatMap_cons]
    cases i with
    | zero =>
      rw [Nat.zero_mul, field_append_here (hw x)]
      rfl
    | succ i =>
      have hi' : i < xs.length := Nat.lt_of_succ_lt_succ hi
      have hle : (f x).length ≤ (i + 1) * w := by
        rw [hw x, Nat.succ_mul]
        exact Nat.le_add_left w _
      rw [field_append_skip hle, hw x, Nat.succ_mul, Nat.add_sub_cancel, ih hi', List.getElem_cons_succ]

theorem length_flatMap {β : Type*} (f : β → List α) (w : Nat) (hw : ∀ x, (f x).length = w) (xs : List β) :
    (xs.flatMap f).length = xs.length * w := by
  induction xs with
  | nil => exact (Nat.zero_mul w).symm
  | cons x xs ih => rw [List.flatMap_cons, List.length_append, hw x, ih, List.length_cons, Nat.succ_mul, Nat.add_comm]

end Field

/-- Reading inside a record that has been stored. -/
theorem slice_patch {α : Type*} (f : Nat → α) (a : Nat) {l : List α} {o n : Nat} (h : o + n ≤ l.length) :
    slice (patch f a l) (a + o) n = field l o n := by
  apply List.ext_getElem (by rw [slice_length, length_field h])
  intro i hi _
  rw [slice_length] at hi
  have hlt : o + i < l.length := by omega
  rw [getElem_slice, Nat.add_assoc, patch_inside f a l hlt]
  simp only [field, List.getElem_take, List.getElem_drop]

theorem read_patch (f : Nat → UInt8) (a : Nat) {l : List UInt8} {o n : Nat} (h : o + n ≤ l.length) :
    read (patch f a l) (a + o) n = decode (field l o n) :=
  congrArg decode (slice_patch f a h)

end LittleEndian
