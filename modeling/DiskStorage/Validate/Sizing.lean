import DiskStorage.Validate.Model
import DiskStorage.Lib.Extents
import Mathlib.Algebra.BigOperators.Group.List.Basic

/-! The sizing loop: what one entry does to the running total and to its own size, and the
space accounting that follows for whole tables. -/
namespace DiskStorage
open Extents (roundUp)

theorem PARTITION_ALIGN_pos : 0 < PARTITION_ALIGN := by decide

namespace Build
variable {b : Build} {v n : Nat}

theorem alignUp_eq (h : v + n - 1 < b.storageSize) : b.alignUp v n = roundUp v n := by
  rw [alignUp, storage_of_lt h, Extents.roundUp_eq_sub_mod]

private theorem storageSize_eq_mul : ∃ c, b.storageSize = PARTITION_ALIGN * c := by
  rcases b.storageSize_cases with h | h
  · exact ⟨2 ^ 44, h⟩
  · exact ⟨2 ^ 12, h⟩

theorem PARTITION_ALIGN_dvd : PARTITION_ALIGN ∣ b.storageSize := storageSize_eq_mul

theorem PARTITION_ALIGN_lt : PARTITION_ALIGN < b.storageSize := by
  have := b.storageSize_cases
  rw [PARTITION_ALIGN]
  omega

/-- Rounding up to a partition boundary reaches zero behind the last boundary. -/
theorem alignUp_partition (hv : v < b.storageSize) :
    b.alignUp v PARTITION_ALIGN =
      if roundUp v PARTITION_ALIGN < b.storageSize then roundUp v PARTITION_ALIGN else 0 := by
  have hle : roundUp v PARTITION_ALIGN ≤ b.storageSize :=
    Extents.roundUp_le PARTITION_ALIGN_pos PARTITION_ALIGN_dvd hv.le
  have hlo := Extents.le_roundUp (m := v) PARTITION_ALIGN_pos
  have hmod := Extents.roundUp_eq_sub_mod v PARTITION_ALIGN
  have hpos := PARTITION_ALIGN_pos
  have hlt := Nat.mod_lt (v + PARTITION_ALIGN - 1) hpos
  have hW := b.PARTITION_ALIGN_lt
  rcases Nat.lt_or_ge (v + PARTITION_ALIGN - 1) b.storageSize with h | h
  · rw [alignUp_eq h, if_pos (by omega)]
  · have hwrap : b.storage (v + PARTITION_ALIGN - 1) = v + PARTITION_ALIGN - 1 - b.storageSize := by
      rw [storage, Nat.mod_eq_sub_mod h, Nat.mod_eq_of_lt (by omega)]
    have hsmall : v + PARTITION_ALIGN - 1 - b.storageSize < PARTITION_ALIGN := by omega
    rw [alignUp, hwrap, Nat.mod_eq_of_lt hsmall, Nat.sub_self]
    obtain ⟨c, hc⟩ := b.PARTITION_ALIGN_dvd
    obtain ⟨d, hd⟩ := Extents.dvd_roundUp v PARTITION_ALIGN
    have hcd : c ≤ d := by
      have : PARTITION_ALIGN * c < PARTITION_ALIGN * (d + 1) := by
        rw [Nat.mul_succ]
        omega
      exact Nat.le_of_lt_succ (Nat.lt_of_mul_lt_mul_left this)
    rw [if_neg (Nat.not_lt.mpr (by rw [hc, hd]; exact Nat.mul_le_mul_left _ hcd))]

end Build

variable {b : Build}

namespace Available
variable (a : Available b)

/-- The first byte that may be given to a partition, and the first one behind. -/
def rangeStart : Nat := a.firstBlock * a.blockSize

def rangeEnd : Nat := (a.firstBlock + a.totalBlocks) * a.blockSize

/-- The start of an entry has passed the checks of the loop. -/
def StartInRange (part : PartInfo b) : Prop :=
  part.offset = 0 ∨ a.minOffset ≤ part.offset ∧ part.offset ≤ a.maxOffset

/-- A percentage of the blocks, rounded up to the partition alignment. -/
def share (percent : Nat) : Nat := roundUp (a.totalBlocks * percent / 100) a.blockAlign

/-- The blocks an entry claims: those of its size, with an explicit size rounded up to the
partition alignment. -/
def claim (entry sized : PartInfo b) : Nat :=
  if entry.size ≤ 100 then sized.size / a.blockSize else roundUp entry.size PARTITION_ALIGN / a.blockSize

def claims (entries sized : List (PartInfo b)) : Nat := (List.zipWith a.claim entries sized).sum

/-- The running total behind one more entry. -/
def runningTotal (totalBlocks : Nat) (part : PartInfo b) : Nat :=
  u64 (totalBlocks +
    if part.size ≤ 100 then (a.percentBlocks totalBlocks part.size).getD 0 else b.alignUp part.size PARTITION_ALIGN)

/-- The bytes that an entry asks for at a running total: those of its blocks, for a percentage. -/
def requested (totalBlocks : Nat) (part : PartInfo b) : Nat :=
  if part.size ≤ 100 then b.storage ((a.percentBlocks totalBlocks part.size).getD 0 * a.blockSize) else part.size

/-- The bytes that the entry at a position in a table asks for. -/
def requestedAt (table : List (PartInfo b)) (i : Nat) (part : PartInfo b) : Nat :=
  a.requested ((table.take i).foldl a.runningTotal 0) part

variable {a} {T T' : Nat} {part part' : PartInfo b} {err : Option Error}

theorem checkOffset_of_startInRange (h : a.StartInRange part) : a.checkOffset T part = (none, T, part) := by
  apply if_neg
  rintro ⟨hne, hout⟩
  rcases h with h | h <;> omega

theorem checkOffset_of_not (h : ¬ a.StartInRange part) : a.checkOffset T part = (some .outOfRange, T, part) := by
  refine if_pos ⟨fun h0 => h (Or.inl h0), ?_⟩
  rcases Nat.lt_or_ge part.offset a.minOffset with hlt | hge
  · exact Or.inl hlt
  · exact Or.inr (Nat.lt_of_not_le fun hle => h (Or.inr ⟨hge, hle⟩))

private theorem checkOffset_none (h : a.checkOffset T part = (none, T', part')) :
    a.StartInRange part ∧ T' = T ∧ part' = part := by
  rcases Classical.em (a.StartInRange part) with hin | hout
  · rw [checkOffset_of_startInRange hin] at h
    cases h
    exact ⟨hin, rfl, rfl⟩
  · rw [checkOffset_of_not hout] at h
    cases h

/-- An entry that the sizing loop goes past: a percentage with room for it, or an aligned
explicit size, and in both cases a start in range. -/
theorem sizeEntry_none (h : a.sizeEntry T part = (none, T', part')) :
    a.StartInRange part ∧
      ((part.size ≤ 100 ∧ ∃ blocks, a.percentBlocks T part.size = some blocks ∧
          T' = u64 (T + blocks) ∧ part' = part.setSize (blocks * a.blockSize)) ∨
        (100 < part.size ∧ part.offset % PARTITION_ALIGN = 0 ∧
          T' = u64 (T + b.alignUp part.size PARTITION_ALIGN) ∧ part' = part)) := by
  rw [sizeEntry] at h
  split at h
  · rename_i hsize
    cases hp : a.percentBlocks T part.size with
    | none =>
      rw [hp] at h
      cases h
    | some blocks =>
      rw [hp] at h
      obtain ⟨hin, hT, hpart⟩ := checkOffset_none h
      exact ⟨hin, Or.inl ⟨hsize, blocks, rfl, hT, hpart⟩⟩
  · rename_i hsize
    split at h
    · cases h
    · rename_i hal
      obtain ⟨hin, hT, hpart⟩ := checkOffset_none h
      exact ⟨hin, Or.inr ⟨Nat.lt_of_not_le hsize, of_not_not hal, hT, hpart⟩⟩

theorem sizeEntry_size (h : a.sizeEntry T part = (none, T', part')) :
    T' = a.runningTotal T part ∧ part'.size = a.requested T part := by
  obtain ⟨_, ⟨hsize, blocks, hblocks, rfl, rfl⟩ | ⟨hsize, _, rfl, rfl⟩⟩ := sizeEntry_none h
  · rw [runningTotal, requested, if_pos hsize, if_pos hsize, hblocks]
    exact ⟨rfl, rfl⟩
  · rw [runningTotal, requested, if_neg (Nat.not_le.mpr hsize), if_neg (Nat.not_le.mpr hsize)]
    exact ⟨rfl, rfl⟩

theorem sizeEntry_size_cases (h : a.sizeEntry T part = (err, T', part')) :
    part'.size = part.size ∨ part'.size = a.requested T part := by
  have hcheck : ∀ {T p}, a.checkOffset T p = (err, T', part') → part' = p := by
    intro T p h
    rw [checkOffset] at h
    split at h
    all_goals
      cases h
      rfl
  rw [sizeEntry] at h
  split at h
  · rename_i hsize
    cases hp : a.percentBlocks T part.size with
    | none =>
      rw [hp] at h
      cases h
      exact .inl rfl
    | some blocks =>
      rw [hp] at h
      rw [hcheck h, requested, if_pos hsize, hp]
      exact .inr rfl
  · split at h
    · cases h
      exact .inl rfl
    · rw [hcheck h]
      exact .inl rfl

/-- The entry keeps its offset, also on an error, and validate never stops with Success. -/
theorem sizeEntry_offset (h : a.sizeEntry T part = (err, T', part')) :
    part'.offset = part.offset ∧ err ≠ some .success := by
  have hcheck : ∀ {T p}, a.checkOffset T p = (err, T', part') → part'.offset = p.offset ∧ err ≠ some .success := by
    intro T p h
    rw [checkOffset] at h
    split at h
    all_goals
      cases h
      exact ⟨rfl, by decide⟩
  rw [sizeEntry] at h
  split at h
  · cases hp : a.percentBlocks T part.size with
    | none =>
      rw [hp] at h
      cases h
      exact ⟨rfl, by decide⟩
    | some blocks =>
      rw [hp] at h
      exact hcheck (p := part.setSize (blocks * a.blockSize)) h
  · split at h
    · cases h
      exact ⟨rfl, by decide⟩
    · exact hcheck h

variable {table rest sized : List (PartInfo b)}

theorem sizingLoop_cons_none :
    a.sizingLoop T (part :: rest) = (none, T', sized) ↔
      ∃ T₁ part' rest', a.sizeEntry T part = (none, T₁, part') ∧
        a.sizingLoop T₁ rest = (none, T', rest') ∧ sized = part' :: rest' := by
  rw [sizingLoop]
  constructor
  · intro h
    rcases he : a.sizeEntry T part with ⟨_ | err, T₁, part'⟩
    · rw [he] at h
      rcases hl : a.sizingLoop T₁ rest with ⟨err, T₂, rest'⟩
      simp only [hl] at h
      cases h
      exact ⟨T₁, part', rest', rfl, hl, rfl⟩
    · rw [he] at h
      cases h
  · rintro ⟨T₁, part', rest', he, hl, rfl⟩
    simp only [he, hl]

theorem sizingLoop_append_none {front back : List (PartInfo b)} :
    a.sizingLoop T (front ++ back) = (none, T', sized) ↔
      ∃ T₁ front' back', a.sizingLoop T front = (none, T₁, front') ∧
        a.sizingLoop T₁ back = (none, T', back') ∧ sized = front' ++ back' := by
  induction front generalizing T sized with
  | nil =>
    constructor
    · intro h
      exact ⟨T, [], sized, rfl, h, rfl⟩
    · rintro ⟨T₁, front', back', hf, hb, rfl⟩
      cases hf
      exact hb
  | cons part front ih =>
    rw [List.cons_append, sizingLoop_cons_none]
    constructor
    · rintro ⟨T₁, part', rest', he, hl, rfl⟩
      obtain ⟨T₂, front', back', hf, hb, rfl⟩ := ih.mp hl
      exact ⟨T₂, part' :: front', back', sizingLoop_cons_none.mpr ⟨T₁, part', front', he, hf, rfl⟩, hb, rfl⟩
    · rintro ⟨T₂, front', back', hf, hb, rfl⟩
      obtain ⟨T₁, part', rest', he, hl, rfl⟩ := sizingLoop_cons_none.mp hf
      exact ⟨T₁, part', rest' ++ back', he, ih.mpr ⟨T₂, rest', back', hl, hb, rfl⟩, rfl⟩

theorem sizingLoop_concat_none :
    a.sizingLoop T (table ++ [part]) = (none, T', sized) ↔
      ∃ T₁ front part', a.sizingLoop T table = (none, T₁, front) ∧
        a.sizeEntry T₁ part = (none, T', part') ∧ sized = front ++ [part'] := by
  rw [sizingLoop_append_none]
  constructor
  · rintro ⟨T₁, front, back, hf, hb, rfl⟩
    obtain ⟨T₂, part', rest', he, hl, rfl⟩ := sizingLoop_cons_none.mp hb
    cases hl
    exact ⟨T₁, front, part', hf, he, rfl⟩
  · rintro ⟨T₁, front, part', hf, he, rfl⟩
    exact ⟨T₁, front, [part'], hf, sizingLoop_cons_none.mpr ⟨T', part', [], he, rfl, rfl⟩, rfl⟩

theorem sizingLoop_offsets (h : a.sizingLoop T table = (err, T', sized)) :
    sized.map PartInfo.offset = table.map PartInfo.offset ∧ err ≠ some .success := by
  induction table generalizing T sized with
  | nil =>
    cases h
    exact ⟨rfl, by decide⟩
  | cons part rest ih =>
    rw [sizingLoop] at h
    rcases he : a.sizeEntry T part with ⟨_ | e, T₁, part'⟩
    · rw [he] at h
      rcases hl : a.sizingLoop T₁ rest with ⟨err', T₂, rest'⟩
      simp only [hl] at h
      cases h
      obtain ⟨hoff, herr⟩ := ih hl
      exact ⟨congrArg₂ List.cons (sizeEntry_offset he).1 hoff, herr⟩
    · rw [he] at h
      cases h
      exact ⟨congrArg (· :: rest.map PartInfo.offset) (sizeEntry_offset he).1, (sizeEntry_offset he).2⟩

/-- The entries that the loop has been over have the sizes they ask for, the others their own. -/
theorem sizingLoop_sizes (h : a.sizingLoop T table = (err, T', sized)) :
    ∃ n, (∀ (i : Nat) (part part' : PartInfo b), table[i]? = some part → sized[i]? = some part' →
        part'.size = if i < n then a.requested ((table.take i).foldl a.runningTotal T) part else part.size) ∧
      (err = none → n = table.length) := by
  induction table generalizing T sized with
  | nil => exact ⟨0, fun i part part' hpart => by simp at hpart, fun _ => rfl⟩
  | cons part rest ih =>
    rw [sizingLoop] at h
    rcases he : a.sizeEntry T part with ⟨_ | e, T₁, part'⟩
    · obtain ⟨rfl, hsize⟩ := sizeEntry_size he
      rw [he] at h
      rcases hl : a.sizingLoop (a.runningTotal T part) rest with ⟨err', T₂, rest'⟩
      simp only [hl] at h
      cases h
      obtain ⟨n, hsizes, hall⟩ := ih hl
      refine ⟨n + 1, fun i q q' hq hq' => ?_, fun herr => congrArg (· + 1) (hall herr)⟩
      cases i with
      | zero =>
        cases hq
        cases hq'
        exact hsize
      | succ i =>
        rw [hsizes i q q' hq hq']
        simp only [Nat.add_lt_add_iff_right, List.take_succ_cons, List.foldl_cons]
    · rw [he] at h
      cases h
      -- the loop stops at this entry
      have hrest : ∀ (i : Nat) (q q' : PartInfo b), rest[i]? = some q → rest[i]? = some q' → q'.size = q.size := by
        intro i q q' hq hq'
        cases hq.symm.trans hq'
        rfl
      rcases sizeEntry_size_cases he with hsize | hsize
      · refine ⟨0, fun i q q' hq hq' => ?_, fun herr => by cases herr⟩
        cases i with
        | zero =>
          cases hq
          cases hq'
          exact hsize
        | succ i => exact hrest i q q' hq hq'
      · refine ⟨1, fun i q q' hq hq' => ?_, fun herr => by cases herr⟩
        cases i with
        | zero =>
          cases hq
          cases hq'
          exact hsize
        | succ i =>
          rw [if_neg (by omega)]
          exact hrest i q q' hq hq'

/-- The rule for a loop that comes to its end: an invariant of the running total, and what one entry
comes to. -/
theorem sizingLoop_rule {I : Nat → Prop} {P Q : PartInfo b → Prop}
    (hentry : ∀ {T T' part part'}, I T → P part → a.sizeEntry T part = (none, T', part') → I T' ∧ Q part')
    (hT : I T) (htable : ∀ part ∈ table, P part) (h : a.sizingLoop T table = (none, T', sized)) :
    I T' ∧ ∀ s ∈ sized, Q s := by
  induction table generalizing T sized with
  | nil =>
    cases h
    exact ⟨hT, List.forall_mem_nil _⟩
  | cons part rest ih =>
    obtain ⟨T₁, part', rest', he, hl, rfl⟩ := sizingLoop_cons_none.mp h
    obtain ⟨hpart, hrest⟩ := List.forall_mem_cons.mp htable
    obtain ⟨hT₁, hpart'⟩ := hentry hT hpart he
    obtain ⟨hT', hrest'⟩ := ih hT₁ hrest hl
    exact ⟨hT', List.forall_mem_cons.mpr ⟨hpart', hrest'⟩⟩

/-- When the loop comes to its end, all starts are in range. -/
theorem sizingLoop_startInRange (h : a.sizingLoop T table = (none, T', sized)) : ∀ s ∈ sized, a.StartInRange s := by
  apply And.right
  apply sizingLoop_rule (I := fun _ => True) (P := fun _ => True) _ trivial (fun _ _ => trivial) h
  intro T T' part part' _ _ he
  rw [StartInRange, (sizeEntry_offset he).1]
  exact ⟨trivial, (sizeEntry_none he).1⟩

theorem sizingLoop_length (h : a.sizingLoop T table = (err, T', sized)) : sized.length = table.length := by
  have := congrArg List.length (sizingLoop_offsets h).1
  rwa [List.length_map, List.length_map] at this

end Available

end DiskStorage
