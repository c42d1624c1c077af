import DiskStorage.Validate.Accounting
import DiskStorage.Validate.Labels

/-! Percentage tables: validate lays them out in table order, each entry at the end of the one
before. -/
namespace DiskStorage
open Extents (roundUp)

variable {b : Build}

/-- The entries have no offsets, and percentages for sizes. -/
def AutoPercentages (table : List (PartInfo b)) : Prop := ∀ p ∈ table, p.offset = 0 ∧ 1 ≤ p.size ∧ p.size ≤ 100

namespace Available
variable (a : Available b)

/-- A range that starts on an alignment boundary, and in which no sum of validate wraps. -/
structure Exact : Prop extends a.ExactShares where
  first : a.firstBlock ≠ 0
  block : a.blockSize ∣ PARTITION_ALIGN
  start : PARTITION_ALIGN ∣ a.rangeStart
  range : a.rangeEnd < b.storageSize

/-- A range that starts on an alignment boundary, and of which only the blocks have to be countable: its
bytes may be more than `storage_size_t` can address. -/
structure Aligned : Prop extends a.ExactShares where
  first : a.firstBlock ≠ 0
  block : a.blockSize ∣ PARTITION_ALIGN
  start : PARTITION_ALIGN ∣ a.rangeStart
  start_lt : a.rangeStart < b.storageSize
  blocks_lt : a.firstBlock + a.totalBlocks < b.storageSize
  bytes_lt : a.rangeEnd < 2 ^ 64

/-- Percentages without offsets, each of one block at least. -/
def Percentages (table : List (PartInfo b)) : Prop :=
  ∀ p ∈ table, p.offset = 0 ∧ p.size ≤ 100 ∧ 0 < a.share p.size

/-- The blocks that percentages ask for. -/
def shares (table : List (PartInfo b)) : Nat := (table.map fun p => a.share p.size).sum

/-- A percentage with its size, behind others that ask for `done` blocks. -/
def resize (done : Nat) (part : PartInfo b) : PartInfo b :=
  part.setSize (min (a.share part.size) (a.totalBlocks - done) * a.blockSize)

/-- And with its offset. -/
def place (done : Nat) (part : PartInfo b) : PartInfo b :=
  (a.resize done part).setOffset (a.rangeStart + done * a.blockSize)

def resizeFrom : Nat → List (PartInfo b) → List (PartInfo b)
  | _, [] => []
  | done, part :: rest => a.resize done part :: resizeFrom (done + a.share part.size) rest

def placeFrom : Nat → List (PartInfo b) → List (PartInfo b)
  | _, [] => []
  | done, part :: rest => a.place done part :: placeFrom (done + a.share part.size) rest

/-- Each entry finds a free block behind those before it. -/
def Fits : Nat → List (PartInfo b) → Prop
  | _, [] => True
  | done, part :: rest => done < a.totalBlocks ∧ Fits (done + a.share part.size) rest

/-- The layout of a percentage table: the entries in their order, the first at the start of the
range and each other one where the one before ends. They have the sizes they ask for, except that
the last one gets no more than there is left. -/
structure InSequence (table table' : List (PartInfo b)) : Prop where
  entries : table'.map PartInfo.label = table.map PartInfo.label
  first : ∀ p, table'.head? = some p → p.offset = a.rangeStart
  next : table'.IsChain fun p q => q.offset = p.stop
  sizes : table'.dropLast.map PartInfo.size = table.dropLast.map fun p => a.share p.size * a.blockSize
  last : ∀ p p', table.getLast? = some p → table'.getLast? = some p' →
    p'.size = min (a.share p.size * a.blockSize) (a.rangeEnd - p'.offset) ∧ p'.stop ≤ a.rangeEnd

variable {a} {table front rest : List (PartInfo b)} {part : PartInfo b} {done T k size e : Nat}

theorem rangeEnd_eq : a.rangeEnd = a.rangeStart + a.totalBlocks * a.blockSize := Nat.add_mul _ _ _

theorem share_dvd (hdone : a.blockAlign ∣ done) (n : Nat) : a.blockAlign ∣ done + a.share n :=
  Nat.dvd_add hdone (Extents.dvd_roundUp _ _)

namespace Aligned

theorem blockSize_pos (h : a.Aligned) : 0 < a.blockSize := Nat.pos_of_dvd_of_pos h.block PARTITION_ALIGN_pos

theorem rangeStart_pos (h : a.Aligned) : 0 < a.rangeStart :=
  Nat.mul_pos (Nat.pos_of_ne_zero h.first) h.blockSize_pos

theorem minOffset_eq (h : a.Aligned) : a.minOffset = a.rangeStart := Build.storage_of_lt h.start_lt

theorem maxOffset_eq (h : a.Aligned) : a.maxOffset + 1 = a.rangeEnd := by
  have hpos := h.rangeStart_pos
  have hle := rangeStart_le (a := a)
  exact maxOffset_of_lt h.blocks_lt h.bytes_lt (by omega)

theorem boundary (h : a.Aligned) (hdone : a.blockAlign ∣ done) :
    PARTITION_ALIGN ∣ a.rangeStart + done * a.blockSize := by
  apply Nat.dvd_add h.start
  have := Nat.mul_dvd_mul_right hdone a.blockSize
  rwa [blockAlign, Nat.div_mul_cancel h.block] at this

end Aligned

theorem place_offset (hlt : a.rangeStart + done * a.blockSize < b.storageSize) :
    (a.place done part).offset = a.rangeStart + done * a.blockSize := Build.storage_of_lt hlt

theorem place_size (hlt : min (a.share part.size) (a.totalBlocks - done) * a.blockSize < b.storageSize) :
    (a.place done part).size = min (a.share part.size) (a.totalBlocks - done) * a.blockSize := Build.storage_of_lt hlt

theorem place_stop (hdone : done + a.share part.size ≤ a.totalBlocks)
    (hlt : a.rangeStart + (done + a.share part.size) * a.blockSize < b.storageSize) :
    (a.place done part).stop = a.rangeStart + (done + a.share part.size) * a.blockSize := by
  have hmin : min (a.share part.size) (a.totalBlocks - done) = a.share part.size := Nat.min_eq_left (by omega)
  rw [Nat.add_mul] at hlt ⊢
  rw [PartInfo.stop, place_offset (by omega), place_size (by rw [hmin]; omega), hmin, Nat.add_assoc]

theorem Aligned.roundUp_place_stop (h : a.Aligned) (halign : a.blockAlign ∣ done)
    (hdone : done + a.share part.size ≤ a.totalBlocks)
    (hlt : a.rangeStart + (done + a.share part.size) * a.blockSize < b.storageSize) :
    roundUp (a.place done part).stop PARTITION_ALIGN = a.rangeStart + (done + a.share part.size) * a.blockSize := by
  rw [place_stop hdone hlt]
  exact Extents.roundUp_of_dvd PARTITION_ALIGN_pos (h.boundary (share_dvd halign _))

namespace Exact

theorem aligned (h : a.Exact) : a.Aligned := by
  have hblocks : a.firstBlock + a.totalBlocks ≤ a.rangeEnd :=
    Nat.le_mul_of_pos_right _ (Nat.pos_of_dvd_of_pos h.block PARTITION_ALIGN_pos)
  exact ⟨h.toExactShares, h.first, h.block, h.start, Nat.lt_of_le_of_lt rangeStart_le h.range,
    Nat.lt_of_le_of_lt hblocks h.range, Build.lt_u64 h.range⟩

theorem blockSize_pos (h : a.Exact) : 0 < a.blockSize := h.aligned.blockSize_pos

theorem rangeStart_pos (h : a.Exact) : 0 < a.rangeStart := h.aligned.rangeStart_pos

theorem bytes_lt (h : a.Exact) (hdone : done ≤ a.totalBlocks) : a.rangeStart + done * a.blockSize < b.storageSize := by
  have hrange := h.range
  have := Nat.mul_le_mul_right a.blockSize hdone
  rw [rangeEnd_eq] at hrange
  omega

theorem place_offset (h : a.Exact) (hdone : done ≤ a.totalBlocks) :
    (a.place done part).offset = a.rangeStart + done * a.blockSize := Available.place_offset (h.bytes_lt hdone)

theorem place_size (h : a.Exact) :
    (a.place done part).size = min (a.share part.size) (a.totalBlocks - done) * a.blockSize := by
  have hlt := h.bytes_lt (Nat.le_refl a.totalBlocks)
  have hle : min (a.share part.size) (a.totalBlocks - done) * a.blockSize ≤ a.totalBlocks * a.blockSize :=
    Nat.mul_le_mul_right _ (by omega)
  exact Available.place_size (by omega)

end Exact

section Lists

theorem shares_cons : a.shares (part :: rest) = a.share part.size + a.shares rest := List.sum_cons

theorem shares_append : a.shares (front ++ rest) = a.shares front + a.shares rest := by
  rw [shares, List.map_append, List.sum_append]
  rfl

theorem shares_dvd (table : List (PartInfo b)) : a.blockAlign ∣ a.shares table := by
  induction table with
  | nil => exact Nat.dvd_zero _
  | cons part rest ih =>
    rw [shares_cons]
    exact Nat.dvd_add (Extents.dvd_roundUp _ _) ih

theorem placeFrom_append : a.placeFrom done (front ++ rest) =
    a.placeFrom done front ++ a.placeFrom (done + a.shares front) rest := by
  induction front generalizing done with
  | nil => rfl
  | cons part front ih =>
    rw [List.cons_append, placeFrom, ih, shares_cons, ← Nat.add_assoc]
    rfl

theorem length_placeFrom : (a.placeFrom done table).length = table.length := by
  induction table generalizing done with
  | nil => rfl
  | cons part rest ih => rw [placeFrom, List.length_cons, ih, List.length_cons]

theorem length_resizeFrom (done : Nat) : (a.resizeFrom done table).length = table.length := by
  induction table generalizing done with
  | nil => rfl
  | cons part rest ih => rw [resizeFrom, List.length_cons, ih, List.length_cons]

theorem fits_append : a.Fits done (front ++ rest) ↔ a.Fits done front ∧ a.Fits (done + a.shares front) rest := by
  induction front generalizing done with
  | nil => exact (and_iff_right trivial).symm
  | cons part front ih => rw [List.cons_append, Fits, ih, Fits, shares_cons, and_assoc, ← Nat.add_assoc]

theorem fits_iff : a.Fits done table ↔ ∀ front back, table = front ++ back → back ≠ [] →
    done + a.shares front < a.totalBlocks := by
  constructor
  · rintro hfits front back rfl hback
    obtain ⟨part, rest, rfl⟩ := List.exists_cons_of_ne_nil hback
    exact (fits_append.mp hfits).2.1
  · intro h
    induction table generalizing done with
    | nil => trivial
    | cons part rest ih =>
      refine ⟨h [] (part :: rest) rfl (List.cons_ne_nil _ _), ih fun front back heq hback => ?_⟩
      have := h (part :: front) back (by rw [heq, List.cons_append]) hback
      rwa [shares_cons, ← Nat.add_assoc] at this

theorem resizeFrom_offset (done k : Nat) (hp : a.Percentages table) :
    ∀ p ∈ (a.resizeFrom done table).zipIdx k, p.1.offset = 0 := by
  induction table generalizing done k with
  | nil => exact List.forall_mem_nil _
  | cons part rest ih =>
    obtain ⟨hpart, hrest⟩ := List.forall_mem_cons.mp hp
    rw [resizeFrom, List.zipIdx_cons]
    exact List.forall_mem_cons.mpr ⟨hpart.1, ih _ _ hrest⟩

end Lists

section Sizing

private theorem sizeEntry_percentage (h : a.ExactShares)
    (hpart : part.offset = 0 ∧ part.size ≤ 100 ∧ 0 < a.share part.size) (hT : T ≤ a.totalBlocks) :
    a.sizeEntry T part =
      if T < a.totalBlocks then (none, min (T + a.share part.size) a.totalBlocks, a.resize T part)
      else (some .noSpace, T, part) := by
  obtain ⟨hoff, hsize, hpos⟩ := hpart
  rw [sizeEntry, if_pos hsize, h.percentBlocks_eq hT hsize]
  by_cases hroom : T < a.totalBlocks
  · rw [if_pos hroom, if_neg (by omega)]
    have h64 := Build.lt_u64 a.total_lt
    have hsum : u64 (T + min (a.share part.size) (a.totalBlocks - T)) = min (T + a.share part.size) a.totalBlocks := by
      rw [u64_of_lt (by omega)]
      omega
    dsimp only
    rw [hsum]
    exact checkOffset_of_startInRange (Or.inl hoff)
  · rw [if_neg hroom, if_pos (by omega)]

/-- Clipped or not, the running total is what the entries ask for, as far as there is room. -/
theorem sizingLoop_percentages (done : Nat) (h : a.ExactShares) (hp : a.Percentages table) :
    (a.Fits done table → a.sizingLoop (min done a.totalBlocks) table =
      (none, min (done + a.shares table) a.totalBlocks, a.resizeFrom done table)) ∧
    (¬ a.Fits done table → ∃ T table', a.sizingLoop (min done a.totalBlocks) table = (some .noSpace, T, table')) := by
  induction table generalizing done with
  | nil => exact ⟨fun _ => rfl, fun hnot => absurd trivial hnot⟩
  | cons part rest ih =>
    obtain ⟨hpart, hrest⟩ := List.forall_mem_cons.mp hp
    have hentry := sizeEntry_percentage h hpart (T := min done a.totalBlocks) (Nat.min_le_right _ _)
    by_cases hroom : done < a.totalBlocks
    · rw [if_pos (by omega), Nat.min_eq_left hroom.le] at hentry
      obtain ⟨hfit, hnot⟩ := ih (done + a.share part.size) hrest
      rw [sizingLoop, Nat.min_eq_left hroom.le, hentry]
      constructor
      · intro hfits
        dsimp only
        rw [hfit hfits.2, shares_cons, ← Nat.add_assoc]
        rfl
      · intro hfits
        obtain ⟨T, table', hl⟩ := hnot fun hf => hfits ⟨hroom, hf⟩
        exact ⟨T, a.resize done part :: table', by dsimp only; rw [hl]⟩
    · rw [if_neg (by omega)] at hentry
      refine ⟨fun hfits => absurd hfits.1 hroom, fun _ => ⟨min done a.totalBlocks, part :: rest, ?_⟩⟩
      rw [sizingLoop, hentry]

end Sizing

section Placing

private theorem search_append {zeros list : List (Ref b)} (hz : ∀ p ∈ zeros, p.1.offset = 0) :
    a.search size e (zeros ++ list) = a.search size e list := by
  induction zeros with
  | nil => rfl
  | cons q zeros ih =>
    obtain ⟨hq, hrest⟩ := List.forall_mem_cons.mp hz
    rw [List.cons_append, search, if_pos hq, ih hrest]

private theorem search_placeFrom (done e k : Nat) (h : a.Aligned) (hsize : 0 < size) (hne : front ≠ [])
    (halign : a.blockAlign ∣ done) (hroom : done + a.shares front < a.totalBlocks)
    (hlt : a.rangeStart + (done + a.shares front) * a.blockSize < b.storageSize)
    (hfit : size ≤ (a.totalBlocks - (done + a.shares front)) * a.blockSize) :
    a.search size e ((a.placeFrom done front).zipIdx k) =
      some (a.rangeStart + (done + a.shares front) * a.blockSize) := by
  induction front generalizing done e k with
  | nil => exact absurd rfl hne
  | cons part rest ih =>
    rw [shares_cons, ← Nat.add_assoc] at hroom hlt hfit ⊢
    have hpart : done + a.share part.size ≤ a.totalBlocks := by omega
    have hdone : done * a.blockSize ≤ (done + a.share part.size) * a.blockSize := Nat.mul_le_mul_right _ (by omega)
    have hrest : (done + a.share part.size) * a.blockSize ≤ (done + a.share part.size + a.shares rest) * a.blockSize :=
      Nat.mul_le_mul_right _ (by omega)
    have hstop : a.rangeStart + (done + a.share part.size) * a.blockSize < b.storageSize := by omega
    have h0 : (a.place done part).offset ≠ 0 := by
      have := h.rangeStart_pos
      rw [place_offset (by omega)]
      omega
    have hround := h.roundUp_place_stop halign hpart hstop
    have hend : (a.place done part).roundedEnd = a.rangeStart + (done + a.share part.size) * a.blockSize := by
      rw [PartInfo.roundedEnd_of_lt (by rwa [hround]), hround]
    rw [placeFrom, List.zipIdx_cons, search, if_neg h0]
    dsimp only
    rcases rest with _ | ⟨next, rest⟩
    · -- the last placed entry: the rest of the range is behind it
      have hsub : a.rangeEnd - (a.rangeStart + (done + a.share part.size) * a.blockSize) =
          (a.totalBlocks - (done + a.share part.size)) * a.blockSize := by
        rw [rangeEnd_eq, Nat.sub_mul]
        omega
      have hle : a.rangeStart + (done + a.share part.size) * a.blockSize ≤ a.rangeEnd := by
        have := Nat.mul_le_mul_right a.blockSize hpart
        rw [rangeEnd_eq]
        omega
      have hge : a.avail (a.place done part)
        (List.zipIdx (a.placeFrom (done + a.share part.size) []) (k + 1)).head? ≥ size := by
        change size ≤ a.avail (a.place done part) none
        rw [avail_of_roundedEnd_le none h.maxOffset_eq h.bytes_lt (hend.trans_le hle), hend, limit, hsub]
        exact hfit
      rw [if_pos hge, hend]
      rfl
    · -- the next one starts where this one ends
      have hnext : (a.place (done + a.share part.size) next).offset =
        a.rangeStart + (done + a.share part.size) * a.blockSize :=
        place_offset hstop
      have hzero : a.avail (a.place done part) (some (a.place (done + a.share part.size) next, k + 1)) = 0 := by
        rw [avail_of_roundedEnd_le _ h.maxOffset_eq h.bytes_lt (hend.trans hnext.symm).le, limit, hend, hnext,
          Nat.sub_self]
      rw [placeFrom, List.zipIdx_cons, List.head?_cons, hzero, if_neg (by omega), List.isEmpty_cons,
        if_neg Bool.false_ne_true]
      exact ih _ _ _ (List.cons_ne_nil _ _) (share_dvd halign _) hroom hlt hfit

private theorem placeFrom_offset (h : a.Aligned) (hp : a.Percentages front)
    (hlt : a.rangeStart + (done + a.shares front) * a.blockSize < b.storageSize) :
    ∀ p ∈ (a.placeFrom done front).zipIdx k,
      a.rangeStart + done * a.blockSize ≤ p.1.offset ∧
      p.1.offset < a.rangeStart + (done + a.shares front) * a.blockSize := by
  induction front generalizing done k with
  | nil => exact List.forall_mem_nil _
  | cons part rest ih =>
    obtain ⟨hpart, hrest⟩ := List.forall_mem_cons.mp hp
    rw [shares_cons, ← Nat.add_assoc] at hlt ⊢
    have hmul : a.blockSize ≤ a.share part.size * a.blockSize := Nat.le_mul_of_pos_left _ hpart.2.2
    have hpos := h.blockSize_pos
    have hsum := Nat.add_mul done (a.share part.size) a.blockSize
    have hmono : (done + a.share part.size) * a.blockSize ≤ (done + a.share part.size + a.shares rest) * a.blockSize :=
      Nat.mul_le_mul_right _ (Nat.le_add_right _ _)
    rw [placeFrom, List.zipIdx_cons]
    refine List.forall_mem_cons.mpr ⟨?_, fun p hp => ?_⟩
    · rw [place_offset (by omega)]
      omega
    · have := ih hrest hlt p hp
      omega

private theorem placeFrom_sorted (h : a.Aligned) (hp : a.Percentages front)
    (hlt : a.rangeStart + (done + a.shares front) * a.blockSize < b.storageSize) :
    ((a.placeFrom done front).zipIdx k).Pairwise fun p q => p.1.offset ≤ q.1.offset := by
  induction front generalizing done k with
  | nil => exact List.Pairwise.nil
  | cons part rest ih =>
    obtain ⟨_, hrest⟩ := List.forall_mem_cons.mp hp
    rw [shares_cons, ← Nat.add_assoc] at hlt
    rw [placeFrom, List.zipIdx_cons]
    refine List.pairwise_cons.mpr ⟨fun p hp => ?_, ih hrest hlt⟩
    have hle := (placeFrom_offset h hrest hlt p hp).1
    have hsum := Nat.add_mul done (a.share part.size) a.blockSize
    have hmono : (done + a.share part.size) * a.blockSize ≤ (done + a.share part.size + a.shares rest) * a.blockSize :=
      Nat.mul_le_mul_right _ (Nat.le_add_right _ _)
    rw [place_offset (by omega)]
    omega

/-- The list of the placement loop: the entries to place in table order, and behind them those
that have been placed. -/
def rotated (a : Available b) (front rest : List (PartInfo b)) : List (Ref b) :=
  (a.resizeFrom (a.shares front) rest).zipIdx front.length ++ (a.placeFrom 0 front).zipIdx

theorem sortList_resizeFrom (hp : a.Percentages table) :
    sortList (a.resizeFrom 0 table).zipIdx = a.rotated [] table := by
  have hz := resizeFrom_offset 0 0 hp
  have hrotated : a.rotated [] table = (a.resizeFrom 0 table).zipIdx := List.append_nil _
  rw [hrotated]
  exact List.Pairwise.insertionSort_eq (List.pairwise_of_forall_mem_list fun p hp q hq => by rw [hz p hp, hz q hq])

/-- A pass puts the next entry behind those that have been placed, if that is where an address can be. -/
theorem pass_rotated (h : a.Aligned) (hp : a.Percentages (front ++ part :: rest))
    (hroom : a.shares front < a.totalBlocks)
    (hlt : a.rangeStart + a.shares front * a.blockSize < b.storageSize)
    (hpos : 0 < (a.resize (a.shares front) part).size) :
    a.Pass (a.rotated front (part :: rest)) (a.rangeStart + a.shares front * a.blockSize)
    (a.rotated (front ++ [part]) rest) := by
  obtain ⟨hfront, hback⟩ := List.forall_mem_append.mp hp
  obtain ⟨hpart, hrest⟩ := List.forall_mem_cons.mp hback
  have hz := resizeFrom_offset (a.shares front + a.share part.size) (front.length + 1) hrest
  have hlt' : a.rangeStart + (0 + a.shares front) * a.blockSize < b.storageSize := by rwa [Nat.zero_add]
  refine ⟨(a.resize (a.shares front) part, front.length),
    (a.resizeFrom (a.shares front + a.share part.size) rest).zipIdx
      (front.length + 1) ++ (a.placeFrom 0 front).zipIdx, rfl,
    hpart.1, ?_, ?_⟩
  · rw [search_append hz]
    by_cases hne : front = []
    · rw [hne, h.minOffset_eq]
      change some a.rangeStart = some (a.rangeStart + 0 * a.blockSize)
      rw [Nat.zero_mul, Nat.add_zero]
    · have hle : (a.resize (a.shares front) part).size ≤ (a.totalBlocks - (0 + a.shares front)) * a.blockSize := by
        rw [Nat.zero_add]
        exact (Nat.mod_le _ _).trans (Nat.mul_le_mul_right _ (Nat.min_le_right _ _))
      have hlast := search_placeFrom 0 a.minOffset 0 h hpos hne (Nat.dvd_zero _) (by omega) hlt' hle
      rwa [Nat.zero_add] at hlast
  · have hplaced := placeFrom_offset h hfront hlt' (k := 0)
    have hoff : (a.place (a.shares front) part).offset = a.rangeStart + a.shares front * a.blockSize := place_offset hlt
    have hstart := h.rangeStart_pos
    rw [sortList_of_lt]
    · rw [List.append_assoc, rotated, shares_append, placeFrom_append, List.zipIdx_append, length_placeFrom,
        List.length_append, Nat.zero_add, Nat.zero_add]
      rfl
    · refine List.pairwise_append.mpr ⟨?_, placeFrom_sorted h hfront hlt', fun p hp q hq => ?_⟩
      · exact List.pairwise_of_forall_mem_list fun p hp q hq => by rw [hz p hp, hz q hq]
      · rw [hz p hp]
        exact Nat.zero_le _
    · intro q hq
      change q.1.offset < (a.place (a.shares front) part).offset
      rw [hoff]
      rcases List.mem_append.mp hq with hq | hq
      · rw [hz q hq]
        omega
      · have := (hplaced q hq).2
        rwa [Nat.zero_add] at this

private theorem place_stop_le (h : a.Exact) (hroom : done < a.totalBlocks) : (a.place done part).stop ≤ a.rangeEnd := by
  have hmul : min (a.share part.size) (a.totalBlocks - done) * a.blockSize ≤ (a.totalBlocks - done) * a.blockSize :=
    Nat.mul_le_mul_right _ (Nat.min_le_right _ _)
  have hle : done * a.blockSize ≤ a.totalBlocks * a.blockSize := Nat.mul_le_mul_right _ hroom.le
  rw [Nat.sub_mul] at hmul
  rw [PartInfo.stop, h.place_offset hroom.le, h.place_size, rangeEnd_eq]
  omega

theorem placeFrom_inside (h : a.Exact) (hfits : a.Fits done table) :
    ∀ p ∈ a.placeFrom done table, a.rangeStart ≤ p.offset ∧ p.stop ≤ a.rangeEnd := by
  induction table generalizing done with
  | nil => exact List.forall_mem_nil _
  | cons part rest ih =>
    refine List.forall_mem_cons.mpr ⟨⟨?_, place_stop_le h hfits.1⟩, ih hfits.2⟩
    rw [h.place_offset hfits.1.le]
    exact Nat.le_add_right _ _

private theorem assignLoop_rotated (front : List (PartInfo b)) (h : a.Exact) (hp : a.Percentages (front ++ rest))
    (hfits : a.Fits 0 (front ++ rest)) :
    a.assignLoop (rest.length + 1) (a.rotated front rest) = some (none, (a.placeFrom 0 (front ++ rest)).zipIdx) := by
  induction rest generalizing front with
  | nil =>
    rw [List.append_nil] at hp hfits ⊢
    change a.assignLoop 1 (a.placeFrom 0 front).zipIdx = _
    apply assignLoop_of_nonzero
    intro p hmem
    have hin : p.1 ∈ a.placeFrom 0 front := by
      have := List.mem_map_of_mem (f := Prod.fst) hmem
      rwa [List.zipIdx_map_fst] at this
    have := (placeFrom_inside h hfits p.1 hin).1
    have := h.rangeStart_pos
    omega
  | cons part rest ih =>
    have hroom : a.shares front < a.totalBlocks := by
      have := (fits_append.mp hfits).2.1
      rwa [Nat.zero_add] at this
    have hpos : 0 < (a.resize (a.shares front) part).size := by
      have hsize : (a.resize (a.shares front) part).size =
          min (a.share part.size) (a.totalBlocks - a.shares front) * a.blockSize := h.place_size
      have hshare := (hp part (List.mem_append_right _ List.mem_cons_self)).2.2
      rw [hsize]
      exact Nat.mul_pos (by omega) h.blockSize_pos
    have hpass := pass_rotated h.aligned hp hroom (h.bytes_lt hroom.le) hpos
    have hassoc : front ++ part :: rest = (front ++ [part]) ++ rest := by
      rw [List.append_assoc, List.singleton_append]
    rw [List.length_cons, a.assignLoop_fueled.go _ _ _ hpass, hassoc]
    rw [hassoc] at hp hfits
    exact ih _ hp hfits

end Placing

section Layout

private theorem placeFrom_concat (done : Nat) (front : List (PartInfo b)) (last : PartInfo b) :
    a.placeFrom done (front ++ [last]) = a.placeFrom done front ++ [a.place (done + a.shares front) last] :=
  placeFrom_append

private theorem placeFrom_chain (h : a.Exact) (hfits : a.Fits done table) :
    (a.placeFrom done table).IsChain fun p q => q.offset = p.stop := by
  induction table generalizing done with
  | nil => exact List.IsChain.nil
  | cons part rest ih =>
    rcases rest with _ | ⟨next, rest⟩
    · exact List.IsChain.singleton _
    · have hnext := hfits.2.1
      refine List.IsChain.cons_cons ?_ (ih hfits.2)
      rw [h.place_offset hnext.le, place_stop hnext.le (h.bytes_lt hnext.le)]

private theorem placeFrom_sizes (h : a.Exact) (hroom : done + a.shares table ≤ a.totalBlocks) :
    (a.placeFrom done table).map PartInfo.size = table.map fun p => a.share p.size * a.blockSize := by
  induction table generalizing done with
  | nil => rfl
  | cons part rest ih =>
    rw [shares_cons, ← Nat.add_assoc] at hroom
    rw [placeFrom, List.map_cons, ih hroom, h.place_size, Nat.min_eq_left (by omega), List.map_cons]

private theorem placeFrom_labels : (a.placeFrom done table).map PartInfo.label = table.map PartInfo.label := by
  induction table generalizing done with
  | nil => rfl
  | cons part rest ih =>
    rw [placeFrom, List.map_cons, ih, List.map_cons]
    rfl

theorem inSequence_placeFrom (h : a.Exact) (hfits : a.Fits 0 table) : a.InSequence table (a.placeFrom 0 table) := by
  refine ⟨placeFrom_labels, fun p hp => ?_, placeFrom_chain h hfits, ?_, ?_⟩
  · rcases table with _ | ⟨part, rest⟩
    · cases hp
    · cases hp
      rw [h.place_offset (Nat.zero_le _), Nat.zero_mul, Nat.add_zero]
  all_goals rcases List.eq_nil_or_concat' table with rfl | ⟨front, last, rfl⟩
  · rfl
  · have hroom := (fits_append.mp hfits).2.1
    rw [placeFrom_concat, List.dropLast_concat, List.dropLast_concat]
    exact placeFrom_sizes h hroom.le
  · intro p p' hp
    cases hp
  · intro p p' hp hp'
    have hroom := (fits_append.mp hfits).2.1
    rw [List.getLast?_concat] at hp
    rw [placeFrom_concat, List.getLast?_concat] at hp'
    cases hp
    cases hp'
    refine ⟨?_, place_stop_le h hroom⟩
    rw [h.place_size, h.place_offset hroom.le, rangeEnd_eq, Nat.add_sub_add_left, ← Nat.sub_mul]
    exact (Nat.mul_min_mul_right _ _ _).symm

theorem percentages_of_hundred (h : a.ExactShares) (htotal : 100 ≤ a.totalBlocks) (hp : AutoPercentages table) :
    a.Percentages table := by
  intro p hmem
  obtain ⟨hoff, hlo, hhi⟩ := hp p hmem
  have hmul : a.totalBlocks * 1 ≤ a.totalBlocks * p.size := Nat.mul_le_mul_left _ hlo
  have hone : 1 ≤ a.totalBlocks * p.size / 100 := by omega
  exact ⟨hoff, hhi, Nat.lt_of_lt_of_le hone (Extents.le_roundUp h.align)⟩

/-- A table of percentages either fits, and is laid out in sequence, or is refused. -/
theorem validate_percentages (h : a.Exact) (hp : a.Percentages table) (hne : table ≠ []) :
    (a.Fits 0 table → validate a table = some (.returned .success (a.placeFrom 0 table))) ∧
      (¬ a.Fits 0 table → ∃ table', validate a table = some (.returned .noSpace table')) := by
  have hloop := sizingLoop_percentages 0 h.toExactShares hp
  rw [Nat.zero_min, Nat.zero_add] at hloop
  constructor
  · intro hfits
    have hr : a.Reaches table (a.resizeFrom 0 table) (min (a.shares table) a.totalBlocks) :=
      ⟨h.first, h.blockSize_pos.ne', hloop.1 hfits, Nat.min_le_right _ _⟩
    have hassign := assignLoop_rotated [] h hp hfits
    rw [← sortList_resizeFrom hp, ← length_resizeFrom (a := a) 0] at hassign
    obtain rfl | ⟨front, last, rfl⟩ := List.eq_nil_or_concat' table
    · exact absurd rfl hne
    · have hroom := (fits_append.mp hfits).2.1
      have hlast : (a.placeFrom 0 (front ++ [last])).zipIdx.getLast? =
          some (a.place (0 + a.shares front) last, 0 + (a.placeFrom 0 front).length) := by
        rw [placeFrom_concat, List.zipIdx_append]
        exact List.getLast?_concat
      have h0 : (a.place (0 + a.shares front) last).offset ≠ 0 := by
        have := h.rangeStart_pos
        rw [h.place_offset hroom.le]
        omega
      have hv := hr.accepted hassign hlast (endOffset_le h.range h.first h.blockSize_pos.ne' h0 (place_stop_le h hroom))
      rwa [List.nil_append, inTableOrder_of_perm (List.Perm.refl _)] at hv
  · intro hfits
    obtain ⟨T, table', hl⟩ := hloop.2 hfits
    refine ⟨table', ?_⟩
    rw [validate, if_neg (not_or.mpr ⟨h.first, h.blockSize_pos.ne'⟩), hl]

end Layout

end Available

/-- With 64 bits, and a range of 100 blocks at least that ends below 2^57 bytes, validate lays out
every table of percentages in sequence, unless the entries before one leave it no block. -/
theorem percentages_in_sequence (a : Available b) (h64 : b.size64 = true) (hblock : a.blockSize ∣ PARTITION_ALIGN)
    (hpos : a.rangeStart ≠ 0) (hstart : PARTITION_ALIGN ∣ a.rangeStart) (htotal : 100 ≤ a.totalBlocks)
    (hend : a.rangeEnd < 2 ^ 57) (table : List (PartInfo b)) (hne : table ≠ [])
    (hpercent : ∀ p ∈ table, p.offset = 0 ∧ 1 ≤ p.size ∧ p.size ≤ 100) :
    (∃ err table', validate a table = some (.returned err table') ∧ (err = .success ∨ err = .noSpace)) ∧
      ((∃ table', validate a table = some (.returned .noSpace table')) ↔
        ∃ front back, table = front ++ back ∧ back ≠ [] ∧ a.totalBlocks ≤ a.shares front) ∧
      ∀ table', validate a table = some (.returned .success table') → a.InSequence table table' := by
  have hfirst : a.firstBlock ≠ 0 := fun h0 => hpos (by rw [Available.rangeStart, h0, Nat.zero_mul])
  have hblockpos := Nat.pos_of_dvd_of_pos hblock PARTITION_ALIGN_pos
  have hbytes : a.firstBlock + a.totalBlocks ≤ a.rangeEnd := Nat.le_mul_of_pos_right _ hblockpos
  have hW : b.storageSize = 2 ^ 64 := by rw [Build.storageSize, h64, if_pos rfl]
  have halign : a.blockAlign ≤ PARTITION_ALIGN := Nat.div_le_self _ _
  rw [PARTITION_ALIGN] at halign
  have hal : 0 < a.blockAlign := Nat.div_pos (Nat.le_of_dvd PARTITION_ALIGN_pos hblock) hblockpos
  have h : a.Exact := ⟨⟨by omega, by omega, hal⟩, hfirst, hblock, hstart, by omega⟩
  have hp : a.Percentages table := Available.percentages_of_hundred h.toExactShares htotal hpercent
  obtain ⟨hfit, hnot⟩ := Available.validate_percentages h hp hne
  have hprefix : ¬ a.Fits 0 table ↔ ∃ front back, table = front ++ back ∧ back ≠ [] ∧
    a.totalBlocks ≤ a.shares front := by
    rw [Available.fits_iff]
    push Not
    simp only [Nat.zero_add]
  by_cases hfits : a.Fits 0 table
  · refine ⟨⟨_, _, hfit hfits, Or.inl rfl⟩, ?_, fun table' hv => ?_⟩
    · rw [← hprefix]
      refine iff_of_false ?_ (not_not.mpr hfits)
      rintro ⟨table', hv⟩
      rw [hfit hfits] at hv
      cases hv
    · rw [hfit hfits] at hv
      cases hv
      exact Available.inSequence_placeFrom h hfits
  · obtain ⟨table', hv⟩ := hnot hfits
    refine ⟨⟨_, _, hv, Or.inr rfl⟩, ?_, fun table'' hv' => ?_⟩
    · rw [← hprefix]
      exact iff_of_true ⟨table', hv⟩ hfits
    · rw [hv] at hv'
      cases hv'

/-- Shares of 50, 10, 35 and 5 percent of a disk of 100 MiB, behind its first MiB. -/
theorem percentages_in_sequence_four : ∃ table', validate (Available.of ⟨true, true, true, 512⟩ 2048 202752 512)
        [PartInfo.new [] ⟨0, 0⟩ 0 50, PartInfo.new [] ⟨0, 0⟩ 0 10, PartInfo.new [] ⟨0, 0⟩ 0 35,
          PartInfo.new [] ⟨0, 0⟩ 0 5] = some (.returned .success table') ∧
      (Available.of ⟨true, true, true, 512⟩ 2048 202752 512).InSequence
        [PartInfo.new [] ⟨0, 0⟩ 0 50, PartInfo.new [] ⟨0, 0⟩ 0 10, PartInfo.new [] ⟨0, 0⟩ 0 35,
          PartInfo.new [] ⟨0, 0⟩ 0 5]
        table' := by
  obtain ⟨⟨err, table', hv, hret⟩, hspace, hseq⟩ :=
    percentages_in_sequence (Available.of ⟨true, true, true, 512⟩ 2048 202752 512) rfl
    (by decide) (by decide) (by decide) (by decide) (by decide)
    [PartInfo.new [] ⟨0, 0⟩ 0 50, PartInfo.new [] ⟨0, 0⟩ 0 10, PartInfo.new [] ⟨0, 0⟩ 0 35, PartInfo.new [] ⟨0, 0⟩ 0 5]
    (by decide) (by decide)
  have hfits : (Available.of ⟨true, true, true, 512⟩ 2048 202752 512).Fits 0
    [PartInfo.new [] ⟨0, 0⟩ 0 50, PartInfo.new [] ⟨0, 0⟩ 0 10, PartInfo.new [] ⟨0, 0⟩ 0 35,
      PartInfo.new [] ⟨0, 0⟩ 0 5] :=
    ⟨by decide, by decide, by decide, by decide, trivial⟩
  obtain rfl : err = .success := by
    apply hret.resolve_right
    rintro rfl
    obtain ⟨front, back, heq, hne, hle⟩ := hspace.mp ⟨table', hv⟩
    have := Available.fits_iff.mp hfits front back heq hne
    omega
  exact ⟨table', hv, hseq table' hv⟩

end DiskStorage
