import DiskStorage.Validate.Sizing
import Mathlib.Data.List.Induction

/-! The running total of the sizing loop against exact space accounting. -/
namespace DiskStorage
open Extents (roundUp)

variable {b : Build}

namespace Available
variable (a : Available b)

/-- What the callers pass: the size of a sector, which divides the partition alignment, and
a range of bytes that `storage_size_t` can hold. -/
structure Representable : Prop where
  first : 0 < a.firstBlock
  sector : DISK_MIN_SECTOR_SIZE ≤ a.blockSize
  block : a.blockSize ∣ PARTITION_ALIGN
  range : a.rangeEnd ≤ b.storageSize

/-- No sum in the computation of a percentage wraps. -/
structure ExactShares : Prop where
  percent : a.totalBlocks * 100 < 2 ^ 64
  round : a.totalBlocks + a.blockAlign < b.storageSize
  align : 0 < a.blockAlign

/-- Exact space accounting of a table. -/
structure Accounted (table : List (PartInfo b)) : Prop where
  /-- The running total is what the entries so far claim. -/
  running : ∀ front back T sized, table = front ++ back → a.sizingLoop 0 front = (none, T, sized) →
    T = a.claims front sized
  /-- A percentage gets its share, or what is still free. -/
  resolved : ∀ front part back T sized err T' part', table = front ++ part :: back →
    a.sizingLoop 0 front = (none, T, sized) → a.sizeEntry T part = (err, T', part') →
    part.size ≤ 100 → err ≠ some .noSpace →
    part'.size = min (a.share part.size) (a.totalBlocks - a.claims front sized) * a.blockSize
  /-- The loop stops with NoSpace when a percentage needs a block and none is free. -/
  noSpace : ∀ front part back T sized err T' part', table = front ++ part :: back →
    a.sizingLoop 0 front = (none, T, sized) → a.sizeEntry T part = (err, T', part') →
    (err = some .noSpace ↔
      part.size ≤ 100 ∧ a.totalBlocks < a.claims front sized + min 1 (a.share part.size))
  /-- So does the check after it, when the entries claim more than there is. -/
  total : ∀ T sized, a.sizingLoop 0 table = (none, T, sized) →
    (T > a.totalBlocks ↔ a.totalBlocks < a.claims table sized)
  /-- Explicit sizes without offsets that fit the range are accepted. -/
  explicit : table ≠ [] → (∀ p ∈ table, p.offset = 0 ∧ 100 < p.size) →
    (table.map fun p => roundUp p.size PARTITION_ALIGN).sum ≤ a.totalBlocks * a.blockSize →
    ∃ table', validate a table = some (.returned .success table')

/-- The loop comes to an explicit size that it accepts and adds to the running total. -/
def AddsExplicit (table : List (PartInfo b)) : Prop :=
  ∃ front part back, table = front ++ part :: back ∧ (a.sizingLoop 0 front).1 = none ∧
    100 < part.size ∧ part.offset % PARTITION_ALIGN = 0 ∧ a.StartInRange part

variable {a} {table front back sized : List (PartInfo b)} {part part' : PartInfo b} {T T' size : Nat}

namespace Representable

theorem blockSize_pos (ha : a.Representable) : 0 < a.blockSize :=
  Nat.lt_of_lt_of_le (by decide) ha.sector

theorem blockSize_le (ha : a.Representable) : a.blockSize ≤ PARTITION_ALIGN :=
  Nat.le_of_dvd PARTITION_ALIGN_pos ha.block

theorem blockAlign_mul (ha : a.Representable) : a.blockAlign * a.blockSize = PARTITION_ALIGN :=
  Nat.div_mul_cancel ha.block

theorem blockAlign_pos (ha : a.Representable) : 0 < a.blockAlign :=
  Nat.div_pos ha.blockSize_le ha.blockSize_pos

theorem total_mul_lt (ha : a.Representable) : a.totalBlocks * a.blockSize < b.storageSize := by
  have h := ha.range
  have hmul : 0 < a.firstBlock * a.blockSize := Nat.mul_pos ha.first ha.blockSize_pos
  rw [rangeEnd, Nat.add_mul] at h
  omega

theorem exactShares (ha : a.Representable) : a.ExactShares := by
  have h1 : a.totalBlocks * 512 ≤ a.totalBlocks * a.blockSize := Nat.mul_le_mul_left _ ha.sector
  have h2 : a.blockAlign * 512 ≤ a.blockAlign * a.blockSize := Nat.mul_le_mul_left _ ha.sector
  have h3 := ha.total_mul_lt
  have h4 := ha.blockAlign_mul
  have h5 := b.storageSize_cases
  rw [PARTITION_ALIGN] at h4
  exact ⟨by omega, by omega, ha.blockAlign_pos⟩

end Representable

namespace ExactShares

theorem share_lt (h : a.ExactShares) (hsize : size ≤ 100) : a.share size < a.totalBlocks + a.blockAlign := by
  have hle : a.totalBlocks * size ≤ a.totalBlocks * 100 := Nat.mul_le_mul_left _ hsize
  have : roundUp (a.totalBlocks * size / 100) a.blockAlign < a.totalBlocks * size / 100 + a.blockAlign :=
    Extents.roundUp_lt h.align
  rw [share]
  omega

/-- What the percentage branch computes, as long as the running total is not past the limit. -/
theorem percentBlocks_eq (h : a.ExactShares) (hT : T ≤ a.totalBlocks) (hsize : size ≤ 100) :
    a.percentBlocks T size =
      if a.totalBlocks < T + min 1 (a.share size) then none else some (min (a.share size) (a.totalBlocks - T)) := by
  obtain ⟨h100, hadd, hal⟩ := h
  have hle : a.totalBlocks * size ≤ a.totalBlocks * 100 := Nat.mul_le_mul_left _ hsize
  have hshare : b.alignUp (b.storage (u64 (a.totalBlocks * size) / 100)) a.blockAlign = a.share size := by
    rw [u64_of_lt (by omega), Build.storage_of_lt (by omega), Build.alignUp_eq (by omega), share]
  have hlt := share_lt ⟨h100, hadd, hal⟩ hsize
  have hblock : a.blockAlign ≤ PARTITION_ALIGN := Nat.div_le_self _ _
  rw [PARTITION_ALIGN] at hblock
  have hW := b.storageSize_cases
  have hsum : u64 (T + a.share size) = T + a.share size := u64_of_lt (by omega)
  have hfree : b.storage (u64 (a.totalBlocks + (2 ^ 64 - T))) = a.totalBlocks - T := by
    have : u64 (a.totalBlocks + (2 ^ 64 - T)) = a.totalBlocks - T := by
      rw [u64]
      omega
    rw [this, Build.storage_of_lt (by omega)]
  simp only [percentBlocks, hshare, hsum, hfree]
  split
  · split
    · rw [if_pos (by omega)]
    · rw [if_neg (by omega), Nat.min_eq_right (by omega)]
  · rw [if_neg (by omega), Nat.min_eq_left (by omega)]

end ExactShares

section Percentages

/-- Over percentages the running total is the sum of their shares, up to the limit. -/
theorem runningTotal_of_percentages (ha : a.Representable) (hpercent : ∀ p ∈ table, p.size ≤ 100)
    (hT : T ≤ a.totalBlocks) :
    table.foldl a.runningTotal T = min a.totalBlocks (T + (table.map fun p => a.share p.size).sum) := by
  have hlt : a.totalBlocks < 2 ^ 64 := Build.lt_u64 a.total_lt
  induction table generalizing T with
  | nil =>
    rw [List.map_nil, List.sum_nil, Nat.add_zero, Nat.min_eq_right hT]
    rfl
  | cons part rest ih =>
    obtain ⟨hsize, hrest⟩ := List.forall_mem_cons.mp hpercent
    have hnext : a.runningTotal T part = min a.totalBlocks (T + a.share part.size) := by
      rw [runningTotal, if_pos hsize, ha.exactShares.percentBlocks_eq hT hsize]
      split
      · rw [Option.getD_none, Nat.add_zero, u64_of_lt (by omega)]
        omega
      · rw [Option.getD_some, u64_of_lt (by omega)]
        omega
    rw [List.foldl_cons, ih hrest (by omega), hnext, List.map_cons, List.sum_cons]
    omega

/-- A percentage asks for its share, or for what those in front of it leave. -/
theorem requestedAt_of_percentages (ha : a.Representable) (hpercent : ∀ p ∈ table, p.size ≤ 100)
    (hsize : part.size ≤ 100) (i : Nat) :
    a.requestedAt table i part =
      min (a.share part.size) (a.totalBlocks - ((table.take i).map fun p => a.share p.size).sum) * a.blockSize := by
  have hfront := runningTotal_of_percentages ha (fun p hp => hpercent p (List.mem_of_mem_take (i := i) hp))
    (Nat.zero_le _)
  have hfits : ∀ n, n ≤ a.totalBlocks → b.storage (n * a.blockSize) = n * a.blockSize := fun n hn =>
    Build.storage_of_lt (Nat.lt_of_le_of_lt (Nat.mul_le_mul_right _ hn) ha.total_mul_lt)
  rw [requestedAt, hfront, Nat.zero_add, requested, if_pos hsize,
    ha.exactShares.percentBlocks_eq (Nat.min_le_left _ _) hsize]
  split
  · rw [Option.getD_none, hfits 0 (Nat.zero_le _)]
    congr 1
    omega
  · rw [Option.getD_some, hfits _ (by omega)]
    congr 1
    omega

end Percentages

private theorem percent_of_not_adds (h : ¬ a.AddsExplicit table) (htable : table = front ++ part :: back)
    (hfront : a.sizingLoop 0 front = (none, T, sized)) {T' part'} (he : a.sizeEntry T part = (none, T', part')) :
    part.size ≤ 100 := by
  obtain ⟨hin, ⟨hsize, _⟩ | ⟨hsize, hal, _⟩⟩ := sizeEntry_none he
  · exact hsize
  · exact absurd ⟨front, part, back, htable, by rw [hfront], hsize, hal, hin⟩ h

private theorem claims_concat (hlen : sized.length = front.length) :
    a.claims (front ++ [part]) (sized ++ [part']) = a.claims front sized + a.claim part part' := by
  rw [claims, claims, List.zipWith_append hlen.symm, List.sum_append]
  rfl

private theorem resolved_size (ha : a.Representable) (hT : T ≤ a.totalBlocks) (n : Nat) :
    (part.setSize (min n (a.totalBlocks - T) * a.blockSize)).size = min n (a.totalBlocks - T) * a.blockSize := by
  have hle : min n (a.totalBlocks - T) * a.blockSize ≤ a.totalBlocks * a.blockSize :=
    Nat.mul_le_mul_right _ (by omega)
  have := ha.total_mul_lt
  exact Build.storage_of_lt (by omega)

private theorem running_total (ha : a.Representable) (hx : ¬ a.AddsExplicit table) (htable : table = front ++ back)
    (hl : a.sizingLoop 0 front = (none, T, sized)) : T = a.claims front sized ∧ T ≤ a.totalBlocks := by
  induction front using List.reverseRecOn generalizing back T sized with
  | nil =>
    cases hl
    exact ⟨rfl, Nat.zero_le _⟩
  | append_singleton front part ih =>
    obtain ⟨T₁, sized, part', hf, he, rfl⟩ := sizingLoop_concat_none.mp hl
    rw [List.append_assoc] at htable
    obtain ⟨hT₁, hle⟩ := ih htable hf
    have hsize := percent_of_not_adds hx htable hf he
    obtain ⟨_, ⟨_, blocks, hp, hT, rfl⟩ | ⟨hbig, _⟩⟩ := sizeEntry_none he
    · rw [ha.exactShares.percentBlocks_eq hle hsize] at hp
      split at hp
      · cases hp
      · cases hp
        have hW := Build.lt_u64 a.total_lt
        rw [u64_of_lt (by omega)] at hT
        rw [claims_concat (sizingLoop_length hf), claim, if_pos hsize, resolved_size ha hle,
          Nat.mul_div_cancel _ ha.blockSize_pos, ← hT₁]
        omega
    · omega

private theorem accounted_of_not (ha : a.Representable) (hx : ¬ a.AddsExplicit table) : a.Accounted table where
  running := fun front back T sized htable hl => (running_total ha hx htable hl).1
  resolved := by
    intro front part back T sized err T' part' htable hl he hsize herr
    obtain ⟨hT, hle⟩ := running_total ha hx htable hl
    rw [← hT]
    rw [sizeEntry, if_pos hsize, ha.exactShares.percentBlocks_eq hle hsize] at he
    split at he
    · rename_i hp
      cases he
      exact absurd rfl herr
    · rename_i blocks hp
      split at hp
      · cases hp
      · cases hp
        rw [checkOffset] at he
        split at he
        all_goals
          cases he
          exact resolved_size ha hle _
  noSpace := by
    intro front part back T sized err T' part' htable hl he
    obtain ⟨hT, hle⟩ := running_total ha hx htable hl
    rw [← hT]
    have hcheck : ∀ {T p}, a.checkOffset T p = (err, T', part') → err ≠ some .noSpace := by
      intro T p h
      rw [checkOffset] at h
      split at h
      all_goals
        cases h
        decide
    rw [sizeEntry] at he
    split at he
    · rename_i hsize
      rw [ha.exactShares.percentBlocks_eq hle hsize] at he
      split at he
      · rename_i hp
        cases he
        exact iff_of_true rfl ⟨hsize, by
          split at hp
          · assumption
          · cases hp⟩
      · rename_i blocks hp
        apply iff_of_false (hcheck he)
        intro h
        rw [if_pos h.2] at hp
        cases hp
    · rename_i hsize
      refine iff_of_false ?_ fun h => hsize h.1
      split at he
      · cases he
        decide
      · exact hcheck he
  total := by
    intro T sized hl
    rw [← (running_total ha hx (List.append_nil table).symm hl).1]
  explicit := by
    intro hne hall _
    obtain ⟨part, rest, rfl⟩ := List.exists_cons_of_ne_nil hne
    obtain ⟨hoff, hsize⟩ := hall part List.mem_cons_self
    exact absurd ⟨[], part, rest, rfl, rfl, hsize, by rw [hoff]; rfl, Or.inl hoff⟩ hx

private theorem alignUp_ne (ha : a.Representable) (hT : T < 2 ^ 64) (hsize : 100 < part.size) :
    u64 (T + b.alignUp part.size PARTITION_ALIGN) ≠ T + roundUp part.size PARTITION_ALIGN / a.blockSize := by
  have hlo := Extents.le_roundUp (m := part.size) PARTITION_ALIGN_pos
  have hW := b.storageSize_cases
  have hmul := Nat.div_add_mod (roundUp part.size PARTITION_ALIGN) a.blockSize
  have hmod := Nat.mod_lt (roundUp part.size PARTITION_ALIGN) ha.blockSize_pos
  have hbs := ha.blockSize_le
  have hblocks : 512 * (roundUp part.size PARTITION_ALIGN / a.blockSize) ≤
      a.blockSize * (roundUp part.size PARTITION_ALIGN / a.blockSize) := Nat.mul_le_mul_right _ ha.sector
  have hsector := ha.sector
  have hpos : 0 < roundUp part.size PARTITION_ALIGN / a.blockSize := by
    refine Nat.div_pos (hbs.trans (Nat.le_of_dvd ?_ (Extents.dvd_roundUp _ _))) ha.blockSize_pos
    omega
  rw [Build.alignUp_partition part.size_lt, u64]
  rw [PARTITION_ALIGN] at hbs
  split <;> omega

private theorem not_adds_of_accounted (ha : a.Representable) (h : a.Accounted table) : ¬ a.AddsExplicit table := by
  rintro ⟨front, part, back, htable, hnone, hsize, hal, hin⟩
  rcases hl : a.sizingLoop 0 front with ⟨err, T, sized⟩
  obtain rfl : err = none := by rw [hl] at hnone; exact hnone
  have hT := h.running front (part :: back) T sized htable hl
  have he : a.sizeEntry T part = (none, u64 (T + b.alignUp part.size PARTITION_ALIGN), part) := by
    rw [sizeEntry, if_neg (Nat.not_le.mpr hsize), if_neg (not_not.mpr hal), checkOffset_of_startInRange hin]
  have hstep := h.running (front ++ [part]) back _ _ (by rw [htable, List.append_assoc]; rfl)
    (sizingLoop_concat_none.mpr ⟨T, sized, part, hl, he, rfl⟩)
  rw [claims_concat (sizingLoop_length hl), ← hT, claim, if_neg (Nat.not_le.mpr hsize)] at hstep
  refine alignUp_ne ha ?_ hsize hstep
  rcases List.eq_nil_or_concat' front with rfl | ⟨front, last, rfl⟩
  · cases hl
    decide
  · obtain ⟨T₁, _, last', _, hlast, _⟩ := sizingLoop_concat_none.mp hl
    obtain ⟨_, ⟨_, _, _, hT', _⟩ | ⟨_, _, hT', _⟩⟩ := sizeEntry_none hlast
    all_goals
      rw [hT', u64]
      exact Nat.mod_lt _ (by decide)

end Available

/-- The sizing loop accounts for the space exactly when it never adds an explicit size to the
running total: it adds the bytes of that size to a number of blocks. -/
theorem sizing_accounts_iff_no_explicit_size (a : Available b) (ha : a.Representable) (table : List (PartInfo b)) :
    a.Accounted table ↔ ¬ a.AddsExplicit table :=
  ⟨Available.not_adds_of_accounted ha, Available.accounted_of_not ha⟩

private theorem two_mib_representable :
    (Available.of ⟨true, true, true, 512⟩ 2048 4096 512).Representable :=
  ⟨by decide, by decide, by decide, by decide⟩

theorem sizing_accounts_percentages :
    (Available.of ⟨true, true, true, 512⟩ 2048 4096 512).Accounted
      [PartInfo.new [] ⟨0, 0⟩ 0 50, PartInfo.new [] ⟨0, 0⟩ 0 75] := by
  apply (sizing_accounts_iff_no_explicit_size _ two_mib_representable _).mpr
  rintro ⟨front, part, back, htable, _, hsize, _⟩
  have hmem : part ∈ front ++ part :: back := List.mem_append_right _ List.mem_cons_self
  rw [← htable] at hmem
  rcases List.mem_cons.mp hmem with rfl | hmem
  · exact absurd hsize (by decide)
  · rw [List.mem_singleton.mp hmem] at hsize
    exact absurd hsize (by decide)

/-- One explicit size of 1 MiB in 2 MiB of available blocks is refused for lack of space. -/
theorem sizing_refuses_one_of_two_mib :
    ¬ (Available.of ⟨true, true, true, 512⟩ 2048 4096 512).Accounted [PartInfo.new [] ⟨0, 0⟩ 0 0x100000] := by
  intro h
  have htotal := h.total (u64 (0 + 0x100000)) [PartInfo.new [] ⟨0, 0⟩ 0 0x100000] (by rfl)
  exact absurd (htotal.mp (by decide)) (by decide)

end DiskStorage
