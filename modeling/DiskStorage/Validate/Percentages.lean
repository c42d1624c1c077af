import DiskStorage.Validate.Rounds
import DiskStorage.Validate.Sequential

/-! Percentage tables in ranges of any length: when validate accepts nothing but partitions inside
the range, and its assert holds. -/
namespace DiskStorage
open Extents (roundUp)

variable {b : Build}

namespace Available
variable (a : Available b)

/-- All partitions lie in the range. -/
def Inside (table : List (PartInfo b)) : Prop := ∀ p ∈ table, a.rangeStart ≤ p.offset ∧ p.stop ≤ a.rangeEnd

/-- validate returns, and the partitions of a table that it accepts lie in the range. -/
def Contains (table : List (PartInfo b)) : Prop :=
  ∃ err table', validate a table = some (.returned err table') ∧ (err = .success → a.Inside table')

/-- `totalAvailableBlocks - totalBlocks` does not wrap, whatever entry the sizing loop clips. -/
def Clips (table : List (PartInfo b)) : Prop :=
  ∀ front part back T sized, table = front ++ part :: back → a.sizingLoop 0 front = (none, T, sized) → T ≤ a.totalBlocks

/-- The bytes of the entries of a list, and of those that have been placed. -/
def bytes (list : List (Ref b)) : Nat := (list.map fun p => p.1.size).sum

def placedBytes (list : List (Ref b)) : Nat := (list.map fun p => if p.1.offset = 0 then 0 else p.1.size).sum

/-- A list of the placement loop whose entries are multiples of the alignment: those that have been
placed reach no further than they would one behind the other. -/
structure Packed (list : List (Ref b)) : Prop where
  whole : ∀ p ∈ list, PARTITION_ALIGN ∣ p.1.size
  room : bytes list ≤ a.totalBlocks * a.blockSize
  placed : ∀ p ∈ list, p.1.offset ≠ 0 →
    PARTITION_ALIGN ∣ p.1.offset ∧ a.rangeStart ≤ p.1.offset ∧ p.1.stop ≤ a.rangeStart + placedBytes list

/-- A list of the placement loop whose entries, of one alignment unit at most, lie within two units for
each of those that have been placed. -/
def Close (n : Nat) (list : List (Ref b)) : Prop :=
  unplaced list ≤ n ∧ ∀ p ∈ list, p.1.size ≤ PARTITION_ALIGN ∧
    p.1.offset ≤ a.rangeStart + 2 * (n - unplaced list) * PARTITION_ALIGN

variable {a} {table : List (PartInfo b)} {list list' rest : List (Ref b)} {T T' size e e₀ fuel : Nat}
  {part : PartInfo b}

theorem contains_of_hundred (h : a.Exact) (htotal : 100 ≤ a.totalBlocks) (hne : table ≠ [])
    (hp : AutoPercentages table) : a.Contains table := by
  obtain ⟨hfit, hnot⟩ := validate_percentages h (percentages_of_hundred h.toExactShares htotal hp) hne
  by_cases hfits : a.Fits 0 table
  · exact ⟨_, _, hfit hfits, fun _ => placeFrom_inside h hfits⟩
  · obtain ⟨table', hv⟩ := hnot hfits
    exact ⟨_, table', hv, by simp⟩

private theorem placeFrom_pos (h : a.Exact) (hp : a.Percentages table) {done : Nat} (hfits : a.Fits done table) :
    ∀ p ∈ a.placeFrom done table, 0 < p.size := by
  induction table generalizing done with
  | nil => exact fun p hmem => absurd hmem List.not_mem_nil
  | cons part rest ih =>
    obtain ⟨hpart, hrest⟩ := List.forall_mem_cons.mp hp
    refine List.forall_mem_cons.mpr ⟨?_, ih hrest hfits.2⟩
    rw [h.place_size]
    exact Nat.mul_pos (Nat.lt_min.mpr ⟨hpart.2.2, Nat.sub_pos_of_lt hfits.1⟩) h.blockSize_pos

/-- With 100 blocks the partitions of a table that is accepted follow one another, and none is empty. -/
theorem accepted_of_hundred (h : a.Exact) (htotal : 100 ≤ a.totalBlocks) (hne : table ≠ []) (hp : AutoPercentages table)
    {parts : List (PartInfo b)} (hv : validate a table = some (.returned .success parts)) :
    (parts.Pairwise fun p q => p.stop ≤ q.offset) ∧ a.Inside parts ∧ ∀ p ∈ parts, 0 < p.size := by
  have hpercent := percentages_of_hundred h.toExactShares htotal hp
  obtain ⟨hfit, hnot⟩ := validate_percentages h hpercent hne
  by_cases hfits : a.Fits 0 table
  · cases hv.symm.trans (hfit hfits)
    -- an end is no later than the next start, and this no later than its own end
    have htrans : IsTrans (PartInfo b) fun p q => p.stop ≤ q.offset :=
      ⟨fun p q r hpq hqr => hpq.trans ((Nat.le_add_right _ _).trans hqr)⟩
    have hchain := (inSequence_placeFrom h hfits).next
    exact ⟨(hchain.imp fun p q heq => heq.ge).pairwise, placeFrom_inside h hfits, placeFrom_pos h hpercent hfits⟩
  · obtain ⟨table', hv'⟩ := hnot hfits
    rw [hv] at hv'
    cases hv'

section Sizing

private theorem sizingLoop_le (h : a.ExactShares) {sized : List (PartInfo b)} (hp : AutoPercentages table)
    (hT : T ≤ a.totalBlocks) (hl : a.sizingLoop T table = (none, T', sized)) :
    T' ≤ a.totalBlocks ∧ ∀ s ∈ sized, s.offset = 0 ∧ s.size ≤ a.totalBlocks * a.blockSize := by
  apply sizingLoop_rule (I := fun T => T ≤ a.totalBlocks) _ hT hp hl
  intro T T' part part' hT ⟨hoff, _, hsize⟩ he
  obtain ⟨_, ⟨_, blocks, hblocks, rfl, rfl⟩ | ⟨hbig, _⟩⟩ := sizeEntry_none he
  · rw [h.percentBlocks_eq hT hsize] at hblocks
    split at hblocks
    · cases hblocks
    · cases hblocks
      refine ⟨(Nat.mod_le _ _).trans (by omega), hoff, ?_⟩
      exact (Nat.mod_le _ _).trans (Nat.mul_le_mul_right _ (by omega))
  · omega

/-- Nowhere the sizing loop subtracts a running total that is past the blocks of the range. -/
theorem clips_of_exactShares (h : a.ExactShares) (hp : AutoPercentages table) : a.Clips table := by
  intro front part back T sized heq hl
  refine (sizingLoop_le h (fun p hmem => hp p ?_) (Nat.zero_le _) hl).1
  rw [heq]
  exact List.mem_append_left _ hmem

private theorem sizeEntry_whole (h : a.Exact) (htotal : a.blockAlign ∣ a.totalBlocks) (hoff : part.offset = 0)
    (hsize : part.size ≤ 100) (hT : T ≤ a.totalBlocks) (hdvd : a.blockAlign ∣ T) :
    (∃ blocks part', a.sizeEntry T part = (none, T + blocks, part') ∧ a.blockAlign ∣ blocks ∧
      T + blocks ≤ a.totalBlocks ∧
      part'.offset = 0 ∧ part'.size = blocks * a.blockSize) ∨ a.sizeEntry T part = (some .noSpace, T, part) := by
  rw [sizeEntry, if_pos hsize, h.percentBlocks_eq hT hsize]
  by_cases hroom : a.totalBlocks < T + min 1 (a.share part.size)
  · right
    rw [if_pos hroom]
  · left
    have hmin : min (a.share part.size) (a.totalBlocks - T) ≤ a.totalBlocks - T := Nat.min_le_right _ _
    have hle : min (a.share part.size) (a.totalBlocks - T) * a.blockSize ≤ a.totalBlocks * a.blockSize :=
      Nat.mul_le_mul_right _ (by omega)
    have hrange := h.range
    rw [rangeEnd_eq] at hrange
    have h64 := Build.lt_u64 a.total_lt
    refine ⟨min (a.share part.size) (a.totalBlocks - T),
      part.setSize (min (a.share part.size) (a.totalBlocks - T) * a.blockSize), ?_, ?_, by omega, hoff, ?_⟩
    · rw [if_neg hroom]
      dsimp only
      rw [u64_of_lt (by omega)]
      exact checkOffset_of_startInRange (Or.inl hoff)
    · rcases Nat.le_total (a.share part.size) (a.totalBlocks - T) with hlt | hge
      · rw [Nat.min_eq_left hlt]
        exact Extents.dvd_roundUp _ _
      · rw [Nat.min_eq_right hge]
        exact Nat.dvd_sub htotal hdvd
    · exact Build.storage_of_lt (by omega)

private theorem sizingLoop_whole (h : a.Exact) (htotal : a.blockAlign ∣ a.totalBlocks) (hp : AutoPercentages table)
    (hT : T ≤ a.totalBlocks) (hdvd : a.blockAlign ∣ T) :
    (∃ T' sized, a.sizingLoop T table = (none, T', sized) ∧ T' ≤ a.totalBlocks ∧
      T * a.blockSize + (sized.map PartInfo.size).sum = T' * a.blockSize ∧
      ∀ s ∈ sized, s.offset = 0 ∧ PARTITION_ALIGN ∣ s.size) ∨
    ∃ T' table', a.sizingLoop T table = (some .noSpace, T', table') := by
  induction table generalizing T with
  | nil => exact Or.inl ⟨T, [], rfl, hT, rfl, List.forall_mem_nil _⟩
  | cons part rest ih =>
    obtain ⟨⟨hoff, _, hsize⟩, hrest⟩ := List.forall_mem_cons.mp hp
    rcases sizeEntry_whole h htotal hoff hsize hT hdvd with ⟨blocks, part', he, hblocks, hle, hoff', hsize'⟩ | he
    · rcases ih hrest hle (Nat.dvd_add hdvd hblocks) with ⟨T', sized, hl, hle', hsum, hall⟩ | ⟨T', table', hl⟩
      · refine Or.inl ⟨T', part' :: sized, sizingLoop_cons_none.mpr ⟨_, part', sized, he, hl, rfl⟩, hle', ?_, ?_⟩
        · rw [List.map_cons, List.sum_cons, hsize', ← hsum, Nat.add_mul]
          omega
        · refine List.forall_mem_cons.mpr ⟨⟨hoff', ?_⟩, hall⟩
          have := Nat.mul_dvd_mul_right hblocks a.blockSize
          rwa [blockAlign, Nat.div_mul_cancel h.block, ← hsize'] at this
      · right
        exact ⟨T', part' :: table', by rw [sizingLoop, he]; dsimp only; rw [hl]⟩
    · right
      exact ⟨T, part :: rest, by rw [sizingLoop, he]⟩

end Sizing

section Placement

private theorem placedBytes_le (list : List (Ref b)) : placedBytes list ≤ bytes list := by
  induction list with
  | nil => exact le_rfl
  | cons p list ih =>
    rw [placedBytes, bytes, List.map_cons, List.map_cons, List.sum_cons, List.sum_cons]
    rw [placedBytes, bytes] at ih
    split <;> omega

namespace Packed

theorem stop_le (h : a.Packed list) {p : Ref b} (hp : p ∈ list) (h0 : p.1.offset ≠ 0) : p.1.stop ≤ a.rangeEnd := by
  have hle := placedBytes_le list
  have hroom := h.room
  have hstop := (h.placed p hp h0).2.2
  rw [rangeEnd_eq]
  omega

private theorem search_le (he : a.Exact) {pz : Ref b} (h : a.Packed (pz :: rest)) (h0 : pz.1.offset = 0)
    (hs : a.search pz.1.size a.minOffset rest = some e) :
    PARTITION_ALIGN ∣ e ∧ a.rangeStart ≤ e ∧ e ≤ a.rangeStart + placedBytes rest := by
  have hsame : placedBytes (pz :: rest) = placedBytes rest := by
    rw [placedBytes, List.map_cons, List.sum_cons, if_pos h0, Nat.zero_add, placedBytes]
  rcases search_cases hs with rfl | ⟨p, hp, hne, rfl⟩
  · rw [minOffset_eq he.range]
    exact ⟨he.start, le_rfl, Nat.le_add_right _ _⟩
  · have hmem := List.mem_cons_of_mem pz hp
    obtain ⟨hal, hlo, hstop⟩ := h.placed p hmem hne
    have hdvd : PARTITION_ALIGN ∣ p.1.stop := Nat.dvd_add hal (h.whole p hmem)
    have hround : roundUp p.1.stop PARTITION_ALIGN = p.1.stop := Extents.roundUp_of_dvd PARTITION_ALIGN_pos hdvd
    have hend := (avail_eq he.range none he.first he.blockSize_pos.ne' le_rfl
      (hround.trans_le (h.stop_le hmem hne))).1
    rw [hend, hround]
    exact ⟨hdvd, hlo.trans (Nat.le_add_right _ _), by rwa [hsame] at hstop⟩

private theorem pass (he : a.Exact) (h : a.Packed list) (hp : a.Pass list e list') : a.Packed list' := by
  obtain ⟨pz, rest, rfl, h0, hs, rfl⟩ := hp
  obtain ⟨hal, hlo, hhi⟩ := h.search_le he h0 hs
  have hperm := sortList_perm ((pz.1.setOffset e, pz.2) :: rest)
  have hroom := h.room
  have hbytes : bytes (pz :: rest) = pz.1.size + bytes rest := by rw [bytes, List.map_cons, List.sum_cons, bytes]
  have hplaced := placedBytes_le rest
  have hrange := he.range
  rw [rangeEnd_eq] at hrange
  have hstart := he.rangeStart_pos
  have hoff : (pz.1.setOffset e).offset = e := Build.storage_of_lt (by omega)
  have hstop : (pz.1.setOffset e).stop = e + pz.1.size := congrArg (· + pz.1.size) hoff
  have hsum : placedBytes (sortList ((pz.1.setOffset e, pz.2) :: rest)) = pz.1.size + placedBytes rest := by
    rw [placedBytes, (hperm.map _).sum_eq, List.map_cons, List.sum_cons, hoff, if_neg (by omega), placedBytes,
      PartInfo.setOffset_size]
  constructor
  · intro p hp
    rcases List.mem_cons.mp (hperm.mem_iff.mp hp) with rfl | hp
    · exact h.whole pz List.mem_cons_self
    · exact h.whole p (List.mem_cons_of_mem pz hp)
  · rw [bytes, (hperm.map _).sum_eq]
    exact hroom
  · intro p hp hne
    rw [hsum]
    rcases List.mem_cons.mp (hperm.mem_iff.mp hp) with rfl | hp
    · rw [hoff, hstop]
      exact ⟨hal, hlo, by omega⟩
    · obtain ⟨hal', hlo', hstop'⟩ := h.placed p (List.mem_cons_of_mem pz hp) hne
      rw [placedBytes, List.map_cons, List.sum_cons, if_pos h0, Nat.zero_add] at hstop'
      exact ⟨hal', hlo', by rw [placedBytes]; omega⟩

end Packed

private theorem assignLoop_packed (he : a.Exact) (h : a.Packed list) (hfuel : unplaced list < fuel) :
    ∃ err list', a.assignLoop fuel list = some (err, list') ∧ a.Packed list' := by
  have hpacked : ∀ l, Runs.Reach a.Pass list l → a.Packed l := fun l hreach =>
    hreach.invariant h fun _ _ _ _ hl hp => hl.pass he hp
  have hplaces : ∀ l e l', Runs.Reach a.Pass list l → a.Pass l e l' → unplaced l' < unplaced l := by
    intro l e l' hreach hp
    apply (pass_unplaced hp).mpr
    obtain ⟨pz, rest, rfl, h0, hs, _⟩ := hp
    have hl := hpacked _ hreach
    obtain ⟨_, hlo, hhi⟩ := hl.search_le he h0 hs
    have hle := placedBytes_le rest
    have hroom := hl.room
    have hrange := he.range
    have hstart := he.rangeStart_pos
    rw [bytes, List.map_cons, List.sum_cons, ← bytes] at hroom
    rw [rangeEnd_eq] at hrange
    rw [Build.storage_of_lt (by omega)]
    omega
  obtain ⟨⟨err, list'⟩, hends⟩ := a.assignLoop_fueled.ends hplaces hfuel
  exact ⟨err, list', hends, hpacked list' (assignLoop_stops hends).1⟩

end Placement

/-- A range of whole alignment units may be shorter: no entry is clipped to part of a unit there. -/
theorem contains_of_whole (h : a.Exact) (htotal : a.blockAlign ∣ a.totalBlocks) (hne : table ≠ [])
    (hp : AutoPercentages table) : a.Contains table := by
  rcases sizingLoop_whole h htotal hp (Nat.zero_le _)
    (Nat.dvd_zero _) with ⟨T, sized, hl, hT, hsum, hall⟩ | ⟨T, table', hl⟩
  · have hr : a.Reaches table sized T := ⟨h.first, h.blockSize_pos.ne', hl, hT⟩
    have hpacked : a.Packed (sortList sized.zipIdx) := by
      refine ⟨fun p hp => (hall p.1 (mem_of_sortList hp)).2, ?_, fun p hp hne =>
        absurd (hall p.1 (mem_of_sortList hp)).1 hne⟩
      have hfst : (sized.zipIdx.map fun p => p.1.size) = sized.map PartInfo.size := by
        rw [← List.zipIdx_map_fst 0 sized, List.map_map, List.zipIdx_map_fst]
        rfl
      rw [bytes, ((sortList_perm _).map _).sum_eq, hfst]
      rw [Nat.zero_mul, Nat.zero_add] at hsum
      rw [hsum]
      exact Nat.mul_le_mul_right _ hT
    obtain ⟨err, list, hassign, hlist⟩ := assignLoop_packed h hpacked (unplaced_le sized)
    cases err with
    | some err =>
      refine ⟨err, inTableOrder list, ?_, fun hok => ?_⟩
      · rw [hr.validate_eq, hassign]
      · rw [assignLoop_error hassign] at hok
        cases hok
    | none =>
      have hnonzero := assignLoop_nonzero hassign
      obtain ⟨last, hlast⟩ : ∃ last, list.getLast? = some last := by
        rcases List.eq_nil_or_concat' list with rfl | ⟨front, last, rfl⟩
        · exact absurd rfl (hr.ne_nil (assignLoop_stops hassign).1 hne)
        · exact ⟨last, List.getLast?_concat⟩
      have hin := List.mem_of_getLast? hlast
      have hend := endOffset_le h.range h.first h.blockSize_pos.ne' (hnonzero last hin)
        (hlist.stop_le hin (hnonzero last hin))
      refine ⟨.success, _, hr.accepted hassign hlast hend, fun _ p hp => ?_⟩
      obtain ⟨q, hq, rfl⟩ := List.mem_map.mp ((inTableOrder_perm list).subset hp)
      exact ⟨(hlist.placed q hq (hnonzero q hq)).2.1, hlist.stop_le hq (hnonzero q hq)⟩
  · refine ⟨.noSpace, table', ?_, by simp⟩
    rw [validate, if_neg (not_or.mpr ⟨h.first, h.blockSize_pos.ne'⟩), hl]

section Short

private theorem Close.pass (hstart : a.rangeStart < b.storageSize) {n : Nat} (h : a.Close n list)
    (hp : a.Pass list e list') (he : b.storage e ≠ 0) : a.Close n list' := by
  have hless := (pass_unplaced hp).mpr he
  obtain ⟨hle, hall⟩ := h
  obtain ⟨pz, rest, rfl, h0, hs, rfl⟩ := hp
  have hbehind : b.storage e ≤ a.rangeStart + 2 * (n - unplaced (pz :: rest)) * PARTITION_ALIGN + 2 *
    PARTITION_ALIGN := by
    apply (Nat.mod_le _ _).trans
    rcases search_cases hs with rfl | ⟨p, hmem, _, rfl⟩
    · have hmin : a.minOffset = a.rangeStart := Build.storage_of_lt hstart
      omega
    · obtain ⟨hsize, hoff⟩ := hall p (List.mem_cons_of_mem pz hmem)
      have hround := (p.1.roundedEnd_atOrShort (Nat.zero_le _) (Nat.dvd_zero _)).le
      have hup : roundUp p.1.stop PARTITION_ALIGN < p.1.stop + PARTITION_ALIGN := Extents.roundUp_lt PARTITION_ALIGN_pos
      rw [PartInfo.stop] at hup hround
      omega
  generalize hlist : sortList ((pz.1.setOffset e, pz.2) :: rest) = list' at hless
  have hmul := Nat.mul_le_mul_right PARTITION_ALIGN
    (show 2 * (n - unplaced (pz :: rest)) + 2 ≤ 2 * (n - unplaced list') by omega)
  rw [Nat.add_mul] at hmul
  refine ⟨by omega, fun p hmem => ?_⟩
  rw [← hlist] at hmem
  rcases List.mem_cons.mp ((sortList_perm _).mem_iff.mp hmem) with rfl | hmem
  · exact ⟨(hall pz List.mem_cons_self).1, by rw [PartInfo.setOffset_offset]; omega⟩
  · obtain ⟨hsize, hoff⟩ := hall p (List.mem_cons_of_mem pz hmem)
    exact ⟨hsize, by omega⟩

/-- In a range of one unit at most the partitions lie close together. -/
theorem stop_le_of_short (h : a.ExactShares) (hstart : a.rangeStart < b.storageSize)
    (hshort : a.totalBlocks * a.blockSize ≤ PARTITION_ALIGN) (hp : AutoPercentages table) {table' : List (PartInfo b)}
    (hv : validate a table = some (.returned .success table')) :
    ∀ q ∈ table', q.stop ≤ a.rangeStart + (2 * table.length + 1) * PARTITION_ALIGN := by
  obtain ⟨sized, T, list, _, hr, hassign, _, _, rfl⟩ := validate_success hv
  have hsized := (sizingLoop_le h hp (Nat.zero_le _) hr.sizing).2
  have hclose : a.Close table.length list := by
    refine (assignLoop_stops hassign).1.invariant ⟨?_, fun p hmem => ?_⟩ fun l e l' hreach hl hpass => ?_
    · rw [← sizingLoop_length hr.sizing]
      exact Nat.le_of_lt_succ (unplaced_le sized)
    · obtain ⟨hoff, hsize⟩ := hsized p.1 (mem_of_sortList hmem)
      exact ⟨hsize.trans hshort, by omega⟩
    · by_cases he : b.storage e = 0
      · rwa [pass_again (reach_sorted hreach) hpass he]
      · exact hl.pass hstart hpass he
  intro q hq
  obtain ⟨p, hmem, rfl⟩ := List.mem_map.mp ((inTableOrder_perm list).subset hq)
  obtain ⟨hsize, hoff⟩ := hclose.2 p hmem
  have hmul := Nat.mul_le_mul_right PARTITION_ALIGN
    (show 2 * (table.length - unplaced list) ≤ 2 * table.length by omega)
  rw [PartInfo.stop, Nat.add_mul]
  omega

end Short

section Single

/-- All of the range in one entry. -/
def wholeRange (b : Build) : PartInfo b := PartInfo.new [] ⟨0, 0⟩ 0 100

/-- And one part in a hundred behind it. -/
def hundredth (b : Build) : PartInfo b := PartInfo.new [] ⟨0, 0⟩ 0 1

private theorem new_size {n : Nat} (hn : n ≤ 100) : (PartInfo.new (b := b) [] ⟨0, 0⟩ 0 n).size = n :=
  Build.storage_of_lt_word (Nat.lt_of_le_of_lt hn (by decide))

private theorem new_offset (n : Nat) : (PartInfo.new (b := b) [] ⟨0, 0⟩ 0 n).offset = 0 :=
  Build.storage_of_lt_word (by decide)

theorem autoPercentages_whole : AutoPercentages [wholeRange b] := by
  intro p hp
  have hsize : p.size = 100 := by
    rw [List.mem_singleton.mp hp]
    exact new_size le_rfl
  refine ⟨?_, by omega, by omega⟩
  rw [List.mem_singleton.mp hp]
  exact new_offset 100

theorem autoPercentages_whole_hundredth : AutoPercentages [wholeRange b, hundredth b] := by
  refine List.forall_mem_cons.mpr ⟨autoPercentages_whole _ List.mem_cons_self, fun p hp => ?_⟩
  have hsize : p.size = 1 := by
    rw [List.mem_singleton.mp hp]
    exact new_size (by decide)
  refine ⟨?_, by omega, by omega⟩
  rw [List.mem_singleton.mp hp]
  exact new_offset 1

private theorem le_share_whole (h : a.ExactShares) : a.totalBlocks ≤ a.share (wholeRange b).size := by
  have hdiv : a.totalBlocks * 100 / 100 = a.totalBlocks := Nat.mul_div_cancel _ (by decide)
  rw [wholeRange, new_size le_rfl, share, hdiv]
  exact Extents.le_roundUp h.align

private theorem sizeEntry_whole_range (h : a.Exact) :
    ∃ part, a.sizeEntry 0 (wholeRange b) = (none, a.totalBlocks, part) ∧ part.offset = 0 ∧
      part.size = a.totalBlocks * a.blockSize := by
  have hsize : (wholeRange b).size = 100 := new_size le_rfl
  have hshare := le_share_whole h.toExactShares
  have hroom : ¬ a.totalBlocks < 0 + min 1 (a.share (wholeRange b).size) := by
    intro hlt
    have h0 : a.totalBlocks = 0 := by omega
    rw [hsize, share, h0, Nat.zero_mul, Nat.zero_div, Extents.roundUp_of_dvd h.align (Nat.dvd_zero _)] at hlt
    exact absurd hlt (Nat.lt_irrefl 0)
  have h64 := Build.lt_u64 a.total_lt
  have hrange := h.range
  rw [rangeEnd_eq] at hrange
  refine ⟨(wholeRange b).setSize (a.totalBlocks * a.blockSize), ?_, new_offset 100, Build.storage_of_lt (by omega)⟩
  rw [sizeEntry, if_pos (by rw [hsize]), h.percentBlocks_eq (Nat.zero_le _) (by rw [hsize]), if_neg hroom, Nat.sub_zero,
    Nat.min_eq_right hshare]
  dsimp only
  rw [Nat.zero_add, u64_of_lt h64]
  exact checkOffset_of_startInRange (Or.inl (new_offset 100))

/-- One entry for all of the range gets all of it. -/
theorem validate_whole (h : a.Exact) :
    ∃ part, validate a [wholeRange b] = some (.returned .success [part]) ∧ part.stop = a.rangeEnd := by
  obtain ⟨part, he, hoff, hsize⟩ := sizeEntry_whole_range h
  have hr : a.Reaches [wholeRange b] [part] a.totalBlocks :=
    ⟨h.first, h.blockSize_pos.ne', sizingLoop_cons_none.mpr ⟨_, part, [], he, rfl, rfl⟩, le_rfl⟩
  have hplace : (part.setOffset a.rangeStart).offset = a.rangeStart :=
    Build.storage_of_lt (Nat.lt_of_le_of_lt rangeStart_le h.range)
  have h0 : (part.setOffset a.rangeStart).offset ≠ 0 := by
    rw [hplace]
    exact h.rangeStart_pos.ne'
  have hstop : (part.setOffset a.rangeStart).stop = a.rangeEnd := by
    rw [PartInfo.stop, hplace, PartInfo.setOffset_size, hsize, rangeEnd_eq]
  have hassign : a.assignLoop ([part].length + 1) (sortList [part].zipIdx) =
      some (none, [(part.setOffset a.rangeStart, 0)]) := by
    change a.assignLoop 2 [(part, 0)] = _
    rw [assignLoop, if_pos hoff, search_of_zero (List.forall_mem_nil _), minOffset_eq h.range]
    exact assignLoop_of_nonzero (List.forall_mem_singleton.mpr h0)
  refine ⟨part.setOffset a.rangeStart, ?_, hstop⟩
  exact hr.accepted hassign rfl (endOffset_le h.range h.first h.blockSize_pos.ne' h0 hstop.le)

private theorem sizeEntry_hundredth (h : a.Exact) (htotal : a.totalBlocks < 100) :
    ∃ part, a.sizeEntry a.totalBlocks (hundredth b) = (none, a.totalBlocks, part) ∧ part.offset = 0 ∧
    part.size = 0 := by
  have hone : (hundredth b).size = 1 := new_size (by decide)
  have hshare : a.share (hundredth b).size = 0 := by
    rw [hone, share, Nat.mul_one, Nat.div_eq_of_lt htotal]
    exact Extents.roundUp_of_dvd h.align (Nat.dvd_zero _)
  refine ⟨(hundredth b).setSize (0 * a.blockSize), ?_, new_offset 1, ?_⟩
  · rw [sizeEntry, if_pos (by omega), h.percentBlocks_eq le_rfl (by omega), hshare, if_neg (by omega), Nat.zero_min]
    dsimp only
    rw [Nat.add_zero, u64_of_lt (Build.lt_u64 a.total_lt)]
    exact checkOffset_of_startInRange (Or.inl (new_offset 1))
  · rw [PartInfo.setSize_size, Nat.zero_mul]
    exact Build.storage_of_lt b.storageSize_pos

private theorem rangeEnd_lt_roundUp (h : a.Exact) (htotal : ¬ a.blockAlign ∣ a.totalBlocks) :
    a.rangeEnd < roundUp a.rangeEnd PARTITION_ALIGN := by
  apply Nat.lt_of_le_of_ne (Extents.le_roundUp PARTITION_ALIGN_pos)
  intro heq
  apply htotal
  have hdvd : PARTITION_ALIGN ∣ a.rangeStart + a.totalBlocks * a.blockSize := by
    rw [← rangeEnd_eq, heq]
    exact Extents.dvd_roundUp _ _
  have hblocks := (Nat.dvd_add_right h.start).mp hdvd
  rw [← Nat.div_mul_cancel h.block] at hblocks
  exact Nat.dvd_of_mul_dvd_mul_right h.blockSize_pos hblocks

private theorem assignLoop_empty (h : a.Exact) {part empty : PartInfo b} (hoff : part.offset = 0)
    (hsize : part.size = a.totalBlocks * a.blockSize) (hoff' : empty.offset = 0) (hsize' : empty.size = 0)
    (hbehind : a.rangeEnd < e) (hlt : e < b.storageSize) (he : e = roundUp a.rangeEnd PARTITION_ALIGN) :
    a.assignLoop 3 (sortList [part, empty].zipIdx) =
      some (none, [(part.setOffset a.rangeStart, 0), (empty.setOffset e, 1)]) := by
  have hstart := h.rangeStart_pos
  have hle := rangeStart_le (a := a)
  have hplace : (part.setOffset a.rangeStart).offset = a.rangeStart := Build.storage_of_lt (by omega)
  have hplace' : (empty.setOffset e).offset = e := Build.storage_of_lt hlt
  have h0 : (part.setOffset a.rangeStart).offset ≠ 0 := by
    rw [hplace]
    exact hstart.ne'
  have hstop : (part.setOffset a.rangeStart).stop = a.rangeEnd := by
    rw [PartInfo.stop, hplace, PartInfo.setOffset_size, hsize, rangeEnd_eq]
  have hround : (part.setOffset a.rangeStart).roundedEnd = e := by
    rw [PartInfo.roundedEnd, ← PartInfo.stop, hstop, Build.storage_of_lt h.range, Build.alignUp_partition h.range,
      if_pos (by omega), he]
  have hsorted : sortList [part, empty].zipIdx = [(part, 0), (empty, 1)] :=
    List.Pairwise.insertionSort_eq (List.pairwise_pair.mpr (by rw [hoff]; exact Nat.zero_le _))
  have hfirst : sortList [(part.setOffset a.rangeStart, 0), (empty, 1)] =
    [(empty, 1), (part.setOffset a.rangeStart, 0)] :=
    sortList_of_lt (List.pairwise_singleton _ _) (List.forall_mem_singleton.mpr (by rw [hoff', hplace]; exact hstart))
  have hsecond : sortList [(empty.setOffset e, 1), (part.setOffset a.rangeStart, 0)] =
      [(part.setOffset a.rangeStart, 0), (empty.setOffset e, 1)] :=
    sortList_of_lt (List.pairwise_singleton _ _) (List.forall_mem_singleton.mpr (by rw [hplace, hplace']; omega))
  rw [hsorted, assignLoop, if_pos hoff, search_of_zero (List.forall_mem_singleton.mpr hoff'), minOffset_eq h.range]
  dsimp only
  rw [hfirst, assignLoop, if_pos hoff', hsize', search, if_neg h0, if_pos (Nat.zero_le _), hround]
  dsimp only
  rw [hsecond, assignLoop, if_neg h0]

/-- In less than 100 blocks that are not whole alignment units, that is behind the range, and the
assert fails. -/
theorem validate_whole_hundredth (h : a.Exact) (hstart : a.rangeStart = PARTITION_ALIGN) (htotal : a.totalBlocks < 100)
    (hunits : ¬ a.blockAlign ∣ a.totalBlocks) : validate a [wholeRange b, hundredth b] = some .aborted := by
  -- the range is short, so its end rounded up does not wrap
  have hroom : a.rangeEnd + PARTITION_ALIGN < b.storageSize := by
    have hmul := Nat.mul_le_mul htotal.le (Nat.le_of_dvd PARTITION_ALIGN_pos h.block)
    have hW := b.storageSize_cases
    rw [rangeEnd_eq, hstart]
    rw [PARTITION_ALIGN] at hmul ⊢
    omega
  obtain ⟨part, he, hoff, hsize⟩ := sizeEntry_whole_range h
  obtain ⟨empty, he', hoff', hsize'⟩ := sizeEntry_hundredth h htotal
  have hr : a.Reaches [wholeRange b, hundredth b] [part, empty] a.totalBlocks :=
    ⟨h.first, h.blockSize_pos.ne', sizingLoop_cons_none.mpr ⟨_, part, [empty], he,
      sizingLoop_cons_none.mpr ⟨_, empty, [], he', rfl, rfl⟩, rfl⟩, le_rfl⟩
  have hbehind := rangeEnd_lt_roundUp h hunits
  have hlt : roundUp a.rangeEnd PARTITION_ALIGN < a.rangeEnd + PARTITION_ALIGN := Extents.roundUp_lt PARTITION_ALIGN_pos
  have hassign := assignLoop_empty h hoff hsize hoff' hsize' hbehind (by omega) rfl
  generalize roundUp a.rangeEnd PARTITION_ALIGN = e at hbehind hlt hassign
  have hend : (empty.setOffset e).endOffset = e - 1 := by
    have hplace : (empty.setOffset e).offset = e := Build.storage_of_lt (by omega)
    have hsplit : e + 0 + (b.storageSize - 1) = e - 1 + b.storageSize := by omega
    rw [PartInfo.endOffset, hplace, PartInfo.setOffset_size, hsize', hsplit, Build.storage, Nat.add_mod_right,
      Nat.mod_eq_of_lt (by omega)]
  have hmax := maxOffset_eq h.range h.first h.blockSize_pos.ne'
  have hlast : [(part.setOffset a.rangeStart, 0), (empty.setOffset e, 1)].getLast? = some (empty.setOffset e, 1) := rfl
  apply hr.aborted hassign hlast
  rw [hend]
  omega

end Single

end Available

end DiskStorage
