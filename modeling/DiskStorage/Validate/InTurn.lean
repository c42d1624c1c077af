import DiskStorage.Validate.Rounds
import DiskStorage.Validate.Sequential

/-! Percentage tables in ranges that `storage_size_t` cannot address to their end: which entries are
laid out in sequence all the same, and where the others may come to lie. -/
namespace DiskStorage
open Extents (AtOrShort roundUp)
open Runs (Reach)

variable {b : Build}

namespace Available
variable (a : Available b)

/-- The byte at which an entry behind these is to start. -/
def startBehind (front : List (PartInfo b)) : Nat := a.rangeStart + a.shares front * a.blockSize

/-- The bytes that it is to have. -/
def bytesBehind (front : List (PartInfo b)) (part : PartInfo b) : Nat :=
  min (a.share part.size) (a.totalBlocks - a.shares front) * a.blockSize

/-- An entry of a list of the placement loop is one of these that has been placed, where it is to start
or in front of that by the gap at least. -/
def PlacedFrom (gap : Nat) (front : List (PartInfo b)) (p : Ref b) : Prop :=
  p.1.offset ≠ 0 ∧ ∃ before part behind, front = before ++ part :: behind ∧
    p.1.size = b.storage (a.bytesBehind before part) ∧ AtOrShort gap (a.startBehind before) p.1.offset

/-- The lists of the placement loop for a percentage table: those to place in table order, and behind
them those that have been placed. -/
def TakesTurns (gap : Nat) (table : List (PartInfo b)) (list : List (Ref b)) : Prop :=
  ∃ front rest placed, table = front ++ rest ∧
    list = (a.resizeFrom (a.shares front) rest).zipIdx front.length ++ placed ∧ ∀ p ∈ placed, a.PlacedFrom gap front p

variable {a} {table table' sized front rest before behind : List (PartInfo b)} {part : PartInfo b}
  {list list' placed : List (Ref b)} {p : Ref b} {gap e T : Nat}

section Positions

theorem Reaches.resizeFrom (h : a.ExactShares) (hp : a.Percentages table) (hr : a.Reaches table sized T) :
    a.Fits 0 table ∧ sized = a.resizeFrom 0 table := by
  obtain ⟨hfit, hnot⟩ := sizingLoop_percentages 0 h hp
  rw [Nat.zero_min] at hfit hnot
  by_cases hfits : a.Fits 0 table
  · cases hr.sizing.symm.trans (hfit hfits)
    exact ⟨hfits, rfl⟩
  · obtain ⟨T', table', hl⟩ := hnot hfits
    cases hr.sizing.symm.trans hl

theorem fits_room (hfits : a.Fits 0 (front ++ part :: rest)) : a.shares front < a.totalBlocks := by
  have := (fits_append.mp hfits).2.1
  rwa [Nat.zero_add] at this

theorem startBehind_nil : a.startBehind [] = a.rangeStart := Nat.add_zero a.rangeStart ▸ congrArg _ (Nat.zero_mul _)

theorem behind_le (part : PartInfo b) (hroom : a.shares front < a.totalBlocks) :
    a.startBehind front + a.bytesBehind front part ≤ a.rangeEnd := by
  have hmul : a.bytesBehind front part ≤ (a.totalBlocks - a.shares front) * a.blockSize :=
    Nat.mul_le_mul_right _ (Nat.min_le_right _ _)
  have hle : a.shares front * a.blockSize ≤ a.totalBlocks * a.blockSize := Nat.mul_le_mul_right _ hroom.le
  rw [Nat.sub_mul] at hmul
  rw [startBehind, rangeEnd_eq]
  omega

theorem startBehind_concat (hroom : a.shares (front ++ [part]) ≤ a.totalBlocks) :
    a.startBehind (front ++ [part]) = a.startBehind front + a.bytesBehind front part := by
  have hone : a.shares [part] = a.share part.size := Nat.add_zero _
  rw [shares_append, hone] at hroom
  rw [startBehind, startBehind, bytesBehind, shares_append, hone, Nat.min_eq_left (by omega), Nat.add_mul,
    Nat.add_assoc]

private theorem atOrShort_startBehind (hgap : ∀ p ∈ behind, gap ≤ a.share p.size * a.blockSize)
    (before : List (PartInfo b)) : AtOrShort gap (a.startBehind (before ++ behind)) (a.startBehind before) := by
  rcases behind with _ | ⟨next, behind⟩
  · rw [List.append_nil]
    exact Or.inl rfl
  · right
    have hnext := hgap next List.mem_cons_self
    rw [startBehind, startBehind, shares_append, shares_cons, Nat.add_mul, Nat.add_mul]
    omega

end Positions

section Passes

private theorem sortList_append_zeros {zeros : List (Ref b)} (hz : ∀ q ∈ zeros, q.1.offset = 0)
    (hsorted : (zeros ++ placed).Pairwise fun p q => p.1.offset ≤ q.1.offset) (h0 : p.1.offset ≠ 0) :
    sortList (p :: (zeros ++ placed)) = zeros ++ sortList (p :: placed) := by
  have hcons : ∀ l : List (Ref b), l.Pairwise (fun p q => p.1.offset ≤ q.1.offset) →
      sortList (p :: l) = l.orderedInsert (fun p1 p2 => p1.1.offset ≤ p2.1.offset) p := fun l hl =>
    congrArg (List.orderedInsert _ p) (List.Pairwise.insertionSort_eq hl)
  rw [hcons _ hsorted, hcons _ (List.pairwise_append.mp hsorted).2.1]
  clear hcons hsorted
  induction zeros with
  | nil => rfl
  | cons q zeros ih =>
    obtain ⟨hq, hrest⟩ := List.forall_mem_cons.mp hz
    rw [List.cons_append, List.orderedInsert_cons, if_neg (by omega), ih hrest, List.cons_append]

variable (h : a.Aligned) (hp : a.Percentages table) (hfits : a.Fits 0 table) (hdvd : PARTITION_ALIGN ∣ gap)
  (hwrap : gap ≤ b.storageSize) (hgap : ∀ p ∈ table, gap ≤ a.share p.size * a.blockSize)
include h hfits hdvd hwrap hgap

private theorem atOrShort_roundedEnd (htable : table = front ++ part :: rest) (hplaced : a.PlacedFrom gap front p) :
    AtOrShort gap (a.startBehind front) p.1.roundedEnd := by
  have hroom : a.shares front < a.totalBlocks := fits_room (htable ▸ hfits)
  obtain ⟨_, before, q, behind, hfront, hsize, hstart⟩ := hplaced
  rw [List.append_cons] at hfront
  have hnext : AtOrShort gap (a.startBehind front) (a.startBehind (before ++ [q])) := by
    rw [hfront]
    refine atOrShort_startBehind (fun r hr => hgap r ?_) _
    rw [htable, hfront]
    exact List.mem_append_left _ (List.mem_append_right _ hr)
  rw [hfront, shares_append] at hroom
  have hbytes : AtOrShort gap (a.bytesBehind before q) p.1.size := by
    rw [hsize]
    exact Extents.atOrShort_mod hwrap
  have hstop : AtOrShort gap (a.startBehind (before ++ [q])) p.1.stop := by
    rw [startBehind_concat (by omega)]
    exact hstart.add hbytes
  have hboundary : PARTITION_ALIGN ∣ a.startBehind (before ++ [q]) := h.boundary (shares_dvd _)
  exact (hnext.trans (hstop.roundUp PARTITION_ALIGN_pos hboundary hdvd)).trans (p.1.roundedEnd_atOrShort hwrap hdvd)

include hp in
private theorem TakesTurns.pass (hsorted : list.Pairwise fun p q => p.1.offset ≤ q.1.offset)
    (hturns : a.TakesTurns gap table list) (hpass : a.Pass list e list') (he : b.storage e ≠ 0) :
    a.TakesTurns gap table list' := by
  obtain ⟨pz, tail, rfl, h0, hs, rfl⟩ := hpass
  obtain ⟨front, rest, placed, htable, hlist, hplaced⟩ := hturns
  rcases rest with _ | ⟨part, rest⟩
  · -- the list has nothing but placed entries
    have hmem : pz ∈ placed := by
      have : pz :: tail = placed := hlist
      rw [← this]
      exact List.mem_cons_self
    exact absurd h0 (hplaced pz hmem).1
  · obtain ⟨rfl, rfl⟩ := List.cons.inj hlist
    have hz : ∀ q ∈ (a.resizeFrom (a.shares front + a.share part.size) rest).zipIdx (front.length + 1),
      q.1.offset = 0 :=
      resizeFrom_offset _ _ fun q hq => hp q
        (by rw [htable]; exact List.mem_append_right _ (List.mem_cons_of_mem part hq))
    have hstart : AtOrShort gap (a.startBehind front) (b.storage e) := by
      rcases search_cases hs with rfl | ⟨q, hq, hne, rfl⟩
      · rw [h.minOffset_eq, Build.storage_of_lt h.start_lt, ← startBehind_nil]
        exact atOrShort_startBehind (fun q hq => hgap q (by rw [htable]; exact List.mem_append_left _ hq)) []
      · rw [Build.storage_of_lt q.1.roundedEnd_lt]
        rcases List.mem_append.mp hq with hq | hq
        · exact absurd (hz q hq) hne
        · exact atOrShort_roundedEnd h hfits hdvd hwrap hgap htable (hplaced q hq)
    refine ⟨front ++ [part], rest,
      sortList (((a.resize (a.shares front) part).setOffset e, front.length) :: placed), ?_, ?_, ?_⟩
    · rw [htable, List.append_cons]
    · have hsort := sortList_append_zeros (p := ((a.resize (a.shares front) part).setOffset e, front.length)) hz
        (List.pairwise_cons.mp hsorted).2 he
      apply hsort.trans
      rw [shares_append, List.length_append]
      rfl
    · intro q hq
      rcases List.mem_cons.mp ((sortList_perm _).mem_iff.mp hq) with rfl | hq
      · exact ⟨he, front, part, [], rfl, rfl, hstart⟩
      · obtain ⟨hne, before, r, behind, rfl, hsize, hr⟩ := hplaced q hq
        exact ⟨hne, before, r, behind ++ [part], by rw [List.append_assoc, List.cons_append], hsize, hr⟩

include hp in
theorem placed_in_turn (hv : validate a table = some (.returned .success table')) :
    ∀ q ∈ table', ∃ before part behind, table = before ++ part :: behind ∧
      q.size = b.storage (a.bytesBehind before part) ∧ AtOrShort gap (a.startBehind before) q.offset := by
  obtain ⟨sized, T, list, _, hr, hassign, _, _, rfl⟩ := validate_success hv
  obtain ⟨_, rfl⟩ := hr.resizeFrom h.toExactShares hp
  have hturns : a.TakesTurns gap table list := by
    refine (assignLoop_stops hassign).1.invariant
      ⟨[], table, [], rfl, ?_, List.forall_mem_nil _⟩ fun l e l' hreach hl hpass => ?_
    · exact sortList_resizeFrom hp
    · by_cases he : b.storage e = 0
      · rwa [pass_again (reach_sorted hreach) hpass he]
      · exact hl.pass h hp hfits hdvd hwrap hgap (reach_sorted hreach) hpass he
  have hnonzero := assignLoop_nonzero hassign
  obtain ⟨front, rest, placed, htable, rfl, hplaced⟩ := hturns
  rcases rest with _ | ⟨part, rest⟩
  · rw [List.append_nil] at htable
    subst htable
    intro q hq
    obtain ⟨r, hr, rfl⟩ := List.mem_map.mp ((inTableOrder_perm _).subset hq)
    exact (hplaced r hr).2
  · -- the next one would still have no offset
    have hpart : part ∈ table := by
      rw [htable]
      exact List.mem_append_right _ List.mem_cons_self
    exact absurd (hp part hpart).1 (hnonzero (a.resize (a.shares front) part, front.length) List.mem_cons_self)

end Passes

section Prefix
variable (h : a.Aligned) (hp : a.Percentages table) (hfits : a.Fits 0 table)
include h hp hfits

private theorem pass_behind (htable : table = front ++ part :: rest) (hstart : a.startBehind front < b.storageSize)
    (hbytes : a.bytesBehind front part < b.storageSize) :
    a.Pass (a.rotated front (part :: rest)) (a.startBehind front) (a.rotated (front ++ [part]) rest) := by
  rw [htable] at hp hfits
  have hroom := fits_room hfits
  have hshare := (hp part (List.mem_append_right _ List.mem_cons_self)).2.2
  have hsize : (a.resize (a.shares front) part).size = a.bytesBehind front part := Build.storage_of_lt hbytes
  apply pass_rotated h hp hroom hstart
  rw [hsize]
  exact Nat.mul_pos (by omega) h.blockSize_pos

private theorem reach_rotated (htable : table = front ++ part :: rest) (hstart : a.startBehind front < b.storageSize)
    (hbytes : a.bytesBehind front part < b.storageSize) :
    Reach a.Pass (a.rotated [] table) (a.rotated (front ++ [part]) rest) := by
  induction front using List.reverseRecOn generalizing part rest with
  | nil =>
    have hpass := pass_behind h hp hfits htable hstart hbytes
    rw [List.nil_append] at htable
    rw [← htable] at hpass
    exact (Reach.refl _).tail hpass
  | append_singleton front q ih =>
    have hpass := pass_behind h hp hfits htable hstart hbytes
    have hroom : a.shares (front ++ [q]) ≤ a.totalBlocks := (fits_room (htable ▸ hfits)).le
    rw [startBehind_concat hroom] at hstart
    refine (ih ?_ (by omega) (by omega)).tail hpass
    rw [htable, List.append_assoc, List.singleton_append]

theorem placed_behind (hv : validate a table = some (.returned .success table'))
    (htable : table = front ++ part :: rest)
    (hstart : a.startBehind front < b.storageSize) (hbytes : a.bytesBehind front part < b.storageSize) :
    a.place (a.shares front) part ∈ table' := by
  obtain ⟨sized, T, list, _, hr, hassign, _, _, rfl⟩ := validate_success hv
  obtain ⟨_, rfl⟩ := hr.resizeFrom h.toExactShares hp
  have hreach := reach_rotated h hp hfits htable hstart hbytes
  rw [← sortList_resizeFrom hp] at hreach
  have hmem : (a.place (a.shares front) part, front.length) ∈ a.rotated (front ++ [part]) rest := by
    apply List.mem_append_right _
    rw [placeFrom_append, List.zipIdx_append, length_placeFrom, Nat.zero_add, Nat.zero_add]
    exact List.mem_append_right _ List.mem_cons_self
  have h0 : (a.place (a.shares front) part).offset ≠ 0 := by
    have := h.rangeStart_pos
    rw [place_offset hstart]
    omega
  exact (inTableOrder_perm list).mem_iff.mpr
    (List.mem_map_of_mem (reach_keeps (assignLoop_reaches hreach hassign) hmem h0))

end Prefix

/-- All partitions of an accepted table end by a limit that is not further from the end of the range than
the gap, exactly when those do whose starts and sizes can be represented. -/
theorem ends_by_iff (h : a.Aligned) (hp : a.Percentages table) (hdvd : PARTITION_ALIGN ∣ gap)
    (hwrap : gap < b.storageSize)
    (hgap : ∀ p ∈ table, gap ≤ a.share p.size * a.blockSize) {lim : Nat} (hlim : a.rangeEnd ≤ lim + gap)
    (hv : validate a table = some (.returned .success table')) :
    (∀ q ∈ table', q.offset < lim ∧ q.stop ≤ lim) ↔
      ∀ front part rest, table = front ++ part :: rest → a.startBehind front < b.storageSize →
        a.bytesBehind front part < b.storageSize → a.startBehind front + a.bytesBehind front part ≤ lim := by
  have hfits : a.Fits 0 table := by
    obtain ⟨sized, T, _, _, hr, _⟩ := validate_success hv
    exact (hr.resizeFrom h.toExactShares hp).1
  constructor
  · intro hends front part rest htable hstart hbytes
    have hend := (hends _ (placed_behind h hp hfits hv htable hstart hbytes)).2
    rw [PartInfo.stop, place_offset hstart, place_size hbytes] at hend
    exact hend
  · intro hbound q hq
    obtain ⟨front, part, rest, htable, hsize, hoffset⟩ := placed_in_turn h hp hfits hdvd hwrap.le hgap hv q hq
    have hroom := fits_room (htable ▸ hfits)
    have hpos : 0 < a.bytesBehind front part := by
      have hshare := (hp part (by rw [htable]; exact List.mem_append_right _ List.mem_cons_self)).2.2
      exact Nat.mul_pos (by omega) h.blockSize_pos
    have hend := behind_le part hroom
    rcases hoffset with hoffset | hshort
    · rcases Nat.lt_or_ge (a.bytesBehind front part) b.storageSize with hlt | hge
      · have hstart : a.startBehind front < b.storageSize := hoffset ▸ q.offset_lt
        have := hbound front part rest htable hstart hlt
        rw [Build.storage_of_lt hlt] at hsize
        rw [PartInfo.stop, hoffset, hsize]
        omega
      · -- a size that wraps is short by more than the gap
        have hwraps : AtOrShort b.storageSize (a.bytesBehind front part) (b.storage (a.bytesBehind front part)) :=
          Extents.atOrShort_mod le_rfl
        have hlt := q.size_lt
        rw [← hsize] at hwraps
        rw [PartInfo.stop]
        rcases hwraps with heq | hshort <;> omega
    · have hle : q.size ≤ a.bytesBehind front part := hsize.trans_le (Nat.mod_le _ _)
      rw [PartInfo.stop]
      omega

end Available

end DiskStorage
