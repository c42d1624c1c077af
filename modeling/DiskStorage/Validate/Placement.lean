import DiskStorage.Validate.Sizing

/-! From a successful validate back to its parts, and the layouts it is meant to accept. -/
namespace DiskStorage
open Extents (Apart Stacked extent)

variable {b : Build}

namespace PartInfo

/-- The first byte behind a partition. -/
def stop (part : PartInfo b) : Nat := part.offset + part.size

end PartInfo

/-- The entries in order of their offsets, those of equal offset in table order. -/
def byOffset (table : List (PartInfo b)) : List (PartInfo b) :=
  table.insertionSort fun p1 p2 => p1.offset ≤ p2.offset

theorem byOffset_perm (table : List (PartInfo b)) : (byOffset table).Perm table := List.perm_insertionSort _ _

theorem byOffset_sorted (table : List (PartInfo b)) :
    (byOffset table).Pairwise fun p1 p2 => p1.offset ≤ p2.offset := by
  have : Std.Total fun p1 p2 : PartInfo b => p1.offset ≤ p2.offset := ⟨fun p1 p2 => Nat.le_total _ _⟩
  have : IsTrans (PartInfo b) fun p1 p2 => p1.offset ≤ p2.offset := ⟨fun _ _ _ => Nat.le_trans⟩
  exact List.pairwise_insertionSort _ _

theorem sortList_perm (list : List (Ref b)) : (sortList list).Perm list := List.perm_insertionSort _ _

theorem sortList_sorted (list : List (Ref b)) : (sortList list).Pairwise fun p q => p.1.offset ≤ q.1.offset := by
  have : Std.Total fun p q : Ref b => p.1.offset ≤ q.1.offset := ⟨fun p q => Nat.le_total _ _⟩
  have : IsTrans (Ref b) fun p q => p.1.offset ≤ q.1.offset := ⟨fun _ _ _ => Nat.le_trans⟩
  exact List.pairwise_insertionSort _ _

/-- An entry with a higher offset than all others goes behind them. -/
theorem sortList_of_lt {p : Ref b} {rest : List (Ref b)} (hsorted : rest.Pairwise fun q r => q.1.offset ≤ r.1.offset)
    (hlt : ∀ q ∈ rest, q.1.offset < p.1.offset) : sortList (p :: rest) = rest ++ [p] := by
  have hcons : sortList (p :: rest) = (sortList rest).orderedInsert (fun p1 p2 => p1.1.offset ≤ p2.1.offset) p := rfl
  rw [hcons, sortList, List.Pairwise.insertionSort_eq hsorted]
  clear hcons hsorted
  induction rest with
  | nil => rfl
  | cons q rest ih =>
    obtain ⟨hq, hrest⟩ := List.forall_mem_cons.mp hlt
    rw [List.orderedInsert_cons, if_neg (Nat.not_le.mpr hq), ih hrest, List.cons_append]

/-- One without an offset stays in front of them. -/
theorem sortList_of_zero_head {p : Ref b} {rest : List (Ref b)} (h0 : p.1.offset = 0) :
    sortList (p :: rest) = p :: sortList rest := by
  have hcons : sortList (p :: rest) = (sortList rest).orderedInsert (fun p1 p2 => p1.1.offset ≤ p2.1.offset) p := rfl
  rw [hcons]
  cases sortList rest with
  | nil => rfl
  | cons q rest => rw [List.orderedInsert_cons, if_pos (by rw [h0]; exact Nat.zero_le _)]

/-- The references that are sorted are those to the entries of the table. -/
theorem mem_of_sortList {p : Ref b} {table : List (PartInfo b)} {k : Nat} (hp : p ∈ sortList (table.zipIdx k)) :
    p.1 ∈ table := by
  have hmem := List.mem_map_of_mem (f := Prod.fst) ((sortList_perm _).mem_iff.mp hp)
  rwa [List.zipIdx_map_fst] at hmem

theorem exists_mem_sortList {p : PartInfo b} {table : List (PartInfo b)} (k : Nat) (hp : p ∈ table) :
    ∃ i, (p, i) ∈ sortList (table.zipIdx k) := by
  rw [← List.zipIdx_map_fst k table] at hp
  obtain ⟨⟨_, i⟩, hmem, rfl⟩ := List.mem_map.mp hp
  exact ⟨i, (sortList_perm _).mem_iff.mpr hmem⟩

theorem inTableOrder_perm (list : List (Ref b)) : (inTableOrder list).Perm (list.map Prod.fst) :=
  (List.perm_insertionSort _ list).map Prod.fst

namespace Available
variable (a : Available b)

/-- The entries are pairwise disjoint and lie inside the available range. -/
def Sound (table : List (PartInfo b)) : Prop :=
  table.Pairwise (Apart PartInfo.offset PartInfo.stop) ∧
    ∀ p ∈ table, extent PartInfo.offset PartInfo.stop p ⊆ Set.Ico a.rangeStart a.rangeEnd

variable {a} {table table' sized : List (PartInfo b)} {list list' : List (Ref b)} {T fuel : Nat} {err : Error}

theorem Sound.perm (h : a.Sound table) (hp : table.Perm table') : a.Sound table' :=
  ⟨(hp.pairwise_iff fun h => h.symm).mp h.1, fun p hmem => h.2 p (hp.mem_iff.mpr hmem)⟩

/-- A table is sound exactly when its entries, in order of their offsets, are stacked. -/
theorem sound_iff_stacked :
    a.Sound table ↔ Stacked PartInfo.offset PartInfo.stop a.rangeStart a.rangeEnd (byOffset table) := by
  rw [Extents.stacked_iff (byOffset_sorted table)]
  exact ⟨fun h => h.perm (byOffset_perm table).symm, fun h => Sound.perm h (byOffset_perm table)⟩

theorem assignLoop_error (h : a.assignLoop fuel list = some (some err, list')) : err = .noSpace := by
  induction fuel generalizing list with
  | zero => cases h
  | succ fuel ih =>
    rcases list with _ | ⟨pz, rest⟩
    · cases h
    · rw [assignLoop] at h
      split at h
      · split at h
        · cases h
          rfl
        · exact ih h
      · cases h

/-- The offsets of a sized table are those that it has been given. -/
theorem sizingLoop_offset_mem {T T' : Nat} {table sized : List (PartInfo b)}
    (hl : a.sizingLoop T table = (none, T', sized)) {n : Nat} :
    (∃ s ∈ sized, s.offset = n) ↔ ∃ p ∈ table, p.offset = n := by
  rw [← List.mem_map, ← List.mem_map, (sizingLoop_offsets hl).1]

theorem sizingLoop_nonzero {T T' : Nat} {table sized : List (PartInfo b)} (hfixed : ∀ p ∈ table, p.offset ≠ 0)
    (hl : a.sizingLoop T table = (none, T', sized)) : ∀ p ∈ sortList sized.zipIdx, p.1.offset ≠ 0 := by
  intro p hp
  obtain ⟨q, hq, heq⟩ := (sizingLoop_offset_mem hl).mp ⟨p.1, mem_of_sortList hp, rfl⟩
  rw [← heq]
  exact hfixed q hq

theorem assignLoop_of_nonzero (h : ∀ p ∈ list, p.1.offset ≠ 0) : a.assignLoop (fuel + 1) list = some (none, list) := by
  rcases list with _ | ⟨pz, rest⟩
  · rfl
  · rw [assignLoop, if_neg (h pz List.mem_cons_self)]

/-- The call comes as far as the placement loop, with the sized table. -/
structure Reaches (a : Available b) (table sized : List (PartInfo b)) (T : Nat) : Prop where
  first : a.firstBlock ≠ 0
  block : a.blockSize ≠ 0
  sizing : a.sizingLoop 0 table = (none, T, sized)
  room : T ≤ a.totalBlocks

theorem Reaches.validate_eq (h : a.Reaches table sized T) :
    validate a table =
      match a.assignLoop (sized.length + 1) (sortList sized.zipIdx) with
      | none => none
      | some (some err, list) => some (.returned err (inTableOrder list))
      | some (none, list) =>
        match list.getLast? with
        | none => some .aborted
        | some lastPart =>
          if lastPart.1.endOffset ≤ a.maxOffset then some (.returned .success (inTableOrder list))
          else some .aborted := by
  rw [validate, if_neg (not_or.mpr ⟨h.first, h.block⟩), h.sizing]
  exact if_neg (Nat.not_lt.mpr h.room)

theorem Reaches.aborted {lastPart : Ref b} (h : a.Reaches table sized T)
    (hassign : a.assignLoop (sized.length + 1) (sortList sized.zipIdx) = some (none, list))
    (hlast : list.getLast? = some lastPart) (hend : a.maxOffset < lastPart.1.endOffset) :
    validate a table = some .aborted := by
  rw [h.validate_eq, hassign]
  dsimp only
  rw [hlast]
  exact if_neg (Nat.not_le.mpr hend)

theorem Reaches.accepted {lastPart : Ref b} (h : a.Reaches table sized T)
    (hassign : a.assignLoop (sized.length + 1) (sortList sized.zipIdx) = some (none, list))
    (hlast : list.getLast? = some lastPart) (hend : lastPart.1.endOffset ≤ a.maxOffset) :
    validate a table = some (.returned .success (inTableOrder list)) := by
  rw [h.validate_eq, hassign]
  dsimp only
  rw [hlast]
  exact if_pos hend

/-- A call that comes as far as the placement loop returns what this does, or Success. -/
theorem Reaches.returned_cases {x : Error} (hr : a.Reaches table sized T)
    (h : validate a table = some (.returned x table')) :
    ∃ err list, a.assignLoop (sized.length + 1) (sortList sized.zipIdx) = some (err, list) ∧
      table' = inTableOrder list ∧
      (err = some x ∨ err = none ∧ x = .success ∧
        ∃ lastPart, list.getLast? = some lastPart ∧ lastPart.1.endOffset ≤ a.maxOffset) := by
  rw [hr.validate_eq] at h
  rcases hl : a.assignLoop (sized.length + 1) (sortList sized.zipIdx) with _ | ⟨_ | err, list⟩
  · rw [hl] at h
    cases h
  · rw [hl] at h
    dsimp only at h
    rcases hlast : list.getLast? with _ | lastPart
    · rw [hlast] at h
      cases h
    · rw [hlast] at h
      dsimp only at h
      split at h
      · rename_i hend
        cases h
        exact ⟨none, list, rfl, rfl, Or.inr ⟨rfl, rfl, lastPart, hlast, hend⟩⟩
      · cases h
  · rw [hl] at h
    cases h
    exact ⟨some x, list, rfl, rfl, Or.inl rfl⟩

/-- A call that ends otherwise than with an error comes as far as the placement loop. -/
theorem reaches_of_validate {v : Option (Verdict b)} (h : validate a table = v)
    (hv : ∀ err table', v = some (.returned err table') → err = .success) : ∃ sized T, a.Reaches table sized T := by
  rw [validate] at h
  split at h
  · exact nomatch hv _ _ h.symm
  · rename_i hpos
    rcases hl : a.sizingLoop 0 table with ⟨_ | err, T, sized⟩
    · rw [hl] at h
      dsimp only at h
      split at h
      · exact nomatch hv _ _ h.symm
      · rename_i hroom
        exact ⟨sized, T, (not_or.mp hpos).1, (not_or.mp hpos).2, hl, Nat.le_of_not_lt hroom⟩
    · rw [hl] at h
      exact absurd (congrArg some (hv _ _ h.symm)) (sizingLoop_offsets hl).2

/-- Success means that sizing, placement and the final assert have gone through. -/
theorem validate_success (h : validate a table = some (.returned .success table')) :
    ∃ sized T list lastPart, a.Reaches table sized T ∧
      a.assignLoop (sized.length + 1) (sortList sized.zipIdx) = some (none, list) ∧
      list.getLast? = some lastPart ∧ lastPart.1.endOffset ≤ a.maxOffset ∧ table' = inTableOrder list := by
  obtain ⟨sized, T, hr⟩ := reaches_of_validate h fun _ _ heq => by cases heq; rfl
  obtain ⟨err, list, hl, hlist, rfl | ⟨rfl, _, lastPart, hlast, hend⟩⟩ := hr.returned_cases h
  · exact absurd (assignLoop_error hl) (by decide)
  · exact ⟨sized, T, list, lastPart, hr, hl, hlast, hend, hlist⟩

/-- An abort means that the placement has gone through and the final assert has not. -/
theorem validate_aborted (h : validate a table = some .aborted) :
    ∃ sized T list, a.Reaches table sized T ∧
      a.assignLoop (sized.length + 1) (sortList sized.zipIdx) = some (none, list) ∧
      ∀ lastPart, list.getLast? = some lastPart → a.maxOffset < lastPart.1.endOffset := by
  obtain ⟨sized, T, hr⟩ := reaches_of_validate h fun _ _ heq => by cases heq
  rw [hr.validate_eq] at h
  rcases hl : a.assignLoop (sized.length + 1) (sortList sized.zipIdx) with _ | ⟨_ | err, list⟩
  · rw [hl] at h
    cases h
  · refine ⟨sized, T, list, hr, hl, fun lastPart hlast => ?_⟩
    rw [hl] at h
    dsimp only at h
    rw [hlast] at h
    dsimp only at h
    split at h
    · cases h
    · exact Nat.lt_of_not_le ‹_›
  · rw [hl] at h
    cases h

end Available

end DiskStorage
