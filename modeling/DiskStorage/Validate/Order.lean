import DiskStorage.Validate.Rounds
import DiskStorage.Validate.Sequential

/-! When the partitions of an accepted table are in order of their positions. -/
namespace DiskStorage
open Runs (Reach)

variable {b : Build}

/-- A table whose partitions are ordered by position. -/
def Ordered (table : List (PartInfo b)) : Prop := table.Pairwise fun p q => p.offset ≤ q.offset

/-- So are those of its entries that have an offset. -/
def FixedOrdered (table : List (PartInfo b)) : Prop :=
  table.Pairwise fun p q => p.offset ≠ 0 → q.offset ≠ 0 → p.offset ≤ q.offset

namespace Available
variable (a : Available b)

/-- Where there is room behind an entry, its end is between the entries placed so far that stand in
front of the entry to place in the table, and those that stand behind it. -/
def KeepsOrder (pz : Ref b) (rest : List (Ref b)) : Prop :=
  ∀ v ∈ a.visits pz.1.size rest, pz.1.size ≤ a.avail v.1.1 v.2 → ∀ q ∈ rest, q.1.offset ≠ 0 →
    (q.2 < pz.2 → q.1.offset ≤ v.1.1.roundedEnd) ∧ (pz.2 < q.2 → v.1.1.roundedEnd ≤ q.1.offset)

/-- What the order of an accepted table rests on, and is not checked: the entries with offsets are in
order, and each one without finds its place between its neighbours. -/
structure LaysInOrder (table : List (PartInfo b)) : Prop where
  fixed : FixedOrdered table
  passes : ∀ sized T pz rest, a.Reaches table sized T → a.Placing sized pz rest → a.KeepsOrder pz rest

/-- Among the entries that have been placed, those in front in the table are in front on the disk. -/
def InOrder (list : List (Ref b)) : Prop :=
  ∀ p ∈ list, ∀ q ∈ list, p.1.offset ≠ 0 → q.1.offset ≠ 0 → p.2 < q.2 → p.1.offset ≤ q.1.offset

variable {a} {list list' rest : List (Ref b)} {pz : Ref b} {e fuel T : Nat} {table table' sized : List (PartInfo b)}

theorem InOrder.perm (h : InOrder list) (hp : list'.Perm list) : InOrder list' :=
  fun p hp' q hq => h p (hp.mem_iff.mp hp') q (hp.mem_iff.mp hq)

theorem inOrder_iff (h : list.Perm table.zipIdx) : InOrder list ↔ FixedOrdered table := by
  have hmem : ∀ p : Ref b, p ∈ list ↔ table[p.2]? = some p.1 := fun p =>
    h.mem_iff.trans List.mem_zipIdx_iff_getElem?
  rw [FixedOrdered, List.pairwise_iff_getElem]
  constructor
  · intro horder i j hi hj hij hp hq
    exact horder (table[i], i) ((hmem _).mpr (List.getElem?_eq_getElem hi)) (table[j], j)
      ((hmem _).mpr (List.getElem?_eq_getElem hj)) hp hq hij
  · rintro horder ⟨p, i⟩ hp ⟨q, j⟩ hq hp0 hq0 hij
    obtain ⟨hi, hp⟩ := List.getElem?_eq_some_iff.mp ((hmem _).mp hp)
    obtain ⟨hj, hq⟩ := List.getElem?_eq_some_iff.mp ((hmem _).mp hq)
    dsimp only at hp hq hp0 hq0 ⊢
    rw [← hp] at hp0 ⊢
    rw [← hq] at hq0 ⊢
    exact horder i j hi hj hij hp0 hq0

theorem inOrder_cons_of_zero (h0 : pz.1.offset = 0) : InOrder (pz :: rest) ↔ InOrder rest := by
  constructor
  · exact fun h p hp q hq => h p (List.mem_cons_of_mem pz hp) q (List.mem_cons_of_mem pz hq)
  · intro h p hp q hq hp0 hq0
    rcases List.mem_cons.mp hp with rfl | hp
    · exact absurd h0 hp0
    · rcases List.mem_cons.mp hq with rfl | hq
      · exact absurd h0 hq0
      · exact h p hp q hq hp0 hq0

theorem inOrder_cons_of_ne (h0 : pz.1.offset ≠ 0) :
    InOrder (pz :: rest) ↔ InOrder rest ∧ ∀ q ∈ rest, q.1.offset ≠ 0 →
      (q.2 < pz.2 → q.1.offset ≤ pz.1.offset) ∧ (pz.2 < q.2 → pz.1.offset ≤ q.1.offset) := by
  constructor
  · intro h
    refine ⟨fun p hp q hq => h p (List.mem_cons_of_mem pz hp) q (List.mem_cons_of_mem pz hq), fun q hq hq0 => ⟨?_, ?_⟩⟩
    · exact h q (List.mem_cons_of_mem pz hq) pz List.mem_cons_self hq0 h0
    · exact h pz List.mem_cons_self q (List.mem_cons_of_mem pz hq) h0 hq0
  · rintro ⟨h, hpz⟩ p hp q hq hp0 hq0 hlt
    rcases List.mem_cons.mp hp with rfl | hpmem
    · rcases List.mem_cons.mp hq with rfl | hqmem
      · exact le_rfl
      · exact (hpz q hqmem hq0).2 hlt
    · rcases List.mem_cons.mp hq with rfl | hqmem
      · exact (hpz p hpmem hp0).1 hlt
      · exact h p hpmem q hqmem hp0 hq0 hlt

theorem inOrder_pass (hsorted : list.Pairwise fun p q => p.1.offset ≤ q.1.offset) (hpass : a.Pass list e list')
    (hlist : list = pz :: rest) (he : b.storage e ≠ 0) : InOrder list' ↔ InOrder list ∧ a.KeepsOrder pz rest := by
  obtain ⟨_, _, heq, h0, hs, rfl⟩ := hpass
  cases hlist.symm.trans heq
  subst hlist
  have hperm := sortList_perm ((pz.1.setOffset e, pz.2) :: rest)
  have hplace : InOrder (sortList ((pz.1.setOffset e, pz.2) :: rest)) ↔ InOrder ((pz.1.setOffset e, pz.2) :: rest) :=
    ⟨fun h => h.perm hperm.symm, fun h => h.perm hperm⟩
  rw [hplace, inOrder_cons_of_ne he, inOrder_cons_of_zero h0]
  apply and_congr_right
  intro _
  dsimp only [PartInfo.setOffset_offset]
  constructor
  · intro hbetween v hv hroom
    cases (search_of_room hv hroom).symm.trans hs
    rwa [Build.storage_of_lt v.1.1.roundedEnd_lt] at hbetween
  · intro hkeeps q hq hne
    rcases search_stops (List.pairwise_cons.mp hsorted).2 hs with ⟨hz, _⟩ | ⟨v, hv, rfl, hroom⟩
    · exact absurd (hz q hq) hne
    · rw [Build.storage_of_lt v.1.1.roundedEnd_lt]
      exact hkeeps v hv hroom q hq hne

private theorem reach_cases (h : Reach a.Pass list list') (hp : a.Pass list e rest) :
    list' = list ∨ Reach a.Pass rest list' := by
  obtain ⟨tr, hrun, rfl⟩ := h
  cases hrun with
  | nil => exact Or.inl rfl
  | cons hp' ht =>
    right
    obtain ⟨pz, back, rfl, _, hs, rfl⟩ := hp
    obtain ⟨_, _, heq, _, hs', rfl⟩ := hp'
    cases heq
    cases hs.symm.trans hs'
    exact ⟨_, ht, rfl⟩

theorem inOrder_run (hsorted : list.Pairwise fun p q => p.1.offset ≤ q.1.offset)
    (h : a.assignLoop fuel list = some (none, list')) :
    InOrder list' ↔ InOrder list ∧ ∀ pz rest, Reach a.Pass list (pz :: rest) → pz.1.offset = 0 →
    a.KeepsOrder pz rest := by
  induction fuel generalizing list with
  | zero => cases h
  | succ fuel ih =>
    rcases a.assignLoop_fueled.progress list with ⟨r, hstop⟩ | ⟨e, list₁, hpass⟩
    · cases (a.assignLoop_fueled.stop list r hstop fuel).symm.trans h
      obtain rfl : list' = list := hstop.eq
      refine (and_iff_left fun pz rest hreach h0 => ?_).symm
      cases a.assignLoop_fueled.stays hstop hreach
      cases hstop with
      | placed hne => exact absurd h0 hne
    · have he : b.storage e ≠ 0 := by
        intro hzero
        obtain rfl := pass_again hsorted hpass hzero
        rw [a.assignLoop_fueled.stuck hpass] at h
        cases h
      rw [a.assignLoop_fueled.go list e list₁ hpass] at h
      obtain ⟨pz, rest, rfl, h0, _, rfl⟩ := id hpass
      rw [ih (sortList_sorted _) h, inOrder_pass hsorted hpass rfl he, and_assoc]
      apply and_congr_right
      intro _
      constructor
      · rintro ⟨hkeeps, hrest⟩ pz' rest' hreach h0'
        rcases reach_cases hreach hpass with heq | hreach
        · cases heq
          exact hkeeps
        · exact hrest pz' rest' hreach h0'
      · intro hkeeps
        exact ⟨hkeeps pz rest (Reach.refl _) h0, fun pz' rest' hreach => hkeeps pz' rest' (hreach.head hpass)⟩

/-- An accepted table is ordered by position exactly when the table and the placement lay it in order. -/
theorem ordered_iff_laysInOrder (h : validate a table = some (.returned .success table')) :
    Ordered table' ↔ a.LaysInOrder table := by
  have hne := validate_offset_ne_zero h
  obtain ⟨sized, T, list, _, hr, hassign, _, _, rfl⟩ := validate_success h
  obtain ⟨placed, _, hperm⟩ := hr.refersTo (assignLoop_stops hassign).1
  have hplaced : inTableOrder list = placed := inTableOrder_of_perm hperm
  rw [hplaced] at hne ⊢
  have hall : Ordered placed ↔ FixedOrdered placed := by
    constructor
    · exact fun hord => hord.imp fun hle _ _ => hle
    · exact fun hord => hord.imp_of_mem fun hp hq hle => hle (hne _ hp) (hne _ hq)
  have hfixed : FixedOrdered sized ↔ FixedOrdered table := by
    have hoffsets := (sizingLoop_offsets hr.sizing).1
    have hmap : ∀ l : List (PartInfo b), FixedOrdered l ↔
        (l.map PartInfo.offset).Pairwise fun m n => m ≠ 0 → n ≠ 0 → m ≤ n := by
      intro l
      rw [FixedOrdered, List.pairwise_map]
    rw [hmap, hmap, hoffsets]
  rw [hall, ← inOrder_iff hperm, inOrder_run (sortList_sorted _) hassign, inOrder_iff (sortList_perm _), hfixed]
  constructor
  · rintro ⟨hord, hpasses⟩
    refine ⟨hord, fun sized' T' pz rest hr' hp => ?_⟩
    obtain ⟨hreach, h0⟩ := hp
    rw [hr.unique hr'] at hreach
    exact hpasses pz rest hreach h0
  · intro hlays
    exact ⟨hlays.fixed, fun pz rest hreach h0 => hlays.passes sized T pz rest hr ⟨hreach, h0⟩⟩

section Inputs
variable {part : PartInfo b} {back : List (PartInfo b)}

/-- Where all entries have offsets, the table itself has to be in order. -/
theorem laysInOrder_iff_of_fixed (hfixed : ∀ p ∈ table, p.offset ≠ 0) : a.LaysInOrder table ↔ Ordered table := by
  have hordered : FixedOrdered table ↔ Ordered table := by
    constructor
    · exact fun h => h.imp_of_mem fun hp hq hle => hle (hfixed _ hp) (hfixed _ hq)
    · exact fun h => h.imp fun hle _ _ => hle
  rw [← hordered]
  refine ⟨LaysInOrder.fixed, fun h => ⟨h, fun sized T pz rest hr ⟨hreach, h0⟩ => ?_⟩⟩
  have hnone := sizingLoop_nonzero hfixed hr.sizing
  obtain ⟨tr, hrun, hend⟩ := hreach
  cases hrun with
  | nil =>
    have hlist : sortList sized.zipIdx = pz :: rest := hend
    refine absurd h0 (hnone pz ?_)
    rw [hlist]
    exact List.mem_cons_self
  | cons hp _ =>
    obtain ⟨pz', rest', hlist, h0', _⟩ := hp
    refine absurd h0' (hnone pz' ?_)
    rw [hlist]
    exact List.mem_cons_self

/-- Percentages, with offsets from which the whole range could follow without a wrap. -/
structure Unwrapped (a : Available b) (table : List (PartInfo b)) : Prop where
  sizes : ∀ p ∈ table, p.size ≤ 100 ∧ 0 < a.share p.size
  ends : ∀ p ∈ table, p.offset + a.totalBlocks * a.blockSize + PARTITION_ALIGN ≤ b.storageSize

private theorem roundedEnd_behind (h : a.Exact) (htable : a.Unwrapped table)
    (hl : a.sizingLoop 0 table = (none, T, sized)) : ∀ s ∈ sized, s.offset < s.roundedEnd := by
  refine (sizingLoop_rule (I := fun T => T ≤ a.totalBlocks) (P := fun p => p ∈ table) ?_ (Nat.zero_le _)
    (fun p hp => hp) hl).2
  intro T T' p p' hT hp he
  obtain ⟨hsize, hshare⟩ := htable.sizes p hp
  obtain ⟨_, ⟨_, blocks, hblocks, rfl, rfl⟩ | ⟨hbig, _⟩⟩ := sizeEntry_none he
  · have hsome : 0 < blocks ∧ blocks ≤ a.totalBlocks - T := by
      rw [h.percentBlocks_eq hT hsize] at hblocks
      split at hblocks
      · cases hblocks
      · cases hblocks
        omega
    have hpos : 0 < blocks * a.blockSize := Nat.mul_pos hsome.1 h.blockSize_pos
    have hle : blocks * a.blockSize ≤ a.totalBlocks * a.blockSize := Nat.mul_le_mul_right _ (by omega)
    have hend := htable.ends p hp
    have halign := PARTITION_ALIGN_pos
    have h64 := Build.lt_u64 a.total_lt
    have hstop : (p.setSize (blocks * a.blockSize)).stop = p.offset + blocks * a.blockSize := by
      rw [PartInfo.stop, PartInfo.setSize_offset, PartInfo.setSize_size, Build.storage_of_lt (by omega)]
    have hround := Extents.roundUp_lt (m := p.offset + blocks * a.blockSize) halign
    have hbehind := Extents.le_roundUp (m := p.offset + blocks * a.blockSize) halign
    refine ⟨?_, ?_⟩
    · rw [u64_of_lt (by omega)]
      omega
    · rw [PartInfo.setSize_offset, PartInfo.roundedEnd_of_lt (by rw [hstop]; omega), hstop]
      omega
  · exact absurd hsize (Nat.not_le.mpr hbig)

/-- Where the first of a table of percentages has no offset, the others must not have any: then they follow
one another, but else the first one comes to lie behind one of those with offsets. -/
theorem laysInOrder_iff_of_percentages (h : a.Exact) (htable : a.Unwrapped (part :: back)) (h0 : part.offset = 0)
    (hv : validate a (part :: back) = some (.returned .success table')) :
    a.LaysInOrder (part :: back) ↔ ∀ p ∈ back, p.offset = 0 := by
  constructor
  · intro hlays
    obtain ⟨sized, T, list, _, hr, hassign, _, _, rfl⟩ := validate_success hv
    have hbehind := roundedEnd_behind h htable hr.sizing
    obtain ⟨T₁, part', rest', he, hrest, rfl⟩ := sizingLoop_cons_none.mp hr.sizing
    have h0' : part'.offset = 0 := (sizeEntry_offset he).1.trans h0
    have hsort : sortList ((part' :: rest').zipIdx) = (part', 0) :: sortList (rest'.zipIdx 1) :=
      sortList_of_zero_head h0'
    rw [hsort, List.length_cons, assignLoop, if_pos h0'] at hassign
    cases hs : a.search part'.size a.minOffset (sortList (rest'.zipIdx 1)) with
    | none =>
      rw [hs] at hassign
      cases hassign
    | some e =>
      have hkeeps := hlays.passes _ T (part', 0) (sortList (rest'.zipIdx 1)) hr
        ⟨by rw [hsort]; exact Reach.refl _, h0'⟩
      rcases search_stops (sortList_sorted _) hs with ⟨hzero, _⟩ | ⟨⟨pr, next⟩, hvisit, _, hroom⟩
      · intro p hp
        obtain ⟨s, hs, heq⟩ := (sizingLoop_offset_mem hrest).mpr ⟨p, hp, rfl⟩
        obtain ⟨i, hmem⟩ := exists_mem_sortList 1 hs
        exact heq.symm.trans (hzero _ hmem)
      · -- the space found is behind an entry that comes later in the table
        obtain ⟨hmem, hne, _⟩ := visits_mem hvisit
        have hindex : 1 ≤ pr.2 := List.le_snd_of_mem_zipIdx ((sortList_perm _).mem_iff.mp hmem)
        have hle : pr.1.roundedEnd ≤ pr.1.offset := (hkeeps (pr, next) hvisit hroom pr hmem hne).2 hindex
        have hlt := hbehind pr.1 (List.mem_cons_of_mem _ (mem_of_sortList hmem))
        omega
  · intro hzero
    have hp : a.Percentages (part :: back) := List.forall_mem_cons.mpr
      ⟨⟨h0, htable.sizes part List.mem_cons_self⟩, fun p hmem =>
        ⟨hzero p hmem, htable.sizes p (List.mem_cons_of_mem _ hmem)⟩⟩
    obtain ⟨hfit, hnot⟩ := validate_percentages h hp (List.cons_ne_nil _ _)
    by_cases hfits : a.Fits 0 (part :: back)
    · rw [← ordered_iff_laysInOrder hv]
      cases hv.symm.trans (hfit hfits)
      have htrans : IsTrans (PartInfo b) fun p q => p.offset ≤ q.offset := ⟨fun p q r => Nat.le_trans⟩
      refine ((inSequence_placeFrom h hfits).next.imp fun p q heq => ?_).pairwise
      rw [heq]
      exact Nat.le_add_right _ _
    · obtain ⟨_, hv'⟩ := hnot hfits
      rw [hv] at hv'
      cases hv'

end Inputs

end Available

end DiskStorage
