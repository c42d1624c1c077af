import DiskStorage.Validate.Placement
import DiskStorage.Lib.Runs

/-! The placement loop as a run of passes, around fixed entries that are sound. -/
namespace DiskStorage
open Extents (Apart Stacked extent roundUp)
open Runs (Reach Run)

variable {b : Build}

theorem PartInfo.roundedEnd_lt (p : PartInfo b) : p.roundedEnd < b.storageSize :=
  Nat.lt_of_le_of_lt (Nat.sub_le _ _) (b.storage_lt _)

theorem PartInfo.roundedEnd_aligned (p : PartInfo b) : PARTITION_ALIGN ∣ p.roundedEnd := by
  rw [PartInfo.roundedEnd, Build.alignUp_partition (b.storage_lt _)]
  split
  · exact Extents.dvd_roundUp _ _
  · exact Nat.dvd_zero _

theorem PartInfo.roundedEnd_of_lt {p : PartInfo b} (h : roundUp p.stop PARTITION_ALIGN < b.storageSize) :
    p.roundedEnd = roundUp p.stop PARTITION_ALIGN := by
  have hstop := Nat.lt_of_le_of_lt (Extents.le_roundUp PARTITION_ALIGN_pos) h
  rw [PartInfo.roundedEnd, ← PartInfo.stop, Build.storage_of_lt hstop, Build.alignUp_partition hstop]
  exact if_pos h

namespace Available
variable (a : Available b)

/-- A pass of the loop that goes on: the first entry of the list gets the offset. -/
def Pass (list : List (Ref b)) (endOffset : Nat) (list' : List (Ref b)) : Prop :=
  ∃ pz rest, list = pz :: rest ∧ pz.1.offset = 0 ∧ a.search pz.1.size a.minOffset rest = some endOffset ∧
    list' = sortList ((pz.1.setOffset endOffset, pz.2) :: rest)

/-- The loop is left where an entry with an offset comes first, or given up where the search finds nothing. -/
inductive Stops : List (Ref b) → Option Error × List (Ref b) → Prop where
  | nil : Stops [] (none, [])
  | placed {pz : Ref b} {rest : List (Ref b)} : pz.1.offset ≠ 0 → Stops (pz :: rest) (none, pz :: rest)
  | noSpace {pz : Ref b} {rest : List (Ref b)} :
    pz.1.offset = 0 → a.search pz.1.size a.minOffset rest = none → Stops (pz :: rest) (some .noSpace, pz :: rest)

/-- The placed entries that the search comes to, each with the entry behind it. -/
def visits (size : Nat) : List (Ref b) → List (Ref b × Option (Ref b))
  | [] => []
  | pr :: rest =>
    if pr.1.offset = 0 then visits size rest
    else (pr, rest.head?) :: if a.avail pr.1 rest.head? ≥ size then [] else visits size rest

/-- Where the space behind an entry ends. -/
def limit : Option (Ref b) → Nat
  | some next => next.1.offset
  | none => a.rangeEnd

/-- The entries with offsets are aligned, inside the range and pairwise disjoint. -/
structure FixedSound (sized : List (PartInfo b)) : Prop where
  aligned : ∀ p ∈ sized, p.offset ≠ 0 → PARTITION_ALIGN ∣ p.offset
  inside : ∀ p ∈ sized, p.offset ≠ 0 → a.rangeStart ≤ p.offset ∧ p.stop ≤ a.rangeEnd
  apart : sized.Pairwise fun p q => p.offset ≠ 0 → q.offset ≠ 0 → Apart PartInfo.offset PartInfo.stop p q

/-- What the placement relies on before a pass, and does not check. -/
structure CanPlace (pz : Ref b) (rest : List (Ref b)) : Prop where
  /-- With nothing placed yet, the entry is not larger than the range. -/
  first : (∀ p ∈ rest, p.1.offset = 0) → pz.1.size ≤ a.rangeEnd - a.rangeStart
  /-- The search does not come from an entry to an empty one that starts inside it. -/
  empty : ∀ pr next, (pr, some next) ∈ a.visits pz.1.size rest → next.1.offset < pr.1.stop → 0 < next.1.size
  /-- If the search comes to the last entry, this ends by the last alignment boundary of the range. -/
  tail : ∀ pr, (pr, none) ∈ a.visits pz.1.size rest → roundUp pr.1.stop PARTITION_ALIGN ≤ a.rangeEnd

/-- The states of the placement loop, from the table that the sizing loop leaves. -/
def Placing (sized : List (PartInfo b)) (pz : Ref b) (rest : List (Ref b)) : Prop :=
  Reach a.Pass (sortList sized.zipIdx) (pz :: rest) ∧ pz.1.offset = 0

/-- What the placement is to guarantee: the available space is never a wrapped difference,
an accepted table is sound, and the final assert does not fail. -/
structure PlacesSafely (table : List (PartInfo b)) : Prop where
  exact : ∀ sized T pz rest, a.Reaches table sized T → a.Placing sized pz rest →
    ∀ v ∈ a.visits pz.1.size rest,
      (a.avail v.1.1 v.2 : Int) = (a.limit v.2 : Int) - (roundUp v.1.1.stop PARTITION_ALIGN : Nat)
  sound : ∀ table', validate a table = some (.returned .success table') → a.Sound table'
  assertion : validate a table ≠ some .aborted

/-- The invariant of the loop: the list is in order, and its placed entries are sound. -/
structure Laid (list : List (Ref b)) : Prop where
  sorted : list.Pairwise fun p q => p.1.offset ≤ q.1.offset
  fixed : a.FixedSound (list.map Prod.fst)

variable {a} {list list' rest : List (Ref b)} {pz pr next : Ref b} {next? : Option (Ref b)} {size e e₀ T : Nat}
  {table table' sized : List (PartInfo b)}

theorem FixedSound.perm {sized' : List (PartInfo b)} (h : a.FixedSound sized) (hp : sized.Perm sized') :
    a.FixedSound sized' where
  aligned := fun p hmem => h.aligned p (hp.mem_iff.mpr hmem)
  inside := fun p hmem => h.inside p (hp.mem_iff.mpr hmem)
  apart := (hp.pairwise_iff fun hpq hq hp => (hpq hp hq).symm).mp h.apart

variable (a) in
/-- The placement loop makes passes until it stops. -/
theorem assignLoop_fueled : Runs.Fueled a.Pass a.Stops a.assignLoop where
  zero := fun _ => rfl
  stop := by
    intro list r hstop fuel
    cases hstop with
    | nil => rfl
    | placed h0 => rw [assignLoop, if_neg h0]
    | noSpace h0 hnone => rw [assignLoop, if_pos h0, hnone]
  go := by
    rintro list e list' ⟨pz, rest, rfl, h0, hs, rfl⟩ fuel
    rw [assignLoop, if_pos h0, hs]
  progress := by
    intro list
    rcases list with _ | ⟨pz, rest⟩
    · exact Or.inl ⟨_, .nil⟩
    · by_cases h0 : pz.1.offset = 0
      · cases hs : a.search pz.1.size a.minOffset rest with
        | none => exact Or.inl ⟨_, .noSpace h0 hs⟩
        | some e => exact Or.inr ⟨e, _, pz, rest, rfl, h0, hs, rfl⟩
      · exact Or.inl ⟨_, .placed h0⟩

theorem Stops.eq {r : Option Error × List (Ref b)} (h : a.Stops list r) : r.2 = list := by
  cases h
  all_goals rfl

/-- What the loop returns is the list that its passes lead to, and there it stops. -/
theorem assignLoop_stops {fuel : Nat} {err : Option Error} (h : a.assignLoop fuel list = some (err, list')) :
    Reach a.Pass list list' ∧ a.Stops list' (err, list') := by
  obtain ⟨list₁, hreach, hstop⟩ := a.assignLoop_fueled.reach h
  obtain rfl : list' = list₁ := hstop.eq
  exact ⟨hreach, hstop⟩

theorem reach_sorted (h : Reach a.Pass (sortList list) list') : list'.Pairwise fun p q => p.1.offset ≤ q.1.offset := by
  refine h.invariant (I := fun l : List (Ref b) => l.Pairwise fun p q => p.1.offset ≤ q.1.offset)
    (sortList_sorted list) fun l e l' _ _ hp => ?_
  obtain ⟨_, _, _, _, _, rfl⟩ := hp
  exact sortList_sorted _

theorem reach_length (h : Reach a.Pass list list') : list'.length = list.length := by
  refine h.invariant (I := fun l => l.length = list.length) rfl fun l e l' _ hl hp => ?_
  obtain ⟨pz, rest, rfl, _, _, rfl⟩ := hp
  rw [(sortList_perm _).length_eq, ← hl]
  rfl

theorem Reaches.ne_nil (hr : a.Reaches table sized T) (h : Reach a.Pass (sortList sized.zipIdx) list)
    (hne : table ≠ []) : list ≠ [] := by
  rintro rfl
  have hlen := reach_length h
  rw [(sortList_perm _).length_eq, List.length_zipIdx, sizingLoop_length hr.sizing] at hlen
  exact hne (List.length_eq_zero_iff.mp hlen.symm)

theorem assignLoop_nonzero {fuel : Nat} (h : a.assignLoop fuel (sortList list) = some (none, list')) :
    ∀ p ∈ list', p.1.offset ≠ 0 := by
  obtain ⟨hreach, hstop⟩ := assignLoop_stops h
  have hsorted := reach_sorted hreach
  cases hstop with
  | nil => exact List.forall_mem_nil _
  | placed h0 =>
    refine List.forall_mem_cons.mpr ⟨h0, fun p hp => ?_⟩
    have := (List.pairwise_cons.mp hsorted).1 p hp
    omega

theorem validate_offset_ne_zero (h : validate a table = some (.returned .success table')) :
    ∀ p ∈ table', p.offset ≠ 0 := by
  obtain ⟨sized, T, list, _, _, hassign, _, _, rfl⟩ := validate_success h
  intro p hp
  obtain ⟨q, hq, rfl⟩ := List.mem_map.mp ((inTableOrder_perm list).subset hp)
  exact assignLoop_nonzero hassign q hq

theorem laid_sortList (h : a.FixedSound (list.map Prod.fst)) : a.Laid (sortList list) :=
  ⟨sortList_sorted list, h.perm ((sortList_perm list).map Prod.fst).symm⟩

namespace Laid

theorem aligned (h : a.Laid list) {p : Ref b} (hp : p ∈ list) (h0 : p.1.offset ≠ 0) : PARTITION_ALIGN ∣ p.1.offset :=
  h.fixed.aligned p.1 (List.mem_map_of_mem hp) h0

theorem inside (h : a.Laid list) {p : Ref b} (hp : p ∈ list) (h0 : p.1.offset ≠ 0) :
    a.rangeStart ≤ p.1.offset ∧ p.1.stop ≤ a.rangeEnd :=
  h.fixed.inside p.1 (List.mem_map_of_mem hp) h0

theorem tail (h : a.Laid (pz :: rest)) : a.Laid rest where
  sorted := (List.pairwise_cons.mp h.sorted).2
  fixed := {
    aligned := fun p hp => h.fixed.aligned p (List.mem_cons_of_mem _ hp)
    inside := fun p hp => h.fixed.inside p (List.mem_cons_of_mem _ hp)
    apart := (List.pairwise_cons.mp h.fixed.apart).2 }

theorem apart (h : a.Laid list) (hs : [pr, next].Sublist list) (hpr : pr.1.offset ≠ 0) (hnext : next.1.offset ≠ 0) :
    Apart PartInfo.offset PartInfo.stop pr.1 next.1 :=
  List.pairwise_iff_forall_sublist.mp h.fixed.apart (hs.map Prod.fst) hpr hnext

end Laid

section Range

theorem rangeStart_le : a.rangeStart ≤ a.rangeEnd := Nat.mul_le_mul_right _ (Nat.le_add_right _ _)

/-- The limit of the range, when the blocks can be counted, and its bytes in a `uint64_t`. -/
theorem maxOffset_of_lt (hblocks : a.firstBlock + a.totalBlocks < b.storageSize) (hbytes : a.rangeEnd < 2 ^ 64)
    (hpos : a.rangeEnd ≠ 0) : a.maxOffset + 1 = a.rangeEnd := by
  rw [maxOffset, Build.storage_of_lt hblocks]
  change u64 (a.rangeEnd + (2 ^ 64 - 1)) + 1 = a.rangeEnd
  rw [u64]
  omega

/-- The computed space is the exact one, when the rounded end is not past its limit. -/
theorem avail_of_roundedEnd_le (next? : Option (Ref b)) {p : PartInfo b} (hmax : a.maxOffset + 1 = a.rangeEnd)
    (hbytes : a.rangeEnd < 2 ^ 64) (h : p.roundedEnd ≤ a.limit next?) :
    a.avail p next? = a.limit next? - p.roundedEnd := by
  cases next? with
  | some next =>
    have hoff := next.1.offset_lt
    rw [limit] at h ⊢
    have hsplit : next.1.offset + (b.storageSize - p.roundedEnd) =
      next.1.offset - p.roundedEnd + b.storageSize := by omega
    rw [avail, Build.storage, hsplit, Nat.add_mod_right, Nat.mod_eq_of_lt (by omega)]
  | none =>
    rw [limit] at h ⊢
    rw [avail, hmax, u64]
    omega

variable (hend : a.rangeEnd < b.storageSize)
include hend

theorem minOffset_eq : a.minOffset = a.rangeStart :=
  Build.storage_of_lt (Nat.lt_of_le_of_lt rangeStart_le hend)

theorem maxOffset_eq (hfirst : a.firstBlock ≠ 0) (hblock : a.blockSize ≠ 0) : a.maxOffset + 1 = a.rangeEnd := by
  have hblocks : a.firstBlock + a.totalBlocks ≤ a.rangeEnd := Nat.le_mul_of_pos_right _ (Nat.pos_of_ne_zero hblock)
  exact maxOffset_of_lt (Nat.lt_of_le_of_lt hblocks hend) (Build.lt_u64 hend) (by omega)

theorem endOffset_le (hfirst : a.firstBlock ≠ 0) (hblock : a.blockSize ≠ 0) {p : PartInfo b} (h0 : p.offset ≠ 0)
    (hstop : p.stop ≤ a.rangeEnd) : p.endOffset ≤ a.maxOffset := by
  have hmax := maxOffset_eq hend hfirst hblock
  have hle : p.offset ≤ p.stop := Nat.le_add_right _ _
  have heq : p.offset + p.size + (b.storageSize - 1) = p.stop - 1 + b.storageSize := by
    have := b.storageSize_pos
    rw [← PartInfo.stop]
    omega
  rw [PartInfo.endOffset, heq, Build.storage, Nat.add_mod_right, Nat.mod_eq_of_lt (by omega)]
  omega

/-- Inside the range the rounded end is exact too. -/
theorem avail_eq_of_le (next? : Option (Ref b)) (hfirst : a.firstBlock ≠ 0) (hblock : a.blockSize ≠ 0) {p : PartInfo b}
    (hin : roundUp p.stop PARTITION_ALIGN ≤ a.rangeEnd) (h : roundUp p.stop PARTITION_ALIGN ≤ a.limit next?) :
    p.roundedEnd = roundUp p.stop PARTITION_ALIGN ∧
      a.avail p next? = a.limit next? - roundUp p.stop PARTITION_ALIGN := by
  have he := PartInfo.roundedEnd_of_lt (Nat.lt_of_le_of_lt hin hend)
  refine ⟨he, ?_⟩
  rw [← he] at h ⊢
  exact avail_of_roundedEnd_le next? (maxOffset_eq hend hfirst hblock) (Build.lt_u64 hend) h

theorem avail_eq (next? : Option (Ref b)) (hfirst : a.firstBlock ≠ 0) (hblock : a.blockSize ≠ 0) {p : PartInfo b}
    (hlimit : a.limit next? ≤ a.rangeEnd) (h : roundUp p.stop PARTITION_ALIGN ≤ a.limit next?) :
    p.roundedEnd = roundUp p.stop PARTITION_ALIGN ∧
      a.avail p next? = a.limit next? - roundUp p.stop PARTITION_ALIGN :=
  avail_eq_of_le hend next? hfirst hblock (h.trans hlimit) h

end Range

theorem visits_mem (h : (pr, next?) ∈ a.visits size list) :
    pr ∈ list ∧ pr.1.offset ≠ 0 ∧ ∀ next, next? = some next → [pr, next].Sublist list := by
  induction list with
  | nil => cases h
  | cons q rest ih =>
    have hrest : (pr, next?) ∈ a.visits size rest →
        pr ∈ q :: rest ∧ pr.1.offset ≠ 0 ∧ ∀ next, next? = some next → [pr, next].Sublist (q :: rest) := by
      intro h
      obtain ⟨hmem, h0, hsub⟩ := ih h
      exact ⟨List.mem_cons_of_mem q hmem, h0, fun next hn => (hsub next hn).cons q⟩
    rw [visits] at h
    split at h
    · exact hrest h
    · rename_i h0
      rcases List.mem_cons.mp h with heq | h
      · cases heq
        refine ⟨List.mem_cons_self, h0, fun next hn => ?_⟩
        obtain ⟨back, rfl⟩ := List.head?_eq_some_iff.mp hn
        exact (List.Sublist.cons_cons next (List.nil_sublist back)).cons_cons _
      · split at h
        · cases h
        · exact hrest h

/-- The search ends where it starts, or at the end of an entry that has been placed. -/
theorem search_cases (h : a.search size e₀ list = some e) :
    e = e₀ ∨ ∃ p ∈ list, p.1.offset ≠ 0 ∧ e = p.1.roundedEnd := by
  induction list generalizing e₀ with
  | nil =>
    cases h
    exact Or.inl rfl
  | cons pr rest ih =>
    rw [search] at h
    split at h
    · rcases ih h with he | ⟨p, hp, hne, he⟩
      · exact Or.inl he
      · exact Or.inr ⟨p, List.mem_cons_of_mem pr hp, hne, he⟩
    · rename_i h0
      split at h
      · cases h
        exact Or.inr ⟨pr, List.mem_cons_self, h0, rfl⟩
      · split at h
        · cases h
        · rcases ih h with he | ⟨p, hp, hne, he⟩
          · exact Or.inr ⟨pr, List.mem_cons_self, h0, he⟩
          · exact Or.inr ⟨p, List.mem_cons_of_mem pr hp, hne, he⟩

theorem search_aligned (h0 : PARTITION_ALIGN ∣ e₀) (h : a.search size e₀ list = some e) : PARTITION_ALIGN ∣ e := by
  rcases search_cases h with rfl | ⟨p, _, _, rfl⟩
  · exact h0
  · exact p.1.roundedEnd_aligned

theorem search_of_zero (h : ∀ p ∈ list, p.1.offset = 0) : a.search size e list = some e := by
  induction list with
  | nil => rfl
  | cons q rest ih =>
    rw [search, if_pos (h q List.mem_cons_self)]
    exact ih fun p hp => h p (List.mem_cons_of_mem q hp)

/-- Around sound entries, a rounded end is not past the next entry unless this one is empty,
nor past the range unless the range end is not aligned. -/
theorem visits_clear (hl : a.Laid (pz :: rest)) (hc : a.CanPlace pz rest)
    (h : (pr, next?) ∈ a.visits pz.1.size rest) :
    a.limit next? ≤ a.rangeEnd ∧ roundUp pr.1.stop PARTITION_ALIGN ≤ a.limit next? := by
  obtain ⟨hmem, h0, hsub⟩ := visits_mem h
  cases next? with
  | none => exact ⟨le_rfl, hc.tail pr h⟩
  | some next =>
    have hs := hsub next rfl
    have hle : pr.1.offset ≤ next.1.offset := List.pairwise_iff_forall_sublist.mp hl.tail.sorted hs
    have hn0 : next.1.offset ≠ 0 := by omega
    have hnext : next ∈ rest := hs.subset (List.mem_cons_of_mem pr List.mem_cons_self)
    have hstop : pr.1.stop ≤ next.1.offset := by
      rcases Nat.lt_or_ge next.1.offset pr.1.stop with hlt | hge
      · have hpos := hc.empty pr next h hlt
        exact (hl.tail.apart hs h0 hn0).le hle (Nat.lt_add_of_pos_right hpos)
      · exact hge
    refine ⟨?_, Extents.roundUp_le PARTITION_ALIGN_pos (hl.tail.aligned hnext hn0) hstop⟩
    exact (Nat.le_add_right _ _).trans (hl.tail.inside hnext hn0).2

/-- The offset that the search finds: aligned, with room for the entry between those that end
before it and those that start behind. -/
theorem search_spec (hend : a.rangeEnd < b.storageSize) (hfirst : a.firstBlock ≠ 0) (hblock : a.blockSize ≠ 0)
    (hsorted : list.Pairwise fun p q => p.1.offset ≤ q.1.offset)
    (hclear : ∀ v ∈ a.visits size list,
      a.limit v.2 ≤ a.rangeEnd ∧ roundUp v.1.1.stop PARTITION_ALIGN ≤ a.limit v.2)
    (hfloor : ∀ p ∈ list, p.1.offset ≠ 0 → e₀ ≤ p.1.offset) (hs : a.search size e₀ list = some e) :
    (∀ p ∈ list, p.1.offset = 0) ∧ e = e₀ ∨
      PARTITION_ALIGN ∣ e ∧ e₀ ≤ e ∧ e + size ≤ a.rangeEnd ∧
        ∀ p ∈ list, p.1.offset ≠ 0 → p.1.stop ≤ e ∨ e + size ≤ p.1.offset := by
  induction list generalizing e₀ with
  | nil =>
    cases hs
    exact Or.inl ⟨List.forall_mem_nil _, rfl⟩
  | cons pr rest ih =>
    obtain ⟨hle, hsorted⟩ := List.pairwise_cons.mp hsorted
    rw [search] at hs
    rw [visits] at hclear
    split at hs
    · rename_i h0
      rw [if_pos h0] at hclear
      rcases ih hsorted hclear (fun p hp => hfloor p (List.mem_cons_of_mem pr hp)) hs with ⟨hz, he⟩ |
        ⟨hal, hlo, hhi, hp⟩
      · exact Or.inl ⟨List.forall_mem_cons.mpr ⟨h0, hz⟩, he⟩
      · exact Or.inr ⟨hal, hlo, hhi, List.forall_mem_cons.mpr ⟨fun hne => absurd h0 hne, hp⟩⟩
    · rename_i h0
      rw [if_neg h0] at hclear
      right
      obtain ⟨hlimit, hround⟩ := hclear _ List.mem_cons_self
      dsimp only at hlimit hround
      obtain ⟨he, havail⟩ := avail_eq hend _ hfirst hblock hlimit hround
      have hstop := Extents.le_roundUp (m := pr.1.stop) PARTITION_ALIGN_pos
      have hlo : e₀ ≤ pr.1.stop := (hfloor pr List.mem_cons_self h0).trans (Nat.le_add_right _ _)
      -- what lies behind starts where the space behind `pr` ends, or later
      have hbehind : ∀ p ∈ rest, a.limit rest.head? ≤ p.1.offset := by
        intro p hp
        rcases rest with _ | ⟨next, back⟩
        · cases hp
        · rcases List.mem_cons.mp hp with rfl | hp
          · exact le_rfl
          · exact (List.pairwise_cons.mp hsorted).1 p hp
      split at hs
      · rename_i hfit
        rw [havail] at hfit
        rw [he] at hs
        cases hs
        refine ⟨Extents.dvd_roundUp _ _, hlo.trans hstop, by omega, ?_⟩
        rw [List.forall_mem_cons]
        exact ⟨fun _ => Or.inl hstop, fun p hp _ => Or.inr (by have := hbehind p hp; omega)⟩
      · rename_i hfit
        rw [if_neg hfit] at hclear
        split at hs
        · cases hs
        · rename_i hrest
          rw [he] at hs
          rcases ih hsorted (fun v hv => hclear v (List.mem_cons_of_mem _ hv))
            (fun p hp _ => hround.trans (hbehind p hp)) hs with ⟨hz, _⟩ | ⟨hal, hlo', hhi, hp⟩
          · rcases rest with _ | ⟨next, back⟩
            · exact absurd rfl hrest
            · have h1 := hz next List.mem_cons_self
              have h2 := hle next List.mem_cons_self
              omega
          · refine ⟨hal, by omega, hhi, ?_⟩
            rw [List.forall_mem_cons]
            exact ⟨fun _ => Or.inl (by omega), hp⟩

end Available

end DiskStorage
