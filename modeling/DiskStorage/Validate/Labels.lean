import DiskStorage.Validate.Gaps
import Mathlib.Data.List.Forall2

/-! What validate leaves of the entries of a table, in table order, however it returns. -/
namespace DiskStorage
open Runs (Reach)

variable {b : Build}

/-- An entry without its offset and size. -/
def PartInfo.label (part : PartInfo b) : List UInt8 × FullType × Uuid × Uuid × SysType × Nat :=
  (part.name, part.fullType, part.typeGuid, part.uniqueGuid, part.systype, part.sysind)

/-- What validate may make of an entry: it gives it the offset it does not have, and the size for
its percentage. -/
structure PartInfo.Resolves (part part' : PartInfo b) : Prop where
  label_eq : part'.label = part.label
  offset_eq : part.offset ≠ 0 → part'.offset = part.offset
  size_eq : 100 < part.size → part'.size = part.size

theorem PartInfo.Resolves.refl (part : PartInfo b) : part.Resolves part := ⟨rfl, fun _ => rfl, fun _ => rfl⟩

/-- What validate may make of a table. The entries up to some place have the sizes they ask for, and a
missing offset is filled in with the start of the range or the rounded end of another entry. -/
structure Available.Resolved (a : Available b) (table table' : List (PartInfo b)) : Prop where
  entries : List.Forall₂ PartInfo.Resolves table table'
  sizes : ∃ n, ∀ (i : Nat) (part part' : PartInfo b), table[i]? = some part → table'[i]? = some part' →
    part'.size = if i < n then a.requestedAt table i part else part.size
  offsets : ∀ (i : Nat) (part part' : PartInfo b), table[i]? = some part → table'[i]? = some part' → part.offset = 0 →
    part'.offset = 0 ∨ part'.offset = a.minOffset ∨
      ∃ j pr, j ≠ i ∧ table'[j]? = some pr ∧ pr.offset ≠ 0 ∧ part'.offset = pr.roundedEnd

theorem Available.Resolved.refl (a : Available b) (table : List (PartInfo b)) : a.Resolved table table := by
  refine ⟨List.forall₂_same.mpr fun part _ => .refl part, ⟨0, fun i part part' hpart hpart' => ?_⟩,
    fun i part part' hpart hpart' hzero => .inl ?_⟩
  all_goals cases hpart.symm.trans hpart'
  · rfl
  · exact hzero

section TableOrder
variable {table : List (PartInfo b)} {list rest : List (Ref b)} {i : Nat} {part : PartInfo b}

/-- References to all entries of a table, whatever their order, give back the table. -/
theorem inTableOrder_of_perm (h : list.Perm table.zipIdx) : inTableOrder list = table := by
  have htotal : Std.Total fun p1 p2 : Ref b => p1.2 ≤ p2.2 := ⟨fun _ _ => Nat.le_total _ _⟩
  have htrans : IsTrans (Ref b) fun p1 p2 => p1.2 ≤ p2.2 := ⟨fun _ _ _ => Nat.le_trans⟩
  have hsorted := List.pairwise_insertionSort (fun p1 p2 : Ref b => p1.2 ≤ p2.2) list
  have hperm := (List.perm_insertionSort (fun p1 p2 : Ref b => p1.2 ≤ p2.2) list).trans h
  -- a position has one entry, so there is but one order
  have heq := @List.Perm.eq_of_pairwise _ (fun p1 p2 : Ref b => p1.2 ≤ p2.2) _ _ ?_ hsorted ?_ hperm
  · rw [inTableOrder, heq, List.zipIdx_map_fst]
  · rintro ⟨p, i⟩ ⟨q, j⟩ hp hq hpq hqp
    obtain rfl : i = j := Nat.le_antisymm hpq hqp
    have hp := List.mem_zipIdx_iff_getElem?.mp (hperm.subset hp)
    have hq := List.mem_zipIdx_iff_getElem?.mp hq
    dsimp only at hp hq
    rw [hp] at hq
    cases hq
    rfl
  · apply List.pairwise_iff_getElem.mpr
    intro i j hi hj hij
    rw [List.getElem_zipIdx, List.getElem_zipIdx]
    exact Nat.add_le_add_left hij.le 0

theorem perm_set (h : ((part, i) :: rest).Perm table.zipIdx) (part' : PartInfo b) :
    ((part', i) :: rest).Perm (table.set i part').zipIdx := by
  have hmem : table[i]? = some part := List.mem_zipIdx_iff_getElem?.mp (h.subset List.mem_cons_self)
  obtain ⟨hi, hget⟩ := List.getElem?_eq_some_iff.mp hmem
  have hat : ∀ p, (table.take i ++ p :: table.drop (i + 1)).zipIdx =
      (table.take i).zipIdx ++ (p, i) :: (table.drop (i + 1)).zipIdx (i + 1) := by
    intro p
    rw [List.zipIdx_append, List.length_take, Nat.min_eq_left hi.le, List.zipIdx_cons, Nat.zero_add]
  have htable : table.take i ++ part :: table.drop (i + 1) = table := by
    rw [← hget, ← List.drop_eq_getElem_cons hi, List.take_append_drop]
  rw [← htable, hat] at h
  have hrest := List.Perm.cons_inv (h.trans List.perm_middle)
  rw [List.set_eq_take_append_cons_drop, if_pos hi, hat]
  exact (hrest.cons _).trans List.perm_middle.symm

end TableOrder

namespace Available
variable {a : Available b} {table table' sized : List (PartInfo b)} {list list' : List (Ref b)} {T T' fuel : Nat}
  {err : Option Error} {part part' : PartInfo b}

private theorem sizeEntry_resolves (h : a.sizeEntry T part = (err, T', part')) :
    part.Resolves part' ∧ ∀ e, err = some e → e = .noSpace ∨ e = .misAligned ∨ e = .outOfRange := by
  have hcheck : ∀ {T p}, a.checkOffset T p = (err, T', part') →
      part' = p ∧ ∀ e, err = some e → e = .noSpace ∨ e = .misAligned ∨ e = .outOfRange := by
    intro T p h
    rw [checkOffset] at h
    split at h
    all_goals
      cases h
      simp
  rw [sizeEntry] at h
  split at h
  · rename_i hsize
    cases hp : a.percentBlocks T part.size with
    | none =>
      rw [hp] at h
      cases h
      exact ⟨.refl part, by simp⟩
    | some blocks =>
      rw [hp] at h
      obtain ⟨rfl, herr⟩ := hcheck h
      exact ⟨⟨rfl, fun _ => rfl, fun hlt => absurd hsize (Nat.not_le.mpr hlt)⟩, herr⟩
  · split at h
    · cases h
      exact ⟨.refl part, by simp⟩
    · obtain ⟨rfl, herr⟩ := hcheck h
      exact ⟨.refl part', herr⟩

private theorem sizingLoop_entries (h : a.sizingLoop T table = (err, T', sized)) :
    List.Forall₂ PartInfo.Resolves table sized ∧
      ∀ e, err = some e → e = .noSpace ∨ e = .misAligned ∨ e = .outOfRange := by
  induction table generalizing T sized with
  | nil =>
    cases h
    exact ⟨.nil, by simp⟩
  | cons part rest ih =>
    rw [sizingLoop] at h
    rcases he : a.sizeEntry T part with ⟨_ | e, T₁, part'⟩
    · rw [he] at h
      rcases hl : a.sizingLoop T₁ rest with ⟨err', T₂, rest'⟩
      simp only [hl] at h
      cases h
      exact ⟨.cons (sizeEntry_resolves he).1 (ih hl).1, (ih hl).2⟩
    · rw [he] at h
      cases h
      exact ⟨.cons (sizeEntry_resolves he).1 (List.forall₂_same.mpr fun p _ => .refl p), (sizeEntry_resolves he).2⟩

private theorem sizingLoop_resolved (h : a.sizingLoop 0 table = (err, T', sized)) :
    a.Resolved table sized ∧ ∀ e, err = some e → e = .noSpace ∨ e = .misAligned ∨ e = .outOfRange := by
  obtain ⟨hentries, herr⟩ := sizingLoop_entries h
  obtain ⟨n, hsizes, -⟩ := sizingLoop_sizes h
  refine ⟨⟨hentries, ⟨n, hsizes⟩, fun i part part' hpart hpart' hzero => .inl ?_⟩, herr⟩
  have hoffset := congrArg (·[i]?) (sizingLoop_offsets h).1
  simp only [List.getElem?_map, hpart, hpart', Option.map_some, Option.some.injEq] at hoffset
  exact hoffset.trans hzero

/-- The list refers to the entries of a table that the given one is resolved to. -/
def RefersTo (a : Available b) (table : List (PartInfo b)) (list : List (Ref b)) : Prop :=
  ∃ table', a.Resolved table table' ∧ list.Perm table'.zipIdx

private theorem entries_set {i : Nat} (hpart : table'[i]? = some part) (h0 : part.offset = 0)
    (h : List.Forall₂ PartInfo.Resolves table table') (e : Nat) :
    List.Forall₂ PartInfo.Resolves table (table'.set i (part.setOffset e)) := by
  obtain ⟨hlen, hget⟩ := List.forall₂_iff_get.mp h
  refine List.forall₂_iff_get.mpr ⟨by rw [List.length_set, hlen], fun j hj hj' => ?_⟩
  rw [List.length_set] at hj'
  have hentry := hget j hj hj'
  simp only [List.get_eq_getElem, List.getElem_set] at hentry ⊢
  split
  · rename_i hij
    subst hij
    rw [List.getElem?_eq_getElem hj', Option.some.injEq] at hpart
    rw [hpart] at hentry
    exact ⟨hentry.label_eq, fun hne => absurd ((hentry.offset_eq hne).symm.trans h0) hne, hentry.size_eq⟩
  · exact hentry

section Pass
variable {e i : Nat} {rest : List (Ref b)} (hperm : ((part, i) :: rest).Perm table'.zipIdx) (h0 : part.offset = 0)
include hperm

private theorem entry_eq : table'[i]? = some part := List.mem_zipIdx_iff_getElem?.mp (hperm.subset List.mem_cons_self)

private theorem set_eq {j : Nat} {p : PartInfo b} (hp : (table'.set i (part.setOffset e))[j]? = some p) :
    (j = i ∧ p = part.setOffset e) ∨ (j ≠ i ∧ table'[j]? = some p) := by
  obtain ⟨hi, _⟩ := List.getElem?_eq_some_iff.mp (entry_eq hperm)
  by_cases hij : i = j
  · subst hij
    rw [List.getElem?_set_self hi, Option.some.injEq] at hp
    exact .inl ⟨rfl, hp.symm⟩
  · rw [List.getElem?_set_ne hij] at hp
    exact .inr ⟨Ne.symm hij, hp⟩

include h0

private theorem set_placed {j : Nat} {pr : PartInfo b} (hpr : table'[j]? = some pr) (hne : pr.offset ≠ 0) :
    j ≠ i ∧ (table'.set i (part.setOffset e))[j]? = some pr := by
  have hij : j ≠ i := by
    rintro rfl
    cases (entry_eq hperm).symm.trans hpr
    exact hne h0
  exact ⟨hij, (List.getElem?_set_ne (Ne.symm hij)).trans hpr⟩

private theorem resolved_set (hs : a.search part.size a.minOffset rest = some e) (h : a.Resolved table table') :
    a.Resolved table (table'.set i (part.setOffset e)) := by
  have hpart := entry_eq hperm
  refine ⟨?_, ?_, ?_⟩
  · exact entries_set hpart h0 h.entries e
  · obtain ⟨n, hsizes⟩ := h.sizes
    refine ⟨n, fun j q q' hq hq' => ?_⟩
    rcases set_eq hperm hq' with ⟨rfl, rfl⟩ | ⟨_, hq'⟩
    · exact hsizes j q part hq hpart
    · exact hsizes j q q' hq hq'
  · intro j q q' hq hq' hzero
    rcases set_eq hperm hq' with ⟨rfl, rfl⟩ | ⟨_, hq'⟩
    · right
      rcases search_cases hs with rfl | ⟨⟨pr, j'⟩, hpr, hne, rfl⟩
      · exact .inl (Build.storage_of_lt (b.storage_lt _))
      · have hmem := List.mem_zipIdx_iff_getElem?.mp (hperm.subset (List.mem_cons_of_mem _ hpr))
        obtain ⟨hij, hset⟩ := set_placed (e := pr.roundedEnd) hperm h0 hmem hne
        exact .inr ⟨j', pr, hij, hset, hne, Build.storage_of_lt pr.roundedEnd_lt⟩
    · rcases h.offsets j q q' hq hq' hzero with hold | hmin | ⟨j', pr, hij, hpr, hne, hend⟩
      · exact .inl hold
      · exact .inr (.inl hmin)
      · exact .inr (.inr ⟨j', pr, hij, (set_placed hperm h0 hpr hne).2, hne, hend⟩)

end Pass

private theorem refersTo_pass {e : Nat} (h : a.RefersTo table list) (hp : a.Pass list e list') :
    a.RefersTo table list' := by
  obtain ⟨⟨part, i⟩, rest, rfl, h0, hs, rfl⟩ := hp
  obtain ⟨table', hresolved, hperm⟩ := h
  exact ⟨_, resolved_set hperm h0 hs hresolved, (sortList_perm _).trans (perm_set hperm _)⟩

/-- The lists of the placement loop refer to all entries of a table that the given one is resolved to. -/
theorem Reaches.refersTo (hr : a.Reaches table sized T) (h : Reach a.Pass (sortList sized.zipIdx) list) :
    a.RefersTo table list :=
  h.invariant ⟨sized, (sizingLoop_resolved hr.sizing).1, sortList_perm _⟩ fun _ _ _ _ hrefers hpass =>
    refersTo_pass hrefers hpass

private theorem Reaches.returned {x : Error} (hr : a.Reaches table sized T)
    (h : validate a table = some (.returned x table')) :
    a.Resolved table table' ∧ (x = .success ∨ x = .noSpace) := by
  obtain ⟨err, list, hassign, rfl, hx⟩ := hr.returned_cases h
  obtain ⟨table', hresolved, hperm⟩ := hr.refersTo (assignLoop_stops hassign).1
  rw [inTableOrder_of_perm hperm]
  refine ⟨hresolved, ?_⟩
  rcases hx with rfl | ⟨_, hok, _⟩
  · exact Or.inr (assignLoop_error hassign)
  · exact Or.inl hok

/-- The errors of validate. -/
def Refusal (x : Error) : Prop := x = .badParam ∨ x = .misAligned ∨ x = .outOfRange ∨ x = .noSpace

/-- However validate returns, the entries are in table order, and resolved at most. -/
theorem validate_resolves {x : Error} (h : validate a table = some (.returned x table')) :
    a.Resolved table table' ∧ (x = .success ∨ Refusal x) ∧ (x = .badParam → table' = table) ∧
      (x = .misAligned ∨ x = .outOfRange → table'.map PartInfo.offset = table.map PartInfo.offset) := by
  by_cases hbad : a.firstBlock = 0 ∨ a.blockSize = 0
  · rw [validate, if_pos hbad] at h
    cases h
    exact ⟨.refl a table, Or.inr (Or.inl rfl), fun _ => rfl, fun _ => rfl⟩
  · rcases hl : a.sizingLoop 0 table with ⟨_ | e, T, sized⟩
    · by_cases hroom : T > a.totalBlocks
      · rw [validate, if_neg hbad, hl] at h
        dsimp only at h
        rw [if_pos hroom] at h
        cases h
        exact ⟨(sizingLoop_resolved hl).1, Or.inr (Or.inr (Or.inr (Or.inr rfl))), by simp, by simp⟩
      · have hr : a.Reaches table sized T := ⟨(not_or.mp hbad).1, (not_or.mp hbad).2, hl, Nat.le_of_not_lt hroom⟩
        obtain ⟨hresolved, rfl | rfl⟩ := hr.returned h
        · exact ⟨hresolved, Or.inl rfl, by simp, by simp⟩
        · exact ⟨hresolved, Or.inr (Or.inr (Or.inr (Or.inr rfl))), by simp, by simp⟩
    · obtain ⟨hresolved, herr⟩ := sizingLoop_resolved hl
      rw [validate, if_neg hbad, hl] at h
      cases h
      refine ⟨hresolved, Or.inr ?_, ?_, fun _ => (sizingLoop_offsets hl).1⟩
      · rcases herr x rfl with rfl | rfl | rfl
        · exact Or.inr (Or.inr (Or.inr rfl))
        · exact Or.inr (Or.inl rfl)
        · exact Or.inr (Or.inr (Or.inl rfl))
      · rintro rfl
        rcases herr _ rfl with h | h | h <;> cases h

/-- Nothing but offsets and sizes changes. -/
theorem validate_labels {x : Error} (h : validate a table = some (.returned x table')) :
    table'.map PartInfo.label = table.map PartInfo.label := by
  have hlabels : List.Forall₂ (fun part part' => part'.label = part.label) table table' :=
    (validate_resolves h).1.entries.imp fun _ _ hresolves => hresolves.label_eq
  clear h
  induction hlabels with
  | nil => rfl
  | cons hhead _ ih => rw [List.map_cons, List.map_cons, hhead, ih]

theorem validate_length {x : Error} (h : validate a table = some (.returned x table')) :
    table'.length = table.length := by
  have hlen := congrArg List.length (validate_labels h)
  rwa [List.length_map, List.length_map] at hlen

/-- So what the labels of the table have in common, those of the entries returned have too. -/
theorem validate_label_forall {x : Error} {P : _ → Prop} (h : validate a table = some (.returned x table'))
    (hall : ∀ part ∈ table, P part.label) : ∀ part ∈ table', P part.label := by
  intro part hpart
  have hmem := List.mem_map_of_mem (f := PartInfo.label) hpart
  rw [validate_labels h] at hmem
  obtain ⟨entry, hentry, hlabel⟩ := List.mem_map.mp hmem
  rw [← hlabel]
  exact hall entry hentry

end Available

end DiskStorage
