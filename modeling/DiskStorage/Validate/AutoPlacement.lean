import DiskStorage.Validate.Rounds

/-! Whole runs of the placement loop: when entries without offsets are placed safely. -/
namespace DiskStorage
open Extents (Apart Stacked extent roundUp)
open Runs (Reach Run)

variable {b : Build}

namespace Available
variable {a : Available b} {list list' rest : List (Ref b)} {pz : Ref b} {fuel size e T : Nat}
  {table table' sized : List (PartInfo b)}

private theorem rangeStart_pos (hfirst : a.firstBlock ≠ 0) (hblock : a.blockSize ≠ 0) : a.rangeStart ≠ 0 :=
  Nat.mul_ne_zero hfirst hblock

private theorem fixedSound_place (hend : a.rangeEnd < b.storageSize) (hal : PARTITION_ALIGN ∣ e)
    (hlo : a.rangeStart ≤ e) (hhi : e + pz.1.size ≤ a.rangeEnd) (hl : a.Laid (pz :: rest))
    (hgap : ∀ p ∈ rest, p.1.offset ≠ 0 → p.1.stop ≤ e ∨ e + pz.1.size ≤ p.1.offset) :
    a.FixedSound (((pz.1.setOffset e, pz.2) :: rest).map Prod.fst) := by
  have he : (pz.1.setOffset e).offset = e := Build.storage_of_lt (by omega)
  have hstop : (pz.1.setOffset e).stop = e + pz.1.size := congrArg (· + pz.1.size) he
  have hrest := hl.tail.fixed
  constructor
  · rw [List.map_cons, List.forall_mem_cons]
    exact ⟨fun _ => by rw [he]; exact hal, hrest.aligned⟩
  · rw [List.map_cons, List.forall_mem_cons]
    exact ⟨fun _ => by rw [he, hstop]; exact ⟨hlo, hhi⟩, hrest.inside⟩
  · rw [List.map_cons, List.pairwise_cons]
    refine ⟨fun q hq _ hq0 => ?_, hrest.apart⟩
    obtain ⟨p, hp, rfl⟩ := List.mem_map.mp hq
    rcases hgap p hp hq0 with hbefore | hafter
    · exact (Extents.apart_of_le (by rw [he]; exact hbefore)).symm
    · exact Extents.apart_of_le (by rw [hstop]; exact hafter)

/-- One pass keeps the invariant, when the placement can rely on what it does not check. -/
theorem Laid.pass (hend : a.rangeEnd < b.storageSize) (hstart : PARTITION_ALIGN ∣ a.rangeStart)
    (hfirst : a.firstBlock ≠ 0) (hblock : a.blockSize ≠ 0) (hl : a.Laid list)
    (hc : ∀ pz rest, list = pz :: rest → pz.1.offset = 0 → a.CanPlace pz rest) (hp : a.Pass list e list') :
    a.Laid list' := by
  obtain ⟨pz, rest, rfl, h0, hs, rfl⟩ := hp
  have hcan := hc pz rest rfl h0
  rw [minOffset_eq hend] at hs
  apply laid_sortList
  rcases search_spec hend hfirst hblock hl.tail.sorted (fun v hv => visits_clear hl hcan hv)
    (fun p hp hne => (hl.tail.inside hp hne).1) hs with ⟨hz, rfl⟩ | ⟨hal, hlo, hhi, hgap⟩
  · refine fixedSound_place hend hstart le_rfl ?_ hl fun p hp hne => absurd (hz p hp) hne
    have := hcan.first hz
    have := a.rangeStart_le
    omega
  · exact fixedSound_place hend hal hlo hhi hl hgap

private theorem sound_of_laid (hl : a.Laid list) (hne : ∀ p ∈ list, p.1.offset ≠ 0) : a.Sound (inTableOrder list) := by
  refine Sound.perm ⟨?_, ?_⟩ (inTableOrder_perm _).symm
  · refine hl.fixed.apart.imp_of_mem fun hp hq hapart => ?_
    obtain ⟨p, hpmem, rfl⟩ := List.mem_map.mp hp
    obtain ⟨q, hqmem, rfl⟩ := List.mem_map.mp hq
    exact hapart (hne p hpmem) (hne q hqmem)
  · intro p hp
    obtain ⟨p, hmem, rfl⟩ := List.mem_map.mp hp
    exact Extents.extent_subset (hl.inside hmem (hne p hmem)).1 (hl.inside hmem (hne p hmem)).2

private theorem laid_start (h : a.FixedSound sized) : a.Laid (sortList sized.zipIdx) :=
  laid_sortList (by rwa [List.zipIdx_map_fst])

private theorem places_of_canPlace (hstart : PARTITION_ALIGN ∣ a.rangeStart) (hend : a.rangeEnd < b.storageSize)
    (hne : table ≠ []) (hfixed : ∀ sized T, a.Reaches table sized T → a.FixedSound sized)
    (hcan : ∀ sized T pz rest, a.Reaches table sized T → a.Placing sized pz rest → a.CanPlace pz rest) :
    a.PlacesSafely table := by
  have hlaid : ∀ {sized T list}, a.Reaches table sized T → Reach a.Pass (sortList sized.zipIdx) list → a.Laid list := by
    intro sized T list hr hreach
    apply hreach.invariant (laid_start (hfixed sized T hr))
    intro list e list' hreach hl hp
    exact hl.pass hend hstart hr.first hr.block
      (fun pz rest heq h0 => hcan sized T pz rest hr ⟨heq ▸ hreach, h0⟩) hp
  constructor
  · rintro sized T pz rest hr hp v hv
    obtain ⟨hlimit, hround⟩ := visits_clear (hlaid hr hp.1) (hcan sized T pz rest hr hp) hv
    obtain ⟨_, havail⟩ := avail_eq hend _ hr.first hr.block hlimit hround
    omega
  · intro table' hv
    obtain ⟨sized, T, list, lastPart, hr, hassign, _, _, rfl⟩ := validate_success hv
    exact sound_of_laid (hlaid hr (assignLoop_stops hassign).1) (assignLoop_nonzero hassign)
  · intro hv
    obtain ⟨sized, T, list, hr, hassign, hlast⟩ := validate_aborted hv
    have hreach := (assignLoop_stops hassign).1
    have hnil := hr.ne_nil hreach hne
    have hmem := List.getLast_mem hnil
    have h0 := assignLoop_nonzero hassign _ hmem
    exact Nat.not_lt.mpr (endOffset_le hend hr.first hr.block h0 ((hlaid hr hreach).inside hmem h0).2)
      (hlast _ (List.getLast?_eq_some_getLast hnil))

private theorem sortList_of_zero {p : Ref b} (hz : ∀ q ∈ rest, q.1.offset = 0) (h0 : p.1.offset ≠ 0) :
    sortList (p :: rest) = rest ++ [p] := by
  apply sortList_of_lt
  · exact List.pairwise_of_forall_mem_list fun q hq r hr => by rw [hz q hq, hz r hr]
  · intro q hq
    have := hz q hq
    omega

private theorem visits_last {p : Ref b} (hz : ∀ q ∈ rest, q.1.offset = 0) (h0 : p.1.offset ≠ 0) :
    (p, none) ∈ a.visits size (rest ++ [p]) := by
  induction rest with
  | nil =>
    rw [List.nil_append, visits, if_neg h0]
    exact List.mem_cons_self
  | cons q rest ih =>
    rw [List.cons_append, visits, if_pos (hz q List.mem_cons_self)]
    exact ih fun r hr => hz r (List.mem_cons_of_mem q hr)

private theorem first_offset (hend : a.rangeEnd < b.storageSize) :
    (pz.1.setOffset a.minOffset).offset = a.rangeStart := by
  rw [minOffset_eq hend]
  exact Build.storage_of_lt (Nat.lt_of_le_of_lt rangeStart_le hend)

private theorem first_of_single (hend : a.rangeEnd < b.storageSize) (hr : a.Reaches table sized T)
    (h : a.PlacesSafely table) (hp : a.Placing sized pz []) : pz.1.size ≤ a.rangeEnd - a.rangeStart := by
  obtain ⟨hreach, h0⟩ := hp
  have hplaced : (pz.1.setOffset a.minOffset).offset ≠ 0 := by
    rw [first_offset hend]
    exact rangeStart_pos hr.first hr.block
  have hlen := reach_length hreach
  obtain ⟨x, hx⟩ := List.length_eq_one_iff.mp hlen.symm
  have hstart : sortList sized.zipIdx = [pz] := by
    rw [hx] at hreach ⊢
    obtain ⟨tr, hrun, hlast⟩ := hreach
    cases hrun with
    | nil => exact hlast
    | cons hs ht =>
      obtain ⟨y, rest, heq, hy, hsearch, rfl⟩ := hs
      cases heq
      cases hsearch
      have hy0 : (x.1.setOffset a.minOffset).offset ≠ 0 := by
        rw [first_offset hend]
        exact rangeStart_pos hr.first hr.block
      cases reach_placed ⟨_, ht, hlast⟩ hy0
      exact absurd h0 hy0
  have hassign : a.assignLoop (sized.length + 1) (sortList sized.zipIdx) =
      some (none, [(pz.1.setOffset a.minOffset, pz.2)]) := by
    have hone : sized.length = 1 := by
      have := (sortList_perm sized.zipIdx).length_eq
      rw [hx, List.length_zipIdx] at this
      exact this.symm
    rw [hstart, hone, assignLoop, if_pos h0]
    exact assignLoop_of_nonzero (List.forall_mem_singleton.mpr hplaced)
  have hv := hr.validate_eq
  rw [hassign] at hv
  dsimp only [List.getLast?_singleton] at hv
  split at hv
  · have hsub := ((h.sound _ hv).perm (inTableOrder_perm _)).2 _ List.mem_cons_self
    obtain he | hpos := Nat.eq_zero_or_pos pz.1.size
    · omega
    · have hne : (pz.1.setOffset a.minOffset).offset < (pz.1.setOffset a.minOffset).stop :=
        Nat.lt_add_of_pos_right hpos
      have hin := ((Extents.extent_subset_iff hne).mp hsub).2
      rw [PartInfo.stop, first_offset hend, PartInfo.setOffset_size] at hin
      omega
  · exact absurd hv h.assertion

private theorem first_of_many (hend : a.rangeEnd < b.storageSize) (hr : a.Reaches table sized T)
    (h : a.PlacesSafely table) {next : Ref b} (hp : a.Placing sized pz (next :: rest))
    (hz : ∀ p ∈ next :: rest, p.1.offset = 0) : pz.1.size ≤ a.rangeEnd - a.rangeStart := by
  obtain ⟨hreach, h0⟩ := hp
  have hoff : (pz.1.setOffset a.minOffset).offset = a.rangeStart := first_offset hend
  have hplaced : (pz.1.setOffset a.minOffset).offset ≠ 0 := by
    rw [hoff]
    exact rangeStart_pos hr.first hr.block
  have hstep : a.Pass (pz :: next :: rest) a.minOffset
      (next :: (rest ++ [(pz.1.setOffset a.minOffset, pz.2)])) :=
    ⟨pz, next :: rest, rfl, h0, search_of_zero hz, (sortList_of_zero hz hplaced).symm⟩
  have hexact := h.exact sized T next _ hr ⟨hreach.tail hstep, hz next List.mem_cons_self⟩ _
    (visits_last (fun p hp => hz p (List.mem_cons_of_mem next hp)) hplaced)
  have hround := Extents.le_roundUp (m := (pz.1.setOffset a.minOffset).stop) PARTITION_ALIGN_pos
  rw [limit] at hexact
  rw [PartInfo.stop, hoff, PartInfo.setOffset_size] at hround
  rw [PartInfo.stop, hoff, PartInfo.setOffset_size] at hexact
  omega

private theorem canPlace_of_places (hend : a.rangeEnd < b.storageSize) (hr : a.Reaches table sized T)
    (h : a.PlacesSafely table) (hp : a.Placing sized pz rest) : a.CanPlace pz rest := by
  constructor
  · intro hz
    rcases rest with _ | ⟨next, rest⟩
    · exact first_of_single hend hr h hp
    · exact first_of_many hend hr h hp hz
  · intro pr next hv hlt
    have hexact := h.exact sized T pz rest hr hp _ hv
    have hround := Extents.le_roundUp (m := pr.1.stop) PARTITION_ALIGN_pos
    dsimp only [limit] at hexact
    omega
  · intro pr hv
    have hexact := h.exact sized T pz rest hr hp _ hv
    dsimp only [limit] at hexact
    omega

end Available

/-- Around fixed entries that are sound, the placement is safe exactly when in each pass it can
rely on what it does not check: the first entry placed fits the range, no empty entry lies
inside another one, and the last entry ends where its end rounded up is still in the range. -/
theorem auto_placement_safe_iff (a : Available b) (hstart : PARTITION_ALIGN ∣ a.rangeStart)
    (hend : a.rangeEnd < b.storageSize) (table : List (PartInfo b)) (hne : table ≠ [])
    (hfixed : ∀ sized T, a.Reaches table sized T → a.FixedSound sized) :
    a.PlacesSafely table ↔
      ∀ sized T pz rest, a.Reaches table sized T → a.Placing sized pz rest → a.CanPlace pz rest :=
  ⟨fun h _ _ _ _ hr hp => Available.canPlace_of_places hend hr h hp,
    Available.places_of_canPlace hstart hend hne hfixed⟩

/-- One half of 100 MiB without an offset. -/
theorem auto_placement_safe_half :
    (Available.of ⟨true, true, true, 512⟩ 2048 204800 512).PlacesSafely [PartInfo.new [] ⟨0, 0⟩ 0 50] := by
  have hsized : (Available.of ⟨true, true, true, 512⟩ 2048 204800 512).sizingLoop 0 [PartInfo.new [] ⟨0, 0⟩ 0 50] =
    (none, 102400, [PartInfo.new [] ⟨0, 0⟩ 0 0x3200000]) := rfl
  refine (auto_placement_safe_iff _ (by decide) (by decide) _ (by decide) ?_).mpr ?_
  · intro sized T hr
    cases hsized.symm.trans hr.sizing
    exact ⟨by decide, by decide, List.pairwise_singleton _ _⟩
  · rintro sized T pz rest hr ⟨⟨tr, hrun, hlast⟩, h0⟩
    cases hsized.symm.trans hr.sizing
    cases hrun with
    | nil =>
      cases hlast
      exact ⟨by decide, fun _ _ hv => absurd hv List.not_mem_nil, fun _ hv => absurd hv List.not_mem_nil⟩
    | cons hs ht =>
      obtain ⟨x, back, heq, _, hsearch, rfl⟩ := hs
      cases heq
      cases hsearch
      cases Available.reach_placed ⟨_, ht, hlast⟩ (by decide)
      exact absurd h0 (by decide)

/-- In 6000 blocks from 1 MiB on, an entry at 3 MiB ends behind the last full MiB: the space
behind it wraps, and the entry placed there fails the final assert. -/
theorem auto_placement_unaligned_tail :
    ¬ (Available.of ⟨true, true, true, 512⟩ 2048 6000 512).PlacesSafely
      [PartInfo.new [] ⟨0, 0⟩ 0 60, PartInfo.new [] ⟨0, 0⟩ 0x300000 50] := by
  intro h
  have hr : (Available.of ⟨true, true, true, 512⟩ 2048 6000 512).Reaches
      [PartInfo.new [] ⟨0, 0⟩ 0 60, PartInfo.new [] ⟨0, 0⟩ 0x300000 50]
      [PartInfo.new [] ⟨0, 0⟩ 0 0x200000, PartInfo.new [] ⟨0, 0⟩ 0x300000 0xee000] 6000 :=
    ⟨by decide, by decide, rfl, by decide⟩
  have hassign : (Available.of ⟨true, true, true, 512⟩ 2048 6000 512).assignLoop 3
      (sortList [(PartInfo.new [] ⟨0, 0⟩ 0 0x200000, 0), (PartInfo.new [] ⟨0, 0⟩ 0x300000 0xee000, 1)]) =
    some (none, [(PartInfo.new [] ⟨0, 0⟩ 0x300000 0xee000, 1), (PartInfo.new [] ⟨0, 0⟩ 0x400000 0x200000, 0)]) := rfl
  exact h.assertion (hr.aborted hassign rfl (by decide))

end DiskStorage
