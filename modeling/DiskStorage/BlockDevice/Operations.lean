import DiskStorage.BlockDevice.Loops

/-! What each public operation of a block device does to the content seen through its
buffers, and which contents the medium takes on meanwhile. -/
namespace DiskStorage
variable {k : Nat}

namespace Sector

theorem flat_window (m g : Nat → Sector k) (address size : Nat) :
    flat (fun s => if address ≤ s ∧ s < address + size then g (s - address) else m s) =
      ByteStore.patch (flat m) (address * 2 ^ k) (ByteStore.slice (flat g) 0 (size * 2 ^ k)) := by
  funext a
  obtain ⟨q, r, rfl, hr⟩ := exists_address k a
  rw [flat_apply _ _ hr]
  rcases Nat.lt_or_ge q address with hlt | hge
  · have := Nat.mul_le_mul_right (2 ^ k) (Nat.succ_le_of_lt hlt)
    rw [Nat.succ_mul] at this
    rw [ByteStore.patch_below _ _ (by omega), flat_apply _ _ hr, if_neg (by omega)]
  · obtain ⟨j, rfl⟩ := Nat.exists_eq_add_of_le hge
    rcases Nat.lt_or_ge j size with hj | hj
    · have := Nat.mul_le_mul_right (2 ^ k) (Nat.succ_le_of_lt hj)
      rw [Nat.succ_mul] at this
      have hi : j * 2 ^ k + r < (ByteStore.slice (flat g) 0 (size * 2 ^ k)).length := by
        rw [ByteStore.slice_length]
        omega
      rw [Nat.add_mul, Nat.add_assoc, ByteStore.patch_inside _ _ _ hi, ByteStore.getElem_slice, Nat.zero_add,
        flat_apply _ _ hr, if_pos (by omega), Nat.add_sub_cancel_left]
    · have := Nat.mul_le_mul_right (2 ^ k) hj
      rw [ByteStore.patch_above _ _ (by rw [ByteStore.slice_length, Nat.add_mul]; omega), flat_apply _ _ hr,
        if_neg (by omega)]

theorem flat_shift (m : Nat → Sector k) (s i : Nat) :
    flat (fun j => m (s + j)) i = flat m (s * 2 ^ k + i) := by
  obtain ⟨q, r, rfl, hr⟩ := exists_address k i
  rw [flat_apply _ _ hr, ← Nat.add_assoc, ← Nat.add_mul, flat_apply _ _ hr]

theorem slice_ofBytes (src : List UInt8) :
    ByteStore.slice (flat (ofBytes (k := k) src)) 0 src.length = src := by
  apply List.ext_getElem (by simp)
  intro i hi _
  rw [ByteStore.slice_length] at hi
  rw [ByteStore.getElem_slice, Nat.zero_add, flat, byte, ofBytes]
  simp only
  rw [Nat.mul_comm, Nat.div_add_mod, List.getD_eq_getElem?_getD, List.getElem?_eq_getElem hi, Option.getD_some]

theorem slice_zero (n : Nat) :
    ByteStore.slice (flat fun _ : Nat => (zero : Sector k)) 0 n = List.replicate n 0 := by
  apply List.ext_getElem (by simp)
  intro i _ _
  rw [ByteStore.getElem_slice, List.getElem_replicate]
  rfl

end Sector

namespace BlockDevice

/-- The content seen through the buffers, when there are any. -/
def seen (d : BlockDevice k) : Nat → Sector k :=
  match d.buffers with
  | none => d.medium.sectors
  | some bl => bl.view d.medium.sectors

def Coherent (d : BlockDevice k) : Prop := ∀ bl, d.buffers = some bl → bl.Coherent d.medium.sectors

def NoneDirty (d : BlockDevice k) : Prop := ∀ bl, d.buffers = some bl → ∀ i, (bl.list i).dirty = false

variable {d d' : BlockDevice k}

theorem seen_unbuffered (h : d.buffers = none) (m : Medium k) :
    ({ d with medium := m } : BlockDevice k).seen = m.sectors := by simp [seen, h]

theorem seen_buffered {bl : BufferList k} (h : d.buffers = some bl) : d.seen = bl.view d.medium.sectors := by
  simp [seen, h]

theorem coherent_unbuffered (h : d.buffers = none) (m : Medium k) :
    ({ d with medium := m } : BlockDevice k).Coherent := by
  intro bl hbl
  rw [show ({ d with medium := m } : BlockDevice k).buffers = none from h] at hbl
  cases hbl

theorem seen_of_noneDirty (hc : d.Coherent) (h : d.NoneDirty) : d.seen = d.medium.sectors := by
  unfold seen
  split
  · rfl
  · rename_i bl hb
    exact WriteBack.Coherent.view_of_clean (hc bl hb) (h bl hb)

/-- What an operation leaves: the device as large and as faulty as before, its buffers
coherent, and the medium moved only through what was or will be seen. -/
structure Kept (d d' : BlockDevice k) : Prop where
  size : d'.sectorCount = d.sectorCount
  faults : d'.faults = d.faults
  coherent : d'.Coherent
  evolves : d.medium.Evolves (Among [d.medium.sectors, d.seen, d'.seen]) d'.medium

private theorem aligned_iff {address size : Nat} :
    aligned (k := k) address size = true ↔ address % 2 ^ k = 0 ∧ size % 2 ^ k = 0 := by
  simp [aligned]

private theorem address_eq (address : Nat) : address / 2 ^ k * 2 ^ k + address % 2 ^ k = address := by
  rw [Nat.mul_comm, Nat.div_add_mod]

private theorem address_eq_of_aligned {address : Nat} (h : address % 2 ^ k = 0) :
    address / 2 ^ k * 2 ^ k = address := Nat.div_mul_cancel (Nat.dvd_of_mod_eq_zero h)

theorem read_spec {address size : Nat} {dst : Option (List UInt8)} (hc : d.Coherent)
    (hr : address + size ≤ Buffer.invalid * 2 ^ k) (h : d.read address size = (dst, d')) :
    d.Kept d' ∧ d'.seen = d.seen ∧
      ∀ bytes, dst = some bytes → bytes = ByteStore.slice (Sector.flat d.seen) address size := by
  unfold read at h
  split at h
  · rename_i hb
    have hs : d.seen = d.medium.sectors := seen_unbuffered hb d.medium
    split at h
    · rename_i hal
      split at h
      rename_i dst m he
      obtain ⟨rfl, rfl | rfl⟩ := rawSectorRead_cases he
      · cases h
        exact ⟨⟨rfl, rfl, coherent_unbuffered hb _, Medium.evolves_tick⟩, (seen_unbuffered hb _).trans hs.symm, by simp⟩
      · cases h
        refine ⟨⟨rfl, rfl, coherent_unbuffered hb _, Medium.evolves_tick⟩, (seen_unbuffered hb _).trans hs.symm,
          fun bytes hbytes => ?_⟩
        obtain rfl := Option.some.inj hbytes
        -- the sectors read are the addressed ones, seen from their first byte
        apply List.ext_getElem (by simp)
        intro i hi _
        have ha := address_eq_of_aligned (k := k) (aligned_iff.mp hal).1
        rw [ByteStore.getElem_slice, ByteStore.getElem_slice, hs, Nat.zero_add, Sector.flat_shift, ha]
    · cases h
      exact ⟨⟨rfl, rfl, hc, .refl⟩, rfl, by simp⟩
  · rename_i bl hb
    split at h
    rename_i dst bl' m hloop
    cases h
    have ha := address_eq (k := k) address
    obtain ⟨hco, hv, hd, hev⟩ := BufferList.readLoop_spec (hc bl hb) (by simp only; omega) hloop
    have hs := seen_buffered hb
    refine ⟨⟨rfl, rfl, fun b hb' => ?_, hev.mono fun c hcs => ?_⟩, ?_, fun bytes hbytes => ?_⟩
    · cases hb'
      exact hco
    · rw [hs]
      exact hcs.mono fun c' hc' => List.mem_append_left [_] hc'
    · rw [hs, ← hv]
      rfl
    · rw [hd bytes hbytes, hs]
      simp only [ha]

theorem write_spec {address : Nat} {src : List UInt8} {ok : Bool} (hc : d.Coherent)
    (hr : address + src.length ≤ Buffer.invalid * 2 ^ k) (h : d.write address src = (ok, d')) :
    d.Kept d' ∧ ∃ n ≤ src.length, (ok = true → n = src.length) ∧
      (ok = false → n = 0 ∨ (address + n) % 2 ^ k = 0) ∧
      Sector.flat d'.seen = ByteStore.patch (Sector.flat d.seen) address (src.take n) := by
  unfold write at h
  split at h
  · rename_i hb
    have hs : d.seen = d.medium.sectors := seen_unbuffered hb d.medium
    split at h
    · rename_i hal
      obtain ⟨haddr, hlen⟩ := aligned_iff.mp hal
      split at h
      rename_i r m he
      obtain ⟨rfl, rfl⟩ | ⟨rfl, rfl⟩ := rawSectorWrite_cases he
      · cases h
        refine ⟨⟨rfl, rfl, coherent_unbuffered hb _, Medium.evolves_tick⟩, 0, Nat.zero_le _,
          fun hf => absurd hf (by decide), fun _ => .inl rfl, ?_⟩
        rw [hs, seen_unbuffered hb]
        simp [Medium.tick]
      · cases h
        refine ⟨⟨rfl, rfl, coherent_unbuffered hb _, Medium.evolves_become (among_self ?_)⟩, src.length, le_rfl,
          fun _ => rfl, fun hf => absurd hf (by decide), ?_⟩
        · rw [seen_unbuffered hb (d.medium.become _)]
          exact List.mem_cons_of_mem _ (List.mem_cons_of_mem _ (List.mem_singleton_self _))
        · rw [hs, seen_unbuffered hb, Medium.become, Sector.flat_window, address_eq_of_aligned haddr,
            address_eq_of_aligned hlen, Sector.slice_ofBytes, List.take_length]
    · cases h
      exact ⟨⟨rfl, rfl, hc, .refl⟩, 0, Nat.zero_le _, fun hf => absurd hf (by decide), fun _ => .inl rfl, by simp⟩
  · rename_i bl hb
    split at h
    rename_i ok bl' m hloop
    cases h
    have ha := address_eq (k := k) address
    obtain ⟨hco, ⟨n, hn, hok, hfail, hv⟩, hev⟩ := BufferList.writeLoop_spec (hc bl hb) (by simp only; omega) hloop
    have hs := seen_buffered hb
    refine ⟨⟨rfl, rfl, fun b hb' => ?_, ?_⟩, n, hn, hok, fun hf => ?_, ?_⟩
    · cases hb'
      exact hco
    · rw [hs]
      exact hev
    · simpa only [ha] using hfail hf
    · rw [hs]
      simp only [ha] at hv
      exact hv

theorem eraseRange_spec {address size : Nat} {ok : Bool} (hc : d.Coherent)
    (hr : address + size ≤ Buffer.invalid * 2 ^ k) (h : d.eraseRange address size = (ok, d')) :
    d.Kept d' ∧ (ok = false → d'.seen = d.seen) ∧
      (ok = true → address % 2 ^ k = 0 ∧ size % 2 ^ k = 0 ∧
        Sector.flat d'.seen = ByteStore.patch (Sector.flat d.seen) address (List.replicate size 0)) := by
  unfold eraseRange at h
  split at h
  · rename_i hal
    obtain ⟨haddr, hsize⟩ := aligned_iff.mp hal
    split at h
    · rename_i m hfail
      obtain ⟨_, rfl⟩ | ⟨hf, _⟩ := rawSectorEraseRange_cases hfail
      · cases h
        exact ⟨⟨rfl, rfl, hc, Medium.evolves_tick⟩, fun _ => rfl, fun hf => absurd hf (by decide)⟩
      · cases hf
    · rename_i m hok
      obtain ⟨hf, _⟩ | ⟨_, rfl⟩ := rawSectorEraseRange_cases hok
      · cases hf
      cases h
      have hend : address / 2 ^ k + size / 2 ^ k ≤ Buffer.invalid := by
        have ha := address_eq_of_aligned haddr
        have hs := address_eq_of_aligned hsize
        exact Nat.le_of_mul_le_mul_right (by rw [Nat.add_mul]; omega) (Nat.two_pow_pos k)
      have hflat : ∀ m : Nat → Sector k,
        Sector.flat (fun s => if address / 2 ^ k ≤ s ∧ s < address / 2 ^ k + size / 2 ^ k
          then Sector.zero else m s) = ByteStore.patch (Sector.flat m) address (List.replicate size 0) := by
        intro m
        rw [Sector.flat_window m (fun _ => Sector.zero), address_eq_of_aligned haddr, address_eq_of_aligned hsize,
          Sector.slice_zero]
      rcases hb : d.buffers with _ | bl
      · have hs : d.seen = d.medium.sectors := seen_unbuffered hb d.medium
        refine ⟨⟨rfl, rfl, fun bl hbl => by simp at hbl, Medium.evolves_become (among_self ?_)⟩,
          fun hf => absurd hf (by decide), fun _ => ⟨haddr, hsize, ?_⟩⟩
        · simp [seen, Medium.become]
        · rw [hs]
          exact hflat _
      · have hs := seen_buffered hb
        obtain ⟨hco, hv⟩ := BufferList.eraseLoop_spec (hc bl hb) hend
        refine ⟨⟨rfl, rfl, fun bl' hbl => ?_, Medium.evolves_become ?_⟩,
          fun hf => absurd hf (by decide), fun _ => ⟨haddr, hsize, ?_⟩⟩
        · cases hbl
          exact hco
        · -- an erased sector shows its end state, every other one its old content
          intro s
          simp only
          split
          · rename_i hin
            refine ⟨_, List.mem_cons_of_mem _ (List.mem_cons_of_mem _ (List.mem_singleton_self _)), ?_⟩
            simp only [seen, Option.map_some, Medium.become]
            rw [hv]
            exact (if_pos hin).symm
          · exact ⟨d.medium.sectors, by simp, rfl⟩
        · rw [hs, ← hflat, ← hv]
          rfl
  · cases h
    exact ⟨⟨rfl, rfl, hc, .refl⟩, fun _ => rfl, fun hf => absurd hf (by decide)⟩

theorem flushBuffers_spec {ok : Bool} (hc : d.Coherent) (h : d.flushBuffers = (ok, d')) :
    d.Kept d' ∧ d'.seen = d.seen ∧ (ok = true → d'.NoneDirty) := by
  unfold flushBuffers at h
  split at h
  · rename_i hb
    cases h
    exact ⟨⟨rfl, rfl, hc, .refl⟩, rfl, fun _ bl hbl => by rw [hb] at hbl; cases hbl⟩
  · rename_i bl hb
    split at h
    rename_i res bl' m hloop
    cases h
    obtain ⟨hco, hv, hev, list, rfl, hclean⟩ := BufferList.flushLoop_spec (hc bl hb) hloop
    have hs := seen_buffered hb
    refine ⟨⟨rfl, rfl, fun b hb' => ?_, ?_⟩, ?_, fun hok b hb' i => ?_⟩
    · cases hb'
      exact hco
    · rw [hs]
      exact hev.mono fun c hcs => hcs.mono fun c' hc' => List.mem_append_left [_] hc'
    · rw [hs, ← hv]
      rfl
    · cases hb'
      have hi : i.val ∈ List.range bl.size := List.mem_range.mpr i.isLt
      exact (hclean hok).2 i (.inr ⟨i.val, hi, Fin.ext (Nat.mod_eq_of_lt i.isLt)⟩)

private theorem kept_rebuffer (hk : d.Kept d') (hs : d'.seen = d.seen) (hclean : d'.NoneDirty)
    {buffers : Option (BufferList k)}
    (hb : ∀ bl, buffers = some bl → bl.Coherent d'.medium.sectors ∧ bl.view d'.medium.sectors = d'.medium.sectors) :
    d.Kept { d' with buffers := buffers } ∧ ({ d' with buffers := buffers } : BlockDevice k).seen = d.seen := by
  have hseen : ({ d' with buffers := buffers } : BlockDevice k).seen = d.seen := by
    rw [← hs, seen_of_noneDirty hk.coherent hclean]
    cases buffers with
    | none => rfl
    | some bl => exact (hb bl rfl).2
  refine ⟨⟨hk.size, hk.faults, fun bl hbl => (hb bl hbl).1, ?_⟩, hseen⟩
  rw [hseen, ← hs]
  have hev := hk.evolves
  rwa [hs] at hev ⊢

theorem allocateBuffers_spec {numBuffers : Nat} {memory : Option (Nat → Sector k)} {ok : Bool} (hc : d.Coherent)
    (h : d.allocateBuffers numBuffers memory = (ok, d')) : d.Kept d' ∧ d'.seen = d.seen := by
  unfold allocateBuffers at h
  split at h
  · rename_i d₁ hfl
    cases h
    obtain ⟨hk, hs, _⟩ := flushBuffers_spec hc hfl
    exact ⟨hk, hs⟩
  · rename_i d₁ hfl
    obtain ⟨hk, hs, hclean⟩ := flushBuffers_spec hc hfl
    have hnone : d.Kept { d₁ with buffers := none } ∧ ({ d₁ with buffers := none } : BlockDevice k).seen = d.seen :=
      kept_rebuffer hk hs (hclean rfl) (by simp)
    split at h
    · cases h
      exact hnone
    · split at h
      · cases h
        exact hnone
      · rename_i memory
        split at h
        · cases h
          apply kept_rebuffer hk hs (hclean rfl)
          intro bl hbl
          cases hbl
          exact BufferList.coherent_new _ _ _
        · cases h
          exact hnone

theorem sync_spec {ok : Bool} (hc : d.Coherent) (h : d.sync = (ok, d')) :
    d.Kept d' ∧ d'.seen = d.seen ∧ (ok = true → d'.NoneDirty) := by
  unfold sync at h
  split at h
  · rename_i d₁ hfl
    cases h
    obtain ⟨hk, hs, _⟩ := flushBuffers_spec hc hfl
    exact ⟨hk, hs, fun hf => absurd hf (by decide)⟩
  · rename_i d₁ hfl
    cases h
    obtain ⟨hk, hs, hclean⟩ := flushBuffers_spec hc hfl
    exact ⟨⟨hk.size, hk.faults, hk.coherent, hk.evolves.trans Medium.evolves_tick⟩, hs, fun _ => hclean rfl⟩

end BlockDevice

end DiskStorage
