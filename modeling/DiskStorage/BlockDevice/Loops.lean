import DiskStorage.BlockDevice.View

/-! The sector loops of read, write, erase and flush over any number of chunks. -/
namespace DiskStorage
variable {k : Nat} {f : Faults k}

theorem among_self {c : Nat → Sector k} {cs : List (Nat → Sector k)} (h : c ∈ cs) : Among cs c :=
  fun _ => ⟨c, h, rfl⟩

theorem Among.trans {cs cs' : List (Nat → Sector k)} {c : Nat → Sector k} (h : Among cs c)
    (hcs : ∀ c' ∈ cs, Among cs' c') : Among cs' c := by
  intro s
  obtain ⟨c', hc', he⟩ := h s
  obtain ⟨c'', hc'', he'⟩ := hcs c' hc' s
  exact ⟨c'', hc'', he.trans he'⟩

theorem Among.mono {cs cs' : List (Nat → Sector k)} {c : Nat → Sector k} (h : Among cs c) (hcs : cs ⊆ cs') :
    Among cs' c := h.trans fun _ hc' => among_self (hcs hc')

namespace BufferList

theorem sector_valid {s offset size : Nat} (h : s * 2 ^ k + offset + size ≤ Buffer.invalid * 2 ^ k)
    (hsize : size ≠ 0) : s < Buffer.invalid := by
  by_contra hs
  have := Nat.mul_le_mul_right (2 ^ k) (Nat.le_of_not_lt hs)
  omega

theorem rest_in_range {s size : Nat} {offset : Fin (2 ^ k)} (h : s * 2 ^ k + offset + size ≤ Buffer.invalid * 2 ^ k)
    (hsize : size ≠ 0) : (s + 1) * 2 ^ k + 0 + (size - min size (2 ^ k - offset)) ≤ Buffer.invalid * 2 ^ k := by
  have hend : (s + 1) * 2 ^ k ≤ Buffer.invalid * 2 ^ k := Nat.mul_le_mul_right _ (sector_valid h hsize)
  have hsucc : (s + 1) * 2 ^ k = s * 2 ^ k + 2 ^ k := Nat.succ_mul ..
  have hoffset := offset.isLt
  omega

/-- A loop of reads changes nothing to see and copies out what is seen. -/
theorem readLoop_spec {size : Nat} {bl bl' : BufferList k} {m m' : Medium k} {s : Nat} {offset : Fin (2 ^ k)}
    {res : Option (List UInt8)} (hc : bl.Coherent m.sectors)
    (hr : s * 2 ^ k + offset + size ≤ Buffer.invalid * 2 ^ k)
    (h : readLoop f bl m s offset size = (res, bl', m')) :
    bl'.Coherent m'.sectors ∧ bl'.view m'.sectors = bl.view m.sectors ∧
      (∀ dst, res = some dst → dst = ByteStore.slice (Sector.flat (bl.view m.sectors)) (s * 2 ^ k + offset) size) ∧
      m.Evolves (Among [m.sectors, bl.view m.sectors]) m' := by
  induction size using Nat.strong_induction_on generalizing bl bl' m m' s offset res with
  | _ size ih =>
    rw [readLoop] at h
    split at h
    · rename_i hz
      subst hz
      cases h
      exact ⟨hc, rfl, fun dst hd => (Option.some.inj hd).symm, .refl⟩
    · rename_i hz
      have hs := sector_valid hr hz
      have ho := offset.isLt
      dsimp only at h
      split at h
      · rename_i buf m₁ hret
        cases h
        obtain ⟨hco, hv, hev⟩ := retarget_failed hc hret
        exact ⟨hco, hv, (by simp), hev⟩
      · rename_i buf m₁ hret
        obtain ⟨_, hfill, hev⟩ := retarget_ready hc hs hret
        obtain ⟨hco, hv, hdata⟩ := hfill rfl
        have hsucc : (s + 1) * 2 ^ k = s * 2 ^ k + 2 ^ k := Nat.succ_mul ..
        have hzero : ((⟨0, Nat.two_pow_pos k⟩ : Fin (2 ^ k)) : Nat) = 0 := rfl
        have htail : ∀ {res bl' m'}, readLoop f (bl.put (bl.slot s) buf) m₁ (s + 1) ⟨0, Nat.two_pow_pos k⟩
            (size - min size (2 ^ k - offset)) = (res, bl', m') → _ := fun h' =>
          ih (size - min size (2 ^ k - offset)) (by omega) hco (rest_in_range hr hz) h'
        have hevs : ∀ {m' : Medium k}, m₁.Evolves (Among [m₁.sectors, bl.view m.sectors]) m' →
            m.Evolves (Among [m.sectors, bl.view m.sectors]) m' := fun h' =>
          hev.trans (h'.mono fun c hcs => hcs.trans (by
            intro c' hc'
            rcases List.mem_pair.mp hc' with rfl | rfl
            · exact hev.current (among_self (by simp))
            · exact among_self (by simp)))
        split at h
        · rename_i hrest
          cases h
          obtain ⟨hco', hv', _, hev'⟩ := htail hrest
          exact ⟨hco', hv'.trans hv, (by simp), hevs (hv ▸ hev')⟩
        · rename_i dst bl₂ m₂ hrest
          cases h
          obtain ⟨hco', hv', hd, hev'⟩ := htail hrest
          refine ⟨hco', hv'.trans hv, ?_, hevs (hv ▸ hev')⟩
          intro dst' hdst
          obtain rfl := Option.some.inj hdst
          rw [hd dst rfl, hv, hdata, Sector.slice_byte _ _ _ _ (by omega)]
          -- either this chunk ends its sector, or it is the last one
          rcases Nat.le_total size (2 ^ k - offset) with hle | hle
          · simp [Nat.min_eq_left hle]
          · have hsum : size = (2 ^ k - offset) + (size - (2 ^ k - offset)) := by omega
            rw [Nat.min_eq_right hle]
            conv_rhs => rw [hsum, ByteStore.slice_add]
            rw [show s * 2 ^ k + offset.val + (2 ^ k - offset.val) = (s + 1) * 2 ^ k + 0 by omega]

/-- A loop of writes puts a prefix of the source in place; all of it on success, and
otherwise one that ends on a sector boundary. -/
theorem writeLoop_spec {src : List UInt8} {bl bl' : BufferList k} {m m' : Medium k} {s : Nat}
    {offset : Fin (2 ^ k)} {res : Bool} (hc : bl.Coherent m.sectors)
    (hr : s * 2 ^ k + offset + src.length ≤ Buffer.invalid * 2 ^ k)
    (h : writeLoop f bl m s offset src = (res, bl', m')) :
    bl'.Coherent m'.sectors ∧
      (∃ n ≤ src.length, (res = true → n = src.length) ∧
        (res = false → n = 0 ∨ (s * 2 ^ k + offset + n) % 2 ^ k = 0) ∧
        Sector.flat (bl'.view m'.sectors) =
          ByteStore.patch (Sector.flat (bl.view m.sectors)) (s * 2 ^ k + offset) (src.take n)) ∧
      m.Evolves (Among [m.sectors, bl.view m.sectors, bl'.view m'.sectors]) m' := by
  induction hlen : src.length using Nat.strong_induction_on generalizing bl m s offset src with
  | _ len ih =>
    subst hlen
    rw [writeLoop] at h
    split at h
    · rename_i hz
      cases h
      exact ⟨hc, ⟨0, Nat.zero_le _, fun _ => hz.symm, fun _ => .inl rfl, by simp⟩, .refl⟩
    · rename_i hz
      have hs := sector_valid hr hz
      have ho := offset.isLt
      generalize hn : min src.length (2 ^ k - offset) = n at h
      dsimp only at h
      split at h
      · rename_i buf m₁ hret
        cases h
        obtain ⟨hco, hv, hev⟩ := retarget_failed hc hret
        refine ⟨hco, ⟨0, Nat.zero_le _, fun hf => absurd hf (by decide), fun _ => .inl rfl, by simp [hv]⟩, ?_⟩
        exact hev.mono fun c hcs => hcs.mono fun c' hc' => List.mem_append_left [_] hc'
      · rename_i buf m₁ hret
        obtain ⟨hready, hfill, hev⟩ := retarget_ready hc hs hret
        have hnext : (s + 1) * 2 ^ k = s * 2 ^ k + 2 ^ k := Nat.succ_mul ..
        have hend : (s + 1) * 2 ^ k ≤ Buffer.invalid * 2 ^ k := Nat.mul_le_mul_right _ hs
        have hzero : ((⟨0, Nat.two_pow_pos k⟩ : Fin (2 ^ k)) : Nat) = 0 := rfl
        have htake : (src.take n).length = n := by rw [List.length_take]; omega
        have hdrop : (src.drop n).length = src.length - n := List.length_drop
        -- the buffer's old bytes show through only where the chunk is partial, and then they were read
        have hdata : buf.data.splice offset (src.take n) = (bl.view m.sectors s).splice offset (src.take n) := by
          cases hb : (offset.val != 0 || n != 2 ^ k) with
          | true => rw [(hfill hb).2.2]
          | false =>
            simp only [Bool.or_eq_false_iff, bne_eq_false_iff_eq] at hb
            rw [hb.1]
            exact Sector.splice_full _ _ _ (htake.trans hb.2)
        obtain ⟨hco, hv⟩ := hready (buf.data.splice offset (src.take n))
        have hflat : Sector.flat ((bl.put (bl.slot s) ⟨buf.sector, true, buf.data.splice offset (src.take n)⟩).view
            m₁.sectors) = ByteStore.patch (Sector.flat (bl.view m.sectors)) (s * 2 ^ k + offset) (src.take n) := by
          rw [hv, hdata, Sector.flat_update_splice _ _ _ _ (by omega)]
        obtain ⟨hco', ⟨n', hn', hok, hfail, hv'⟩, hev'⟩ :=
          ih (src.drop n).length (by omega) hco (by omega) h rfl
        have hprefix : Sector.flat (bl'.view m'.sectors) =
            ByteStore.patch (Sector.flat (bl.view m.sectors)) (s * 2 ^ k + offset) (src.take (n + n')) := by
          rw [hv', hflat, List.take_add, ByteStore.patch_append, htake]
          rcases Nat.le_total src.length (2 ^ k - offset) with hle | hle
          · have : n' = 0 := by omega
            simp [this]
          · congr 1
            simp only
            omega
        refine ⟨hco', ⟨n + n', by omega, fun ht => ?_, fun hf => ?_, hprefix⟩, ?_⟩
        · have := hok ht
          omega
        · rcases Nat.le_total src.length (2 ^ k - offset) with hle | hle
          · -- nothing is left after this chunk, so the loop cannot have failed
            rw [writeLoop, dif_pos (by omega)] at h
            cases h
            cases hf
          · rw [show s * 2 ^ k + offset.val + (n + n') = (s + 1) * 2 ^ k + 0 + n' by omega]
            rcases hfail hf with rfl | hb
            · exact .inr (by simp)
            · exact .inr hb
        · -- the sector just written is not touched again, so it is seen as it will be in the end
          have hlater : Among [bl.view m.sectors, bl'.view m'.sectors]
              ((bl.put (bl.slot s) ⟨buf.sector, true, buf.data.splice offset (src.take n)⟩).view m₁.sectors) := by
            intro t
            obtain rfl | hts := eq_or_ne t s
            · refine ⟨bl'.view m'.sectors, by simp, (Sector.flat_ext fun i hi => ?_).symm⟩
              rw [hv', ByteStore.patch_below _ _ (by simp only; omega)]
            · exact ⟨bl.view m.sectors, by simp, by rw [hv, Function.update_of_ne hts]⟩
          have hstart : [m.sectors, bl.view m.sectors] ⊆ [m.sectors, bl.view m.sectors, bl'.view m'.sectors] :=
            fun c hcs => List.mem_append_left [_] hcs
          refine (hev.mono fun c hcs => hcs.mono hstart).trans (hev'.mono fun c hcs => hcs.trans fun c' hc' => ?_)
          simp only [List.mem_cons, List.not_mem_nil, or_false] at hc'
          rcases hc' with rfl | rfl | rfl
          · exact (hev.current (among_self (by simp))).mono hstart
          · exact hlater.mono (List.subset_cons_self ..)
          · exact among_self (by simp)

theorem eraseLoop_eq {size : Nat} {bl : BufferList k} {address : Nat}
    (hown : ∀ i, (bl.list i).sector < Buffer.invalid → bl.slot (bl.list i).sector = i)
    (hr : address + size ≤ Buffer.invalid) :
    ∃ list, eraseLoop bl address size = ⟨bl.bits, list⟩ ∧ ∀ i, list i =
      if address ≤ (bl.list i).sector ∧ (bl.list i).sector < address + size then (bl.list i).clear
      else bl.list i := by
  induction size generalizing bl address with
  | zero => exact ⟨bl.list, rfl, fun i => (if_neg (by omega)).symm⟩
  | succ size ih =>
    rw [eraseLoop]
    split
    · rename_i hhit
      have hput : ∀ j : Fin (2 ^ bl.bits), (bl.put (bl.slot address) (bl.get address).clear).list j =
          if j = bl.slot address then (bl.list j).clear else bl.list j := by
        intro j
        rw [list_put]
        split
        · rename_i hj
          rw [hj]
          rfl
        · rfl
      have hsec : ∀ j : Fin (2 ^ bl.bits), ((bl.put (bl.slot address) (bl.get address).clear).list j).sector =
          (bl.list j).sector := by
        intro j
        rw [hput]
        split <;> rfl
      obtain ⟨list, he, hl⟩ := @ih (bl.put (bl.slot address) (bl.get address).clear) (address + 1)
        (fun (i : Fin (2 ^ bl.bits)) hi => by rw [hsec] at hi ⊢; exact hown i hi) (by omega)
      refine ⟨list, he, fun (i : Fin (2 ^ bl.bits)) => ?_⟩
      rw [hl i, hsec, hput]
      obtain rfl | hi := eq_or_ne i (bl.slot address)
      · have ha : (bl.list (bl.slot address)).sector = address := hhit
        rw [if_pos rfl, if_neg (by omega), if_pos (by omega)]
      · have ha : (bl.list i).sector ≠ address := by
          intro ha
          exact hi (by rw [← ha, hown i (by omega)])
        rw [if_neg hi]
        split <;> split <;> first | rfl | omega
    · rename_i hmiss
      obtain ⟨list, he, hl⟩ := @ih bl (address + 1) hown (by omega)
      refine ⟨list, he, fun i => ?_⟩
      have ha : (bl.list i).sector ≠ address := by
        intro ha
        have := hown i (by omega)
        rw [ha] at this
        exact hmiss (by rw [get, this, ha])
      rw [hl i]
      split <;> split <;> first | rfl | omega

/-- Clearing the erased sectors on the medium and in the buffers clears what is seen of them. -/
theorem eraseLoop_spec {size : Nat} {bl : BufferList k} {address : Nat} {sectors : Nat → Sector k}
    (hc : bl.Coherent sectors) (hr : address + size ≤ Buffer.invalid) :
    (eraseLoop bl address size).Coherent
        (fun s => if address ≤ s ∧ s < address + size then Sector.zero else sectors s) ∧
      (eraseLoop bl address size).view
          (fun s => if address ≤ s ∧ s < address + size then Sector.zero else sectors s) =
        fun s => if address ≤ s ∧ s < address + size then Sector.zero else bl.view sectors s := by
  have hown : ∀ i, (bl.list i).sector < Buffer.invalid → bl.slot (bl.list i).sector = i :=
    fun i hi => hc.own i _ (Buffer.tag_of_valid hi)
  obtain ⟨list, he, hl⟩ := eraseLoop_eq hown hr
  rw [he]
  refine WriteBack.Coherent.erase (S := fun s => address ≤ s ∧ s < address + size) hc (fun _ => rfl) ?_ ?_
  · intro i s hs hS
    obtain ⟨rfl, _⟩ := Buffer.tag_eq_some.mp hs
    have ht : (bl.list i).tag = some (bl.list i).sector := Buffer.tag_of_valid (by omega)
    simp only [lines, hl i, if_pos hS]
    exact congrArg (fun t => (⟨t, false, Sector.zero⟩ : WriteBack.Line Nat (Sector k))) ht
  · intro i hi
    have hne : ¬ (address ≤ (bl.list i).sector ∧ (bl.list i).sector < address + size) := fun hS =>
      hi _ (Buffer.tag_of_valid (by omega)) hS
    simp only [lines, hl i, if_neg hne]

/-- Flushing buffers one by one, going on after a failure, changes nothing to see; if none
failed they are all clean. -/
theorem flushLoop_spec {idx : List Nat} {bl bl' : BufferList k} {m m' : Medium k} {res res' : Bool}
    (hc : bl.Coherent m.sectors) (h : flushLoop f idx res bl m = (res', bl', m')) :
    bl'.Coherent m'.sectors ∧ bl'.view m'.sectors = bl.view m.sectors ∧
      m.Evolves (Among [m.sectors, bl.view m.sectors]) m' ∧
      ∃ list, bl' = ⟨bl.bits, list⟩ ∧ (res' = true → res = true ∧
        ∀ j, ((bl.list j).dirty = false ∨ ∃ i ∈ idx, bl.slot i = j) → (list j).dirty = false) := by
  induction idx generalizing bl m res with
  | nil =>
    cases h
    exact ⟨hc, rfl, .refl, bl'.list, rfl, fun hr => ⟨hr, fun j hj => hj.elim id (by simp)⟩⟩
  | cons i idx ih =>
    rw [flushLoop] at h
    split at h
    rename_i r buf m₁ hfl
    obtain ⟨hco, hv, hcl, _, _, hev⟩ := flush_spec hc hfl
    obtain ⟨hco', hv', hev', list, he, hres⟩ := ih hco h
    refine ⟨hco', hv'.trans hv, hev.trans (hev'.mono fun c hcs => hcs.trans ?_), list, he, fun ht => ?_⟩
    · intro c' hc'
      rcases List.mem_pair.mp hc' with rfl | rfl
      · exact hev.current (among_self (by simp))
      · exact hv ▸ among_self (by simp)
    · obtain ⟨hrr, hclean⟩ := hres ht
      rw [Bool.and_eq_true] at hrr
      refine ⟨hrr.1, fun j hj => hclean j ?_⟩
      rw [list_put]
      obtain rfl | hji := eq_or_ne j (bl.slot i)
      · exact .inl (by rw [if_pos rfl]; exact hcl hrr.2)
      · rw [if_neg hji]
        rcases hj with hj | ⟨i', hi', rfl⟩
        · exact .inl hj
        · rcases List.mem_cons.mp hi' with rfl | hi'
          · exact absurd rfl hji
          · exact .inr ⟨i', hi', rfl⟩

end BufferList

end DiskStorage
