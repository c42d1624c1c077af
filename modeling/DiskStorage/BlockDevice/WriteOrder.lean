import DiskStorage.BlockDevice.Progress

/-! The order in which whole sectors that have been written reach the medium. With one buffer at
most it is the order of the writes. -/
namespace DiskStorage
open Runs
variable {k : Nat}

theorem Medium.since_eq {m m' : Medium k} {new : List (Nat → Sector k)} (h : m'.contents = new ++ m.contents) :
    since m m' = new ++ [m.sectors] := by
  have hsplit : m'.contents = (new ++ [m.sectors]) ++ m.past := by
    rw [h, contents, List.append_assoc, List.singleton_append]
  have hlen : m'.contents.length - m.past.length = (new ++ [m.sectors]).length := by
    rw [hsplit, List.length_append, Nat.add_sub_cancel]
  rw [since, hlen, hsplit, List.take_left]

theorem Medium.since_mono {m m₁ m' : Medium k} {P Q : (Nat → Sector k) → Prop} {c : Nat → Sector k}
    (h : m.Evolves P m₁) (h₁ : m₁.Evolves Q m') (hc : c ∈ since m₁ m') : c ∈ since m m' := by
  obtain ⟨old, hold, _⟩ := h
  obtain ⟨new, hnew, _⟩ := h₁
  rw [since_eq hnew] at hc
  have hall : m'.contents = (new ++ old) ++ m.contents := by rw [hnew, hold, List.append_assoc]
  rw [since_eq hall, List.append_assoc]
  refine (List.mem_append.mp hc).elim (List.mem_append_left _) fun hlast => List.mem_append_right _ ?_
  rw [List.mem_singleton.mp hlast]
  -- the content at the second moment is one since the first
  cases old with
  | nil =>
    rw [List.nil_append, (List.cons.inj hold).1]
    exact List.mem_singleton_self _
  | cons c old =>
    rw [show m₁.sectors = c from (List.cons.inj hold).1]
    exact List.mem_cons_self

/-- From a synced device on, a sector of the medium changes only when it is written or erased. -/
theorem synced_untouched {sectorCount : Nat} (hcount : sectorCount ≤ 2 ^ 32 - 1) {d : BlockDevice k}
    (hs : Sound sectorCount d) (hsynced : d.medium.sectors = d.logicalSector)
    {tr : List ((Op k × Outcome) × BlockDevice k)} (run : Runs.Run deviceStep d tr)
    (hin : ∀ e ∈ tr, e.1.1.InRange sectorCount) {s : Nat} (hun : ∀ e ∈ tr, ¬ e.1.1.Touches s)
    {c : Nat → Sector k} (hc : c ∈ Medium.since d.medium (Runs.last d tr).medium) : c s = d.medium.sectors s := by
  rcases (run_evolves hcount hs run hin).mem_since hc with hc | rfl
  · obtain ⟨c', hc', he⟩ := hc s
    rcases List.mem_cons.mp hc' with rfl | hc'
    · exact he
    · obtain ⟨d', hd', rfl⟩ := List.mem_map.mp hc'
      rw [he, run_untouched hcount hs run hin hun d' hd', hsynced]
  · rfl

namespace BlockDevice
variable {d d' : BlockDevice k} {bl : BufferList k} {s : Nat} {src : List UInt8} {ok : Bool}

theorem write_sector (hb : d.buffers = some bl) (hlen : src.length = 2 ^ k) :
    d.write (s * 2 ^ k) src =
      match retarget d.faults (bl.get s) d.medium s false with
      | (false, buf, m) => (false, { d with medium := m, buffers := some (bl.put (bl.slot s) buf) })
      | (true, buf, m) => (true, { d with
          medium := m
          buffers := some (bl.put (bl.slot s) { buf with data := buf.data.splice 0 src, dirty := true }) }) := by
  have hpos := Nat.two_pow_pos k
  have hdiv : s * 2 ^ k / 2 ^ k = s := Nat.mul_div_cancel s hpos
  have hmod : (⟨s * 2 ^ k % 2 ^ k, Nat.mod_lt _ hpos⟩ : Fin (2 ^ k)) = ⟨0, hpos⟩ := Fin.ext (Nat.mul_mod_left ..)
  have hmin : min (2 ^ k) (2 ^ k - 0) = 2 ^ k := Nat.min_self _
  have hfill : ((0 : Nat) != 0 || 2 ^ k != 2 ^ k) = false := by simp
  have htake : src.take (2 ^ k) = src := List.take_of_length_le hlen.le
  have hdrop : src.drop (2 ^ k) = [] := List.drop_of_length_le hlen.le
  rw [write, hb]
  dsimp only
  rw [hdiv, hmod, writeLoop, dif_neg (by omega), hlen]
  dsimp only
  rw [hmin, hfill, htake, hdrop]
  rcases retarget d.faults (bl.get s) d.medium s false with ⟨r, buf, m⟩
  cases r with
  | false => rfl
  | true =>
    dsimp only
    rw [writeLoop, dif_pos List.length_nil]

theorem write_buffered (hb : d.buffers = some bl) (hlen : src.length = 2 ^ k)
    (h : d.write (s * 2 ^ k) src = (true, d')) :
    ∃ buf, retarget d.faults (bl.get s) d.medium s false = (true, buf, d'.medium) ∧
      d'.buffers = some (bl.put (bl.slot s) { buf with data := buf.data.splice 0 src, dirty := true }) := by
  rw [write_sector hb hlen] at h
  rcases hret : retarget d.faults (bl.get s) d.medium s false with ⟨r, buf, m⟩
  rw [hret] at h
  cases r with
  | false => cases h
  | true =>
    cases h
    exact ⟨buf, rfl, rfl⟩

theorem write_sector_unbuffered (hb : d.buffers = none) (hlen : src.length = 2 ^ k)
    (h : d.write (s * 2 ^ k) src = (ok, d')) :
    d'.buffers = none ∧ d.medium.Evolves (fun c => c = d'.medium.sectors) d'.medium := by
  have hal : aligned (k := k) (s * 2 ^ k) src.length = true := by simp [aligned, hlen]
  rw [write, hb] at h
  dsimp only at h
  rw [if_pos hal] at h
  rcases hw : rawSectorWrite d.faults d.medium (s * 2 ^ k / 2 ^ k) (Sector.ofBytes src) (src.length / 2 ^ k) with ⟨r, m⟩
  rw [hw] at h
  cases h
  refine ⟨rfl, ?_⟩
  obtain ⟨_, rfl⟩ | ⟨_, rfl⟩ := rawSectorWrite_cases hw
  · exact Medium.evolves_tick
  · exact Medium.evolves_become rfl

section Faultless
variable (hfaults : ∀ n, d.faults.fails n = false)
include hfaults

theorem retarget_faultless (buf : Buffer k) (m : Medium k) (s : Nat) (fill : Bool) :
    (retarget d.faults buf m s fill).1 = true := (retarget_ok (fun n _ => hfaults n) buf s fill).1

/-- Without raw failures whole sectors are written, with buffers or without. -/
theorem write_faultless (hlen : src.length = 2 ^ k) :
    ∃ d', d.write (s * 2 ^ k) src = (true, d') ∧ d'.faults = d.faults := by
  have hal : aligned (k := k) (s * 2 ^ k) src.length = true := by simp [aligned, hlen]
  obtain ⟨hok, hf, _⟩ := write_ok (fun n _ => hfaults n) (s * 2 ^ k) src
  rw [hal, Bool.or_true] at hok
  exact ⟨_, Prod.ext hok rfl, hf⟩

theorem read_faultless (hb : d.buffers.isSome) (address size : Nat) : (d.read address size).1.isSome := by
  obtain ⟨hok, _⟩ := read_ok (fun n _ => hfaults n) address size
  rwa [hb, Bool.true_or] at hok

theorem sync_faultless : d.sync.1 = true := (sync_ok fun n _ => hfaults n).1

end Faultless

/-- One buffer at most. -/
def AtMostOne (d : BlockDevice k) : Prop := ∀ bl, d.buffers = some bl → bl.bits = 0

private theorem flush_single {f : Faults k} {m m' : Medium k} {i : Fin (2 ^ bl.bits)} {r : Bool} {buf : Buffer k}
    (hone : bl.bits = 0) (hc : bl.Coherent m.sectors) (h : flushBuffer f (bl.list i) m = (r, buf, m')) :
    m.Evolves (fun c => c = bl.view m.sectors) m' := by
  have hall : ∀ j : Fin (2 ^ bl.bits), j = i := by
    intro j
    have hj := j.isLt
    have hi := i.isLt
    simp only [hone, pow_zero, Nat.lt_one_iff] at hj hi
    exact Fin.ext (hj.trans hi.symm)
  obtain ⟨hco, hv, _, _, _, _⟩ := BufferList.flush_spec hc h
  rcases flushBuffer_cases h with ⟨_, _, _, rfl⟩ | ⟨_, _, _, rfl⟩ | ⟨_, _, rfl, rfl⟩
  · exact .refl
  · exact Medium.evolves_tick
  · apply Medium.evolves_become
    rw [← hv]
    -- now no buffer is dirty
    symm
    apply WriteBack.Coherent.view_of_clean hco
    intro (j : Fin (2 ^ bl.bits))
    rw [BufferList.lines_put, hall j]
    exact congrArg WriteBack.Line.dirty (Function.update_self i _ bl.lines)

/-- A write of a sector changes the medium to what was seen before, or is seen behind it. -/
theorem write_single (hone : d.AtMostOne) (hc : d.Coherent) (hlen : src.length = 2 ^ k)
    (h : d.write (s * 2 ^ k) src = (ok, d')) :
    d'.AtMostOne ∧ d.medium.Evolves (fun c => c = d.seen ∨ c = d'.seen) d'.medium := by
  cases hb : d.buffers with
  | none =>
    obtain ⟨hb', hev⟩ := write_sector_unbuffered hb hlen h
    refine ⟨fun bl hbl => (by rw [hb'] at hbl; cases hbl), hev.mono fun c hc => .inr ?_⟩
    rw [hc, seen, hb']
  | some bl =>
    have hbits := hone bl hb
    rw [write_sector hb hlen] at h
    rcases hret : retarget d.faults (bl.get s) d.medium s false with ⟨r, buf, m⟩
    rw [hret] at h
    have hmedium : d'.medium = m := by
      cases r <;> cases h <;> rfl
    have hone' : d'.AtMostOne := by
      intro bl' hbl'
      cases r <;> cases h <;> cases hbl' <;> exact hbits
    refine ⟨hone', ?_⟩
    rw [hmedium]
    have hseen : ∀ c, c = bl.view d.medium.sectors → c = d.seen ∨ c = d'.seen := fun c hv =>
      .inl (hv.trans (seen_buffered hb).symm)
    rcases retarget_cases hret with ⟨_, _, _, rfl⟩ | ⟨_, _, hfl⟩ | ⟨_, buf₁, m₁, hfl, hrest⟩
    · exact .refl
    · exact (flush_single hbits (hc bl hb) hfl).mono hseen
    · rcases hrest with ⟨hf, _⟩ | ⟨hf, _⟩ | ⟨_, _, rfl, _⟩
      · cases hf
      · cases hf
      · exact (flush_single hbits (hc bl hb) hfl).mono hseen

theorem sync_single (hone : d.AtMostOne) (hc : d.Coherent) (h : d.sync = (ok, d')) :
    d'.AtMostOne ∧ d.medium.Evolves (fun c => c = d.seen) d'.medium := by
  have hflush : ∀ {r : Bool} {d₁ : BlockDevice k}, d.flushBuffers = (r, d₁) →
      d₁.AtMostOne ∧ d.medium.Evolves (fun c => c = d.seen) d₁.medium := by
    intro r d₁ hfl
    rw [flushBuffers] at hfl
    cases hb : d.buffers with
    | none =>
      rw [hb] at hfl
      cases hfl
      exact ⟨hone, .refl⟩
    | some bl =>
      have hbits := hone bl hb
      have hrange : List.range bl.size = [0] := by rw [BufferList.size, hbits]; rfl
      rw [hb] at hfl
      dsimp only at hfl
      rw [hrange, flushLoop] at hfl
      rcases hbuf : flushBuffer d.faults (bl.list (bl.slot 0)) d.medium with ⟨r', buf, m⟩
      rw [hbuf] at hfl
      cases hfl
      refine ⟨fun bl' hbl' => (by cases hbl'; exact hbits), ?_⟩
      rw [seen_buffered hb]
      exact flush_single hbits (hc bl hb) hbuf
  rw [sync] at h
  rcases hfl : d.flushBuffers with ⟨r, d₁⟩
  obtain ⟨hone₁, hev⟩ := hflush hfl
  rw [hfl] at h
  cases r with
  | false =>
    cases h
    exact ⟨hone₁, hev⟩
  | true =>
    cases h
    exact ⟨hone₁, hev.trans Medium.evolves_tick⟩

end BlockDevice

section Waiting
variable {f : Faults k} {bl : BufferList k} {m m' : Medium k} {s t : Nat} {v : Sector k}

namespace BufferList

theorem get_put (bl : BufferList k) (i : Fin (2 ^ bl.bits)) (buf : Buffer k) (s : Nat) :
    (bl.put i buf).get s = if bl.slot s = i then buf else bl.get s := list_put bl i (bl.slot s) buf

theorem slot_ne_of_bits {bl' : BufferList k} (hbits : bl'.bits = bl.bits) (h : bl.slot s ≠ bl.slot t) :
    bl'.slot s ≠ bl'.slot t := by
  intro heq
  have hval : s % 2 ^ bl'.bits = t % 2 ^ bl'.bits := congrArg Fin.val heq
  rw [hbits] at hval
  exact h (Fin.ext hval)

theorem slot_of_dirty (hc : bl.Coherent m.sectors) {i : Fin (2 ^ bl.bits)} (hd : (bl.list i).dirty = true) :
    bl.slot (bl.list i).sector = i := by
  apply hc.own i
  change (bl.list i).tag = some (bl.list i).sector
  rw [Buffer.tag_eq_some]
  refine ⟨rfl, fun hinvalid => ?_⟩
  have hclean := hc.idle i (if_pos hinvalid)
  rw [show (bl.lines i).dirty = true from hd] at hclean
  cases hclean

/-- A sector has not been written: the medium has its old content, and its buffer, if there is one, is clean. -/
structure Unwritten (bl : BufferList k) (m : Medium k) (s : Nat) (v : Sector k) : Prop where
  medium_eq : m.sectors s = v
  clean : ∀ i, (bl.list i).sector = s → (bl.list i).dirty = false

/-- A sector has been written, and waits in its buffer. -/
structure Waits (bl : BufferList k) (m : Medium k) (s : Nat) (v : Sector k) : Prop where
  sector_eq : (bl.get s).sector = s
  dirty : (bl.get s).dirty = true
  medium_eq : m.sectors s = v

private theorem flush_medium {buf buf' : Buffer k} {r : Bool} (h : flushBuffer f buf m = (r, buf', m'))
    (hs : buf.dirty = true → buf.sector ≠ s) : m'.sectors s = m.sectors s ∧ buf'.sector = buf.sector := by
  rcases flushBuffer_cases h with ⟨_, _, rfl, rfl⟩ | ⟨_, _, rfl, rfl⟩ | ⟨hd, _, rfl, rfl⟩
  · exact ⟨rfl, rfl⟩
  · exact ⟨rfl, rfl⟩
  · exact ⟨Function.update_of_ne (hs hd).symm _ _, rfl⟩

private theorem retarget_medium {buf buf' : Buffer k} (ht : t < Buffer.invalid)
    (h : retarget f buf m t false = (true, buf', m')) (hs : buf.dirty = true → buf.sector ≠ t → buf.sector ≠ s) :
    m'.sectors s = m.sectors s ∧ buf'.sector = t := by
  rcases retarget_cases h with ⟨heq, _, rfl, rfl⟩ | ⟨_, hr, _⟩ | ⟨hne, buf₁, m₁, hfl, hrest⟩
  · exact ⟨rfl, heq⟩
  · cases hr
  · rcases hrest with ⟨hf, _⟩ | ⟨hf, _⟩ | ⟨_, _, rfl, rfl⟩
    · cases hf
    · cases hf
    · refine ⟨(flush_medium hfl fun hd => hs hd hne).1, Nat.mod_eq_of_lt ?_⟩
      rw [Buffer.invalid] at ht
      omega

variable {buf : Buffer k} (data : Sector k)

theorem Unwritten.other (h : bl.Unwritten m s v) (hst : s ≠ t) (ht : t < Buffer.invalid)
    (hret : retarget f (bl.get t) m t false = (true, buf, m')) :
    (bl.put (bl.slot t) { buf with data := data, dirty := true }).Unwritten m' s v := by
  obtain ⟨hmedium, hsector⟩ := retarget_medium (s := s) ht hret fun hd _ heq => by
    rw [get, h.clean _ heq] at hd
    cases hd
  refine ⟨hmedium.trans h.medium_eq, fun (i : Fin (2 ^ bl.bits)) hi => ?_⟩
  rw [list_put] at hi ⊢
  split at hi
  · exact absurd (hi.symm.trans hsector) hst
  · rename_i hne
    rw [if_neg hne]
    exact h.clean i hi

theorem waits_written (hs : s < Buffer.invalid) (hret : retarget f (bl.get s) m s false = (true, buf, m')) :
    (bl.put (bl.slot s) { buf with data := data, dirty := true }).Waits m' s (m'.sectors s) := by
  obtain ⟨_, hsector⟩ := retarget_medium (s := s) hs hret fun _ hne => hne
  refine ⟨?_, ?_, rfl⟩
  · rw [get_put, if_pos rfl]
    exact hsector
  · rw [get_put, if_pos rfl]

theorem Unwritten.waits (h : bl.Unwritten m s v) (hs : s < Buffer.invalid)
    (hret : retarget f (bl.get s) m s false = (true, buf, m')) :
    (bl.put (bl.slot s) { buf with data := data, dirty := true }).Waits m' s v := by
  obtain ⟨hmedium, _⟩ := retarget_medium (s := s) hs hret fun _ hne => hne
  rw [← h.medium_eq, ← hmedium]
  exact waits_written data hs hret

theorem Waits.other (h : bl.Waits m s v) (hc : bl.Coherent m.sectors) (hst : bl.slot s ≠ bl.slot t)
    (ht : t < Buffer.invalid) (hret : retarget f (bl.get t) m t false = (true, buf, m')) :
    (bl.put (bl.slot t) { buf with data := data, dirty := true }).Waits m' s v := by
  obtain ⟨hmedium, _⟩ := retarget_medium (s := s) ht hret fun hd _ heq => by
    apply hst
    rw [← heq]
    exact slot_of_dirty hc hd
  refine ⟨?_, ?_, hmedium.trans h.medium_eq⟩
  · rw [get_put, if_neg hst]
    exact h.sector_eq
  · rw [get_put, if_neg hst]
    exact h.dirty

private theorem Waits.flushLoop {idx : List Nat} {res res' : Bool} {bl' : BufferList k} (h : bl.Waits m s v)
    (hc : bl.Coherent m.sectors) (hidx : ∀ i ∈ idx, bl.slot s ≠ bl.slot i)
    (hloop : DiskStorage.flushLoop f idx res bl m = (res', bl', m')) :
    bl'.Waits m' s v ∧ bl'.Coherent m'.sectors ∧ bl'.bits = bl.bits ∧ bl'.get s = bl.get s := by
  induction idx generalizing bl m res with
  | nil =>
    cases hloop
    exact ⟨h, hc, rfl, rfl⟩
  | cons i idx ih =>
    rw [DiskStorage.flushLoop] at hloop
    rcases hfl : flushBuffer f (bl.list (bl.slot i)) m with ⟨r, buf, m₁⟩
    rw [hfl] at hloop
    obtain ⟨hco, _⟩ := flush_spec hc hfl
    have hne := hidx i List.mem_cons_self
    have hget : (bl.put (bl.slot i) buf).get s = bl.get s := by rw [get_put, if_neg hne]
    have hmedium := (flush_medium (s := s) hfl fun hd heq => by
      apply hne
      rw [← heq]
      exact slot_of_dirty hc hd).1
    have hwaits : (bl.put (bl.slot i) buf).Waits m₁ s v :=
      ⟨by rw [hget, h.sector_eq], by rw [hget, h.dirty], hmedium.trans h.medium_eq⟩
    obtain ⟨hw, hc', hbits, hget'⟩ := ih hwaits hco (fun j hj => hidx j (List.mem_cons_of_mem _ hj)) hloop
    exact ⟨hw, hc', hbits, hget'.trans hget⟩

end BufferList

theorem flushLoop_append (idx idx' : List Nat) (res : Bool) (bl : BufferList k) (m : Medium k) :
    flushLoop f (idx ++ idx') res bl m =
      match flushLoop f idx res bl m with
      | (res, bl, m) => flushLoop f idx' res bl m := by
  induction idx generalizing res bl m with
  | nil => rfl
  | cons i idx ih => exact ih _ _ _

theorem flushLoop_failed {idx : List Nat} {res' : Bool} {bl' : BufferList k}
    (h : flushLoop f idx false bl m = (res', bl', m')) : res' = false := by
  induction idx generalizing bl m with
  | nil =>
    cases h
    rfl
  | cons i idx ih =>
    rw [flushLoop] at h
    exact ih h

namespace BlockDevice
variable {d d' : BlockDevice k}

/-- Buffers are flushed in the order of their slots: when two sectors wait, there is a moment when
the one has reached the medium and the other has not. -/
theorem sync_order (hc : d.Coherent) (hb : d.buffers = some bl) (hs : bl.Waits d.medium s v)
    (ht : bl.Waits d.medium t (d.medium.sectors t)) (hslot : (bl.slot t).val < (bl.slot s).val)
    (h : d.sync = (true, d')) :
    ∃ c ∈ Medium.since d.medium d'.medium, c t = (bl.get t).data ∧ c s = v := by
  have hlt : ∀ i < (bl.slot s).val, bl.slot s ≠ bl.slot i := by
    intro i hi heq
    have hi' : i < 2 ^ bl.bits := hi.trans (bl.slot s).isLt
    have hval := congrArg Fin.val heq
    rw [show (bl.slot i).val = i from Nat.mod_eq_of_lt hi'] at hval
    omega
  have hself : bl.slot (bl.slot t).val = bl.slot t := Fin.ext (Nat.mod_mod _ _)
  -- the slots in front of the one of `t`, that slot, and those behind it
  obtain ⟨post, hrange⟩ : ∃ post, List.range bl.size = List.range (bl.slot t).val ++ (bl.slot t).val :: post := by
    have hsize : bl.size = (bl.slot t).val + 1 + (bl.size - ((bl.slot t).val + 1)) := by
      have := (bl.slot t).isLt
      rw [BufferList.size]
      omega
    refine ⟨(List.range (bl.size - ((bl.slot t).val + 1))).map ((bl.slot t).val + 1 + ·), ?_⟩
    conv_lhs => rw [hsize]
    rw [List.range_add, List.range_succ, List.append_assoc, List.singleton_append]
  have hfront : ∀ i ∈ List.range (bl.slot t).val, bl.slot s ≠ bl.slot i ∧ bl.slot t ≠ bl.slot i := by
    intro i hi
    rw [List.mem_range] at hi
    refine ⟨hlt i (hi.trans hslot), fun heq => ?_⟩
    have hi' : i < 2 ^ bl.bits := hi.trans (bl.slot t).isLt
    have hval := congrArg Fin.val heq
    rw [show (bl.slot i).val = i from Nat.mod_eq_of_lt hi'] at hval
    omega
  rw [sync, flushBuffers, hb] at h
  dsimp only at h
  rw [hrange, flushLoop_append] at h
  rcases hpre : flushLoop d.faults (List.range (bl.slot t).val) true bl d.medium with ⟨res, bl₁, m₁⟩
  rw [hpre] at h
  obtain ⟨hs₁, hc₁, hbits, _⟩ := hs.flushLoop (hc bl hb) (fun i hi => (hfront i hi).1) hpre
  obtain ⟨ht₁, _, _, hget⟩ := ht.flushLoop (hc bl hb) (fun i hi => (hfront i hi).2) hpre
  have hev₁ := (BufferList.flushLoop_spec (hc bl hb) hpre).2.2.1
  have hslot₁ : bl₁.slot (bl.slot t).val = bl₁.slot t := by
    apply Fin.ext
    change t % 2 ^ bl.bits % 2 ^ bl₁.bits = t % 2 ^ bl₁.bits
    rw [hbits, Nat.mod_mod]
  have hne₁ : t ≠ s := by
    rintro rfl
    exact Nat.lt_irrefl _ hslot
  dsimp only at h
  rw [flushLoop, hslot₁] at h
  rcases hfl : flushBuffer d.faults (bl₁.list (bl₁.slot t)) m₁ with ⟨r, buf, m₂⟩
  rw [hfl] at h
  dsimp only at h
  rcases hpost : flushLoop d.faults post (res && r) (bl₁.put (bl₁.slot t) buf) m₂ with ⟨res', bl', m'⟩
  rw [hpost] at h
  cases res' with
  | false => cases h
  | true =>
    obtain rfl := (Prod.mk.inj h).2
    have hco := (BufferList.flush_spec hc₁ hfl).1
    have hev₂ := (BufferList.flushLoop_spec hco hpost).2.2.1
    rcases flushBuffer_cases hfl with ⟨hd, _⟩ | ⟨_, rfl, _⟩ | ⟨_, _, _, rfl⟩
    · have hdirty : (bl₁.list (bl₁.slot t)).dirty = true := ht₁.dirty
      rw [hd] at hdirty
      cases hdirty
    · rw [Bool.and_false] at hpost
      have := flushLoop_failed hpost
      cases this
    · have hsector : (bl₁.list (bl₁.slot t)).sector = t := ht₁.sector_eq
      have hdata : (bl₁.list (bl₁.slot t)).data = (bl.get t).data := congrArg Buffer.data hget
      refine ⟨Function.update m₁.sectors t (bl.get t).data, ?_, Function.update_self .., ?_⟩
      · obtain ⟨new₁, hnew₁, _⟩ := hev₁
        obtain ⟨new₂, hnew₂, _⟩ := hev₂
        rw [hsector, hdata] at hnew₂
        have hall : (rawSync d.faults m').2.contents =
            (new₂ ++ Function.update m₁.sectors t (bl.get t).data :: new₁) ++ d.medium.contents := by
          rw [List.append_assoc, List.cons_append, ← hnew₁]
          exact hnew₂
        change _ ∈ d.medium.since (rawSync d.faults m').2
        rw [Medium.since_eq hall, List.append_assoc]
        exact List.mem_append_right _ List.mem_cons_self
      · rw [Function.update_of_ne hne₁.symm]
        exact hs₁.medium_eq

end BlockDevice

end Waiting

end DiskStorage
