import DiskStorage.Format.Writes
import DiskStorage.BlockDevice.WriteOrder

/-! What a power loss, or a raw operation that fails, can leave of a block device that is being
partitioned. -/
namespace DiskStorage
open ByteStore Runs
variable {k : Nat}

theorem Sector.eq_of_block {c c' : Nat → Sector k} {s : Nat}
    (h : block (2 ^ k) (Sector.flat c) s = block (2 ^ k) (Sector.flat c') s) : c s = c' s := by
  apply Sector.flat_ext
  intro i hi
  exact List.map_inj_left.mp h i (List.mem_range.mpr hi)

theorem Sector.block_flat_congr {c c' : Nat → Sector k} {s : Nat} (h : c s = c' s) :
    block (2 ^ k) (Sector.flat c) s = block (2 ^ k) (Sector.flat c') s := by
  apply block_congr
  intro i hi
  rw [Sector.flat_apply _ _ hi, Sector.flat_apply _ _ hi, h]

theorem FlatStore.step_sector {f g : Nat → UInt8} {s : Nat} {src : List UInt8} {o : Outcome}
    (hlen : src.length = 2 ^ k) (h : FlatStore.Step (k := k) f (.write (s * 2 ^ k) src, o) g) :
    g = patch f (s * 2 ^ k) src ∨ g = f := by
  obtain ⟨ok, data⟩ := o
  cases ok with
  | true => exact .inl h
  | false =>
    obtain ⟨n, hn, hend, rfl⟩ := h
    rw [Nat.mul_add_mod'] at hend
    rcases Nat.lt_or_ge n (2 ^ k) with hlt | hge
    · have hzero : n = 0 := hend.elim id fun hmod => by rwa [Nat.mod_eq_of_lt hlt] at hmod
      exact .inr (by rw [hzero, List.take_zero, patch_nil])
    · exact .inl (by rw [List.take_of_length_le (hlen.trans_le hge)])

/-- Each sector holds what it held in the first store, or what a write of the list has for it. -/
def Drawn (ws : List (Nat × List UInt8)) (f g : Nat → UInt8) : Prop :=
  ∀ s, block (2 ^ k) g s = block (2 ^ k) f s ∨ (s, block (2 ^ k) g s) ∈ ws

/-- The operations of a list of sector writes with a sync behind it. -/
def Writing (ws : List (Nat × List UInt8)) (op : Op k) : Prop :=
  op = .sync ∨ ∃ w ∈ ws, op = .write (w.1 * 2 ^ k) w.2

section Run
variable {ws : List (Nat × List UInt8)} {d : BlockDevice k}

private theorem Writing.mono {w : Nat × List UInt8} {op : Op k} (h : Writing ws op) : Writing (w :: ws) op :=
  h.imp id fun ⟨v, hv, hop⟩ => ⟨v, List.mem_cons_of_mem _ hv, hop⟩

theorem writeAll_run (ws : List (Nat × List UInt8)) (d : BlockDevice k) :
    ∃ tr, Run deviceStep d tr ∧ last d tr = (writeAll (2 ^ k) ws d).2 ∧ ∀ e ∈ tr, Writing ws e.1.1 := by
  induction ws generalizing d with
  | nil => exact ⟨[], .nil d, rfl, fun e he => absurd he List.not_mem_nil⟩
  | cons w ws ih =>
    have hstep : deviceStep d ((.write (w.1 * 2 ^ k) w.2, (Op.exec d (.write (w.1 * 2 ^ k) w.2)).1))
        (Device.write d (w.1 * 2 ^ k) w.2).2 := rfl
    rw [writeAll]
    rcases hw : Device.write d (w.1 * 2 ^ k) w.2 with ⟨ok, d₁⟩
    rw [hw] at hstep
    cases ok with
    | false =>
      refine ⟨[(_, d₁)], .cons hstep (.nil d₁), rfl, fun e he => ?_⟩
      rw [List.mem_singleton.mp he]
      exact .inr ⟨w, List.mem_cons_self, rfl⟩
    | true =>
      obtain ⟨tr, hrun, hlast, hops⟩ := ih d₁
      refine ⟨(_, d₁) :: tr, .cons hstep hrun, hlast, fun e he => ?_⟩
      rcases List.mem_cons.mp he with rfl | he
      · exact .inr ⟨w, List.mem_cons_self, rfl⟩
      · exact (hops e he).mono

theorem writeAndSync_run (ws : List (Nat × List UInt8)) (d : BlockDevice k) :
    ∃ tr, Run deviceStep d tr ∧ last d tr = (writeAndSync (2 ^ k) ws d).2 ∧ ∀ e ∈ tr, Writing ws e.1.1 := by
  obtain ⟨tr, hrun, hlast, hops⟩ := writeAll_run ws d
  rw [writeAndSync]
  rcases hw : writeAll (2 ^ k) ws d with ⟨ok, d₁⟩
  rw [hw] at hlast
  cases ok with
  | false => exact ⟨tr, hrun, hlast, hops⟩
  | true =>
    have hstep : deviceStep d₁ ((.sync, (Op.exec d₁ .sync).1)) (Device.sync d₁).2 := rfl
    refine ⟨tr ++ [((.sync, (Op.exec d₁ .sync).1), (Device.sync d₁).2)], run_append_iff.mpr ⟨hrun, ?_⟩, ?_,
      fun e he => ?_⟩
    · rw [hlast]
      exact .cons hstep (.nil _)
    · exact last_append d tr _
    · rcases List.mem_append.mp he with he | he
      · exact hops e he
      · rw [List.mem_singleton.mp he]
        exact .inl rfl

variable (hwhole : Whole (2 ^ k) ws) {sectorCount : Nat} (hcount : sectorCount ≤ 2 ^ 32 - 1)
  (hin : ∀ w ∈ ws, w.1 < sectorCount)
include hwhole hin

theorem Writing.inRange {op : Op k} (h : Writing ws op) : op.InRange sectorCount := by
  rcases h with rfl | ⟨w, hw, rfl⟩
  · trivial
  · rw [Op.InRange, hwhole w hw, ← Nat.succ_mul]
    exact Nat.mul_le_mul_right _ (hin w hw)

include hcount

theorem run_drawn {f : Nat → UInt8} {tr : List ((Op k × Outcome) × BlockDevice k)} (hs : Sound sectorCount d)
    (run : Run deviceStep d tr) (hops : ∀ e ∈ tr, Writing ws e.1.1) (hd : Drawn (k := k) ws f d.logical) :
    ∀ d' ∈ d :: tr.map Prod.snd, Drawn (k := k) ws f d'.logical := by
  induction run with
  | nil => exact List.forall_mem_singleton.mpr hd
  | @cons d d₁ e tr hstep _ ih =>
    have he := hops _ List.mem_cons_self
    obtain ⟨hs₁, hflat⟩ := sound_step hcount hs (he.inRange hwhole hin) hstep
    refine List.forall_mem_cons.mpr ⟨hd, ih hs₁ (fun e he => hops e (List.mem_cons_of_mem _ he)) ?_⟩
    obtain ⟨op, o⟩ := e
    rcases he with hop | ⟨w, hw, hop⟩
    · obtain rfl : op = .sync := hop
      rw [show d₁.logical = d.logical from hflat]
      exact hd
    · obtain rfl : op = .write (w.1 * 2 ^ k) w.2 := hop
      rcases FlatStore.step_sector (hwhole w hw) hflat with hpatch | hsame
      · intro s
        rw [hpatch]
        rcases eq_or_ne w.1 s with rfl | hne
        · rw [block_patch_same _ _ (hwhole w hw)]
          exact .inr hw
        · rw [block_patch_ne _ (hwhole w hw) hne]
          exact hd s
      · rw [hsame]
        exact hd

/-- At every moment each sector of the medium is as it was on the medium or in the buffers, or it
has been written. -/
theorem writeAndSync_sectors (hs : Sound sectorCount d) {c : Nat → Sector k}
    (hc : c ∈ Medium.since d.medium (writeAndSync (2 ^ k) ws d).2.medium) (s : Nat) :
    c s = d.medium.sectors s ∨ c s = d.logicalSector s ∨ (s, block (2 ^ k) (Sector.flat c) s) ∈ ws := by
  obtain ⟨tr, hrun, hlast, hops⟩ := writeAndSync_run ws d
  have hrange : ∀ e ∈ tr, e.1.1.InRange sectorCount := fun e he => (hops e he).inRange hwhole hin
  have hdrawn := run_drawn (f := d.logical) hwhole hcount hin hs hrun hops fun _ => .inl rfl
  rw [← hlast] at hc
  rcases (run_evolves hcount hs hrun hrange).mem_since hc with hc | rfl
  · obtain ⟨c', hc', he⟩ := hc s
    rcases List.mem_cons.mp hc' with rfl | hc'
    · exact .inl he
    · obtain ⟨d', hd', rfl⟩ := List.mem_map.mp hc'
      have hblock : block (2 ^ k) (Sector.flat c) s = block (2 ^ k) d'.logical s := Sector.block_flat_congr he
      refine .inr ((hdrawn d' hd' s).imp (fun hold => ?_) fun hnew => ?_)
      · exact Sector.eq_of_block (hblock.trans hold)
      · rwa [hblock]
  · exact .inl rfl

theorem writeAndSync_drawn (hs : Sound sectorCount d) :
    Drawn (k := k) ws d.logical (writeAndSync (2 ^ k) ws d).2.logical := by
  obtain ⟨tr, hrun, hlast, hops⟩ := writeAndSync_run ws d
  rw [← hlast]
  exact run_drawn hwhole hcount hin hs hrun hops (fun _ => .inl rfl) _ (last_mem d tr)

end Run

theorem writeAll_prefixes {ws : List (Nat × List UInt8)} (hwhole : Whole (2 ^ k) ws) {sectorCount : Nat}
    (hcount : sectorCount ≤ 2 ^ 32 - 1) (hin : ∀ w ∈ ws, w.1 < sectorCount) {d : BlockDevice k}
    (hs : Sound sectorCount d) (hone : d.AtMostOne) :
    (writeAll (2 ^ k) ws d).2.AtMostOne ∧ Sound sectorCount (writeAll (2 ^ k) ws d).2 ∧
      d.medium.Evolves (fun c => ∃ n ≤ ws.length, Sector.flat c = overwrite (2 ^ k) (Sector.flat d.seen) (ws.take n))
        (writeAll (2 ^ k) ws d).2.medium ∧
      ∃ n ≤ ws.length, Sector.flat (writeAll (2 ^ k) ws d).2.seen =
        overwrite (2 ^ k) (Sector.flat d.seen) (ws.take n) := by
  induction ws generalizing d with
  | nil => exact ⟨hone, hs, .refl, 0, le_rfl, rfl⟩
  | cons w ws ih =>
    obtain ⟨s, src⟩ := w
    have hlen : src.length = 2 ^ k := hwhole (s, src) List.mem_cons_self
    have hrange : (Op.write (s * 2 ^ k) src : Op k).InRange sectorCount :=
      Writing.inRange hwhole hin (.inr ⟨(s, src), List.mem_cons_self, rfl⟩)
    rw [writeAll]
    rcases hw : Device.write d (s * 2 ^ k) src with ⟨ok, d₁⟩
    have hw' : d.write (s * 2 ^ k) src = (ok, d₁) := hw
    have hstep : deviceStep d (.write (s * 2 ^ k) src, ⟨ok, []⟩) d₁ := by
      rw [deviceStep, Op.exec, hw']
    obtain ⟨hs₁, _⟩ := sound_step hcount hs hrange hstep
    have hflat := (exec_spec hcount hs hrange hstep).2.1
    obtain ⟨hone₁, hev⟩ := BlockDevice.write_single hone hs.coherent hlen hw'
    -- the write has been done, or nothing is seen of it
    have hseen : ∃ n ≤ ws.length + 1,
        Sector.flat d₁.seen = overwrite (2 ^ k) (Sector.flat d.seen) (((s, src) :: ws).take n) := by
      rcases FlatStore.step_sector hlen hflat with hpatch | hsame
      · exact ⟨1, Nat.succ_le_succ (Nat.zero_le _), by rw [hpatch, List.take_succ_cons, List.take_zero]; rfl⟩
      · exact ⟨0, Nat.zero_le _, hsame⟩
    have hcontents : d.medium.Evolves (fun c => ∃ n ≤ ws.length + 1,
        Sector.flat c = overwrite (2 ^ k) (Sector.flat d.seen) (((s, src) :: ws).take n)) d₁.medium := by
      refine hev.mono fun c hc => ?_
      rcases hc with rfl | rfl
      · exact ⟨0, Nat.zero_le _, rfl⟩
      · exact hseen
    cases ok with
    | false => exact ⟨hone₁, hs₁, hcontents, hseen⟩
    | true =>
      have hpatch : Sector.flat d₁.seen = patch (Sector.flat d.seen) (s * 2 ^ k) src := hflat
      obtain ⟨hone₂, hs₂, hev₂, n, hn, hend⟩ := ih hwhole.tail (fun w hw => hin w (List.mem_cons_of_mem _ hw)) hs₁ hone₁
      rw [hpatch] at hev₂ hend
      refine ⟨hone₂, hs₂, hcontents.trans (hev₂.mono ?_), n + 1, Nat.succ_le_succ hn, hend⟩
      rintro c ⟨n, hn, hc⟩
      exact ⟨n + 1, Nat.succ_le_succ hn, hc⟩

theorem writeAndSync_prefixes {ws : List (Nat × List UInt8)} (hwhole : Whole (2 ^ k) ws) {sectorCount : Nat}
    (hcount : sectorCount ≤ 2 ^ 32 - 1) (hin : ∀ w ∈ ws, w.1 < sectorCount) {d : BlockDevice k}
    (hs : Sound sectorCount d) (hone : d.AtMostOne) :
    d.medium.Evolves (fun c => ∃ n ≤ ws.length, Sector.flat c = overwrite (2 ^ k) (Sector.flat d.seen) (ws.take n))
      (writeAndSync (2 ^ k) ws d).2.medium := by
  obtain ⟨hone₁, hs₁, hev, n, hn, hend⟩ := writeAll_prefixes hwhole hcount hin hs hone
  rw [writeAndSync]
  rcases hw : writeAll (2 ^ k) ws d with ⟨ok, d₁⟩
  rw [hw] at hone₁ hs₁ hev hend
  cases ok with
  | false => exact hev
  | true =>
    rcases hsync : d₁.sync with ⟨ok, d₂⟩
    have hdevice : Device.sync d₁ = (ok, d₂) := hsync
    dsimp only
    rw [hdevice]
    refine hev.trans ((BlockDevice.sync_single hone₁ hs₁.coherent hsync).2.mono ?_)
    rintro c rfl
    exact ⟨n, hn, hend⟩

section Buffered
variable {ws : List (Nat × List UInt8)} {sectorCount s : Nat} {v : Sector k} {d d' : BlockDevice k} {bl : BufferList k}

theorem Sector.block_of_splice {c : Nat → Sector k} {t : Sector k} {src : List UInt8} (hlen : src.length = 2 ^ k)
    (h : c s = t.splice 0 src) : block (2 ^ k) (Sector.flat c) s = src := by
  have hself : Sector.flat c = patch (Sector.flat c) (s * 2 ^ k) src := by
    have hflat := Sector.flat_update_splice c s 0 src (by rw [hlen, Nat.zero_add])
    rwa [Sector.splice_full (c s) t src hlen, ← h, Function.update_eq_self, Nat.add_zero] at hflat
  rw [hself]
  exact block_patch_same _ s hlen

theorem writeAll_evolves (hwhole : Whole (2 ^ k) ws) (hcount : sectorCount ≤ 2 ^ 32 - 1)
    (hin : ∀ w ∈ ws, w.1 < sectorCount) (hs : Sound sectorCount d) :
    ∃ P, d.medium.Evolves P (writeAll (2 ^ k) ws d).2.medium ∧ Sound sectorCount (writeAll (2 ^ k) ws d).2 := by
  obtain ⟨tr, hrun, hlast, hops⟩ := writeAll_run ws d
  have hrange : ∀ e ∈ tr, e.1.1.InRange sectorCount := fun e he => (hops e he).inRange hwhole hin
  rw [← hlast]
  exact ⟨_, run_evolves hcount hs hrun hrange, (run_sound hcount hs hrun hrange).1⟩

theorem writeAll_unwritten (hwhole : Whole (2 ^ k) ws) (hin : ∀ w ∈ ws, w.1 < Buffer.invalid)
    (hne : s ∉ ws.map Prod.fst) (hb : d.buffers = some bl) (h : bl.Unwritten d.medium s v)
    (hrun : writeAll (2 ^ k) ws d = (true, d')) :
    ∃ bl', d'.buffers = some bl' ∧ bl'.bits = bl.bits ∧ bl'.Unwritten d'.medium s v := by
  induction ws generalizing d bl with
  | nil =>
    cases hrun
    exact ⟨bl, hb, rfl, h⟩
  | cons w ws ih =>
    rw [List.map_cons, List.mem_cons, not_or] at hne
    rw [writeAll] at hrun
    split at hrun
    · cases hrun
    · rename_i d₁ hw
      obtain ⟨buf, hret, hb₁⟩ := BlockDevice.write_buffered hb (hwhole w List.mem_cons_self) hw
      have hkept := h.other (buf.data.splice 0 w.2) hne.1 (hin w List.mem_cons_self) hret
      have hrest := ih hwhole.tail (fun w hw => hin w (List.mem_cons_of_mem _ hw)) hne.2 hb₁ hkept hrun
      exact hrest

theorem writeAll_waits (hwhole : Whole (2 ^ k) ws) (hcount : sectorCount ≤ 2 ^ 32 - 1)
    (hin : ∀ w ∈ ws, w.1 < sectorCount) (hs : Sound sectorCount d) (hb : d.buffers = some bl)
    (hslot : ∀ w ∈ ws, bl.slot s ≠ bl.slot w.1) (h : bl.Waits d.medium s v)
    (hrun : writeAll (2 ^ k) ws d = (true, d')) :
    ∃ bl', d'.buffers = some bl' ∧ bl'.bits = bl.bits ∧ bl'.Waits d'.medium s v := by
  induction ws generalizing d bl with
  | nil =>
    cases hrun
    exact ⟨bl, hb, rfl, h⟩
  | cons w ws ih =>
    have hone : Whole (2 ^ k) [w] := List.forall_mem_singleton.mpr (hwhole w List.mem_cons_self)
    have hfirst : ∀ v ∈ [w], v.1 < sectorCount := List.forall_mem_singleton.mpr (hin w List.mem_cons_self)
    obtain ⟨d₁, hw, hrest⟩ := GPT.writeAll_split [w] hrun
    obtain ⟨_, _, hs₁⟩ := writeAll_evolves hone hcount hfirst hs
    rw [hw] at hs₁
    rw [writeAll] at hw
    split at hw
    · cases hw
    · rename_i d₁' hw'
      cases hw
      obtain ⟨buf, hret, hb₁⟩ := BlockDevice.write_buffered hb (hwhole w List.mem_cons_self) hw'
      have hkept := h.other (buf.data.splice 0 w.2) (hs.coherent bl hb) (hslot w List.mem_cons_self)
        (Nat.lt_of_lt_of_le (hin w List.mem_cons_self) hcount) hret
      have hdone := ih hwhole.tail (fun w hw => hin w (List.mem_cons_of_mem _ hw)) hs₁ hb₁
        (fun w hw => hslot w (List.mem_cons_of_mem _ hw)) hkept hrest
      exact hdone

theorem writeAndSync_early {init mid : List (Nat × List UInt8)} {t : Nat} {u w : List UInt8}
    (hwhole : Whole (2 ^ k) (init ++ ((s, u) :: mid ++ [(t, w)]))) (hcount : sectorCount ≤ 2 ^ 32 - 1)
    (hin : ∀ e ∈ init ++ ((s, u) :: mid ++ [(t, w)]), e.1 < sectorCount) (hs : Sound sectorCount d)
    (hb : d.buffers = some bl) (hclean : d.NoneDirty) (hfresh : s ∉ init.map Prod.fst)
    (hmid : ∀ e ∈ mid, bl.slot s ≠ bl.slot e.1) (hslot : (bl.slot t).val < (bl.slot s).val)
    (hrun : writeAndSync (2 ^ k) (init ++ ((s, u) :: mid ++ [(t, w)])) d = (true, d')) :
    ∃ c ∈ Medium.since d.medium d'.medium, block (2 ^ k) (Sector.flat c) t = w ∧ c s = d.medium.sectors s := by
  have hinit : ∀ e ∈ init, e ∈ init ++ ((s, u) :: mid ++ [(t, w)]) := fun e he => List.mem_append_left _ he
  have hfst : (s, u) ∈ init ++ ((s, u) :: mid ++ [(t, w)]) := List.mem_append_right _ List.mem_cons_self
  have hmem : ∀ e ∈ mid, e ∈ init ++ ((s, u) :: mid ++ [(t, w)]) := fun e he =>
    List.mem_append_right _ (List.mem_cons_of_mem _ (List.mem_append_left _ he))
  have hlast : (t, w) ∈ init ++ ((s, u) :: mid ++ [(t, w)]) :=
    List.mem_append_right _ (List.mem_cons_of_mem _ (List.mem_append_right _ List.mem_cons_self))
  have hvalid : ∀ e ∈ init ++ ((s, u) :: mid ++ [(t, w)]), e.1 < Buffer.invalid := fun e he =>
    Nat.lt_of_lt_of_le (hin e he) hcount
  rw [writeAndSync] at hrun
  split at hrun
  · cases hrun
  · rename_i d₄ hall
    obtain ⟨d₁, h₁, hrest⟩ := GPT.writeAll_split init hall
    obtain ⟨d₂, h₂, hrest⟩ := GPT.writeAll_split [(s, u)] hrest
    obtain ⟨d₃, h₃, h₄⟩ := GPT.writeAll_split mid hrest
    have hwholeInit : Whole (2 ^ k) init := fun e he => hwhole e (hinit e he)
    have hwholeMid : Whole (2 ^ k) mid := fun e he => hwhole e (hmem e he)
    have hwholeFst : Whole (2 ^ k) [(s, u)] := List.forall_mem_singleton.mpr (hwhole _ hfst)
    have hinFst : ∀ e ∈ [(s, u)], e.1 < sectorCount := List.forall_mem_singleton.mpr (hin _ hfst)
    obtain ⟨_, hev, hs₄⟩ := writeAll_evolves hwhole hcount hin hs
    rw [hall] at hev hs₄
    obtain ⟨_, _, hs₁⟩ := writeAll_evolves hwholeInit hcount (fun e he => hin e (hinit e he)) hs
    rw [h₁] at hs₁
    obtain ⟨_, _, hs₂⟩ := writeAll_evolves hwholeFst hcount hinFst hs₁
    rw [h₂] at hs₂
    obtain ⟨_, _, hs₃⟩ := writeAll_evolves hwholeMid hcount (fun e he => hin e (hmem e he)) hs₂
    rw [h₃] at hs₃
    -- the sector is not written, then it waits, also while the last one is written
    obtain ⟨bl₁, hb₁, hbits₁, hunwritten⟩ := writeAll_unwritten hwholeInit (fun e he => hvalid e (hinit e he)) hfresh hb
      ⟨rfl, fun i _ => hclean bl hb i⟩ h₁
    rw [GPT.writeAll_singleton] at h₂ h₄
    obtain ⟨buf, hret, hb₂⟩ := BlockDevice.write_buffered hb₁ (hwhole _ hfst) h₂
    have hwaits₂ := hunwritten.waits (buf.data.splice 0 u) (hvalid _ hfst) hret
    obtain ⟨bl₃, hb₃, hbits₃, hwaits₃⟩ := writeAll_waits hwholeMid hcount (fun e he => hin e (hmem e he)) hs₂ hb₂
      (fun e he => BufferList.slot_ne_of_bits hbits₁ (hmid e he)) hwaits₂ h₃
    have hbits : bl₃.bits = bl.bits := hbits₃.trans hbits₁
    have hne : bl₃.slot s ≠ bl₃.slot t := by
      apply BufferList.slot_ne_of_bits hbits
      intro heq
      rw [heq] at hslot
      exact Nat.lt_irrefl _ hslot
    obtain ⟨buf₄, hret₄, hb₄⟩ := BlockDevice.write_buffered hb₃ (hwhole _ hlast) h₄
    have hwaits₄ := hwaits₃.other (buf₄.data.splice 0 w) (hs₃.coherent bl₃ hb₃) hne (hvalid _ hlast) hret₄
    have hlast₄ := BufferList.waits_written (buf₄.data.splice 0 w) (hvalid _ hlast) hret₄
    have hdata : ((bl₃.put (bl₃.slot t) { buf₄ with data := buf₄.data.splice 0 w, dirty := true }).get t).data =
        buf₄.data.splice 0 w := by rw [BufferList.get_put, if_pos rfl]
    obtain ⟨c, hc, hct, hcs⟩ := BlockDevice.sync_order hs₄.coherent hb₄ hwaits₄ hlast₄
      (by
        change t % 2 ^ bl₃.bits < s % 2 ^ bl₃.bits
        rw [hbits]
        exact hslot) hrun
    refine ⟨c, Medium.since_mono hev (BlockDevice.sync_spec hs₄.coherent hrun).1.evolves hc, ?_, hcs⟩
    exact Sector.block_of_splice (hwhole _ hlast) (hct.trans hdata)

end Buffered

theorem writeAndSync_faultless {ws : List (Nat × List UInt8)} (hwhole : Whole (2 ^ k) ws) {d : BlockDevice k}
    (hfaults : ∀ n, d.faults.fails n = false) : (writeAndSync (2 ^ k) ws d).1 = true := by
  have hall : ∃ d', writeAll (2 ^ k) ws d = (true, d') ∧ d'.faults = d.faults := by
    induction ws generalizing d with
    | nil => exact ⟨d, rfl, rfl⟩
    | cons w ws ih =>
      obtain ⟨d₁, hw, hf₁⟩ := BlockDevice.write_faultless (s := w.1) hfaults (hwhole w List.mem_cons_self)
      obtain ⟨d', hrest, hf⟩ := ih hwhole.tail (d := d₁) (by rwa [hf₁])
      have hdevice : Device.write d (w.1 * 2 ^ k) w.2 = (true, d₁) := hw
      refine ⟨d', ?_, hf.trans hf₁⟩
      rw [writeAll, hdevice]
      exact hrest
  obtain ⟨d', hall, hf⟩ := hall
  rw [writeAndSync, hall]
  exact BlockDevice.sync_faultless (by rwa [hf])

namespace GPT
variable {b : Build} {env : FormatEnv} {device : BlockDevice k} {pt table : List (PartInfo b)} {diskGuid : Uuid}
  {result : Formatted b (BlockDevice k)}

/-- The sector writes of a call of formatDisk: none, or those of the table as validate has resolved it. -/
def Writes (env : FormatEnv) (device : BlockDevice k) (table : List (PartInfo b)) (diskGuid : Uuid)
    (ws : List (Nat × List UInt8)) : Prop :=
  ws = [] ∨ ∃ parts, validate (ownRange b device) table = some (.returned .success parts) ∧
    ws = tableWrites (ownLayout b device) parts env (if diskGuid.isNull then env.generated else diskGuid)

theorem sound_of_ready (hready : LawfulDevice.Ready device) : Sound device.sectorCount device := ⟨rfl, hready.1⟩

theorem since_refl {m : Medium k} {c : Nat → Sector k} (hc : c ∈ Medium.since m m) : c = m.sectors :=
  ((Medium.Evolves.refl (P := fun _ => False)).mem_since hc).elim False.elim id

variable (env pt diskGuid) in
/-- On a block device without raw failures formatDisk succeeds with any table that validate accepts. -/
theorem formatDisk_faultless {buffer : Nat → UInt8} {parts : List (PartInfo b)}
    (hfaults : ∀ n, device.faults.fails n = false)
    (hdevice : Suitable b device) (hne : table ≠ []) (hbuffer : env.buffer = some buffer)
    (hvalidate : validate (ownRange b device) table = some (.returned .success parts)) :
    ∃ d', formatDisk env device pt table diskGuid = some ⟨.success, d', parts, []⟩ := by
  have hwhole : Whole (2 ^ k) (tableWrites (ownLayout b device) parts env
    (if diskGuid.isNull then env.generated else diskGuid)) := whole_tableWrites
  have hok := writeAndSync_faultless hwhole hfaults
  rcases hw : writeTables (ownLayout b device) env buffer diskGuid parts device with ⟨ok, d'⟩
  have heq := hw
  rw [writeTables_eq hdevice.fits] at heq
  rw [show (ownLayout b device).sectorSize = 2 ^ k from rfl] at heq
  rw [heq] at hok
  obtain rfl : ok = true := hok
  refine ⟨d', ?_⟩
  rw [formatDisk, if_neg (mt List.isEmpty_iff.mp hne), hdevice.supported.choose]
  dsimp only
  rw [hbuffer]
  dsimp only
  rw [hdevice.count_eq, hvalidate]
  dsimp only
  rw [if_pos rfl, hw, handOver_eq, List.nil_append]

section FourMib

/-- A disk of 4 MiB, with these buffers. -/
def fourMib (buffers : Option (BufferList 9)) : BlockDevice 9 :=
  { BlockDevice.fresh 8192 ⟨fun _ => false, fun _ => Sector.zero⟩ fun _ => Sector.zero with buffers := buffers }

theorem fourMib_suitable (buffers : Option (BufferList 9)) : Suitable ⟨true, true, true, 512⟩ (fourMib buffers) := by
  have hroom : (⟨512, 8192⟩ : Layout ⟨true, true, true, 512⟩).firstAllocatableSector +
      ((⟨512, 8192⟩ : Layout ⟨true, true, true, 512⟩).numPartitionTableSectors + 1) ≤ 8192 := by decide +kernel
  have hsize : 8192 * 512 < Build.storageSize ⟨true, true, true, 512⟩ := by decide
  have hunit : SectorUnit 512 := ⟨by decide, by decide, by decide⟩
  have haligned : 512 ∣ GPT_ITEMS * GPT_ENTRY_SIZE := by decide
  exact ⟨⟨⟨hunit, le_refl 512⟩, hsize, hroom⟩, haligned⟩

theorem fourMib_ready (memory : Nat → Sector 9) (count : Nat) :
    LawfulDevice.Ready (fourMib (some (.new count memory))) := by
  have hcount : 8192 ≤ 2 ^ 32 - 1 := by decide
  refine ⟨fun bl hbl => ?_, hcount⟩
  cases hbl
  exact (BufferList.coherent_new count memory _).1

theorem fourMib_formatted (buffers : Option (BufferList 9)) : ∃ result,
    formatDisk (b := ⟨true, true, true, 512⟩) ⟨some fun _ => 0, Uuid.null, []⟩ (fourMib buffers) []
      [PartInfo.new [0x61] ⟨1, 0⟩ 0 100] Uuid.null = some result ∧ result.err = .success := by
  have hverdict : (validate (Available.of ⟨true, true, true, 512⟩
      (⟨512, 8192⟩ : Layout ⟨true, true, true, 512⟩).firstAllocatableSector
      (⟨512, 8192⟩ : Layout ⟨true, true, true, 512⟩).allocatableSectors 512) [PartInfo.new [0x61] ⟨1, 0⟩ 0 100]).map
        verdictError = some .success := by decide +kernel
  obtain ⟨v, hv, heq⟩ := Option.map_eq_some_iff.mp hverdict
  cases v with
  | aborted => cases heq
  | returned err parts =>
    obtain rfl : err = .success := heq
    obtain ⟨d', hformat⟩ := formatDisk_faultless ⟨some fun _ => 0, Uuid.null, []⟩ [] Uuid.null
      (fun _ => rfl) (fourMib_suitable buffers) (List.cons_ne_nil _ _) rfl hv
    exact ⟨_, hformat, rfl⟩

end FourMib

variable (hready : LawfulDevice.Ready device) (hdevice : Suitable b device)
  (hformat : formatDisk env device pt table diskGuid = some result)
include hready hdevice hformat

/-- With one buffer at most the protective MBR is the last sector of the table that the medium gets: at
every moment of the call sector 0 is as it was, or the whole table is there. -/
theorem formatDisk_commits_last (hone : device.AtMostOne) :
    ∀ c ∈ Medium.since device.medium result.device.medium,
      c 0 = device.medium.sectors 0 ∨ c 0 = device.logicalSector 0 ∨
        ∃ parts guid, validate (ownRange b device) table = some (.returned .success parts) ∧
          Partitioned (ownLayout b device) guid parts (Sector.flat c) := by
  intro c hc
  have hl := hdevice.fits
  rcases hdevice.formatDisk_writes hformat with ⟨_, heq⟩ | ⟨parts, hvalidate, hrun⟩
  · rw [heq] at hc
    exact .inl (congrFun (since_refl hc) 0)
  · generalize (if diskGuid.isNull then env.generated else diskGuid) = guid at hrun
    have hwhole : Whole (2 ^ k) (tableWrites (ownLayout b device) parts env guid) := whole_tableWrites
    have hin : ∀ w ∈ tableWrites (ownLayout b device) parts env guid, w.1 < device.sectorCount :=
      fun w hw => (tableSector_of_mem hl hw).lt hl
    have hev := writeAndSync_prefixes hwhole hready.2 hin (sound_of_ready hready) hone
    rw [show (writeAndSync (2 ^ k) (tableWrites (ownLayout b device) parts env guid) device).2 = result.device from
      congrArg Prod.snd hrun] at hev
    rcases hev.mem_since hc with ⟨n, hn, hflat⟩ | rfl
    · rcases Nat.lt_or_eq_of_le hn with hlt | rfl
      · -- the write to sector 0 is the last one
        obtain ⟨init, v, hsplit, hfresh⟩ := tableWrites_last parts env guid hl
        have hkept : 0 ∉ ((tableWrites (ownLayout b device) parts env guid).take n).map Prod.fst := by
          rw [hsplit] at hlt ⊢
          rw [List.length_append, List.length_singleton] at hlt
          rw [List.take_append_of_le_length (Nat.le_of_lt_succ hlt)]
          intro hmem
          exact hfresh ((List.take_sublist n init).map Prod.fst |>.subset hmem)
        refine .inr (.inl (Sector.eq_of_block ?_))
        rw [hflat, hready.1.logicalSector_eq]
        exact block_overwrite_notMem (hwhole.take n) hkept
      · refine .inr (.inr ⟨parts, guid, hvalidate, ?_⟩)
        rw [hflat, List.take_length]
        exact partitioned_tableWrites hl _ env guid
    · exact .inl rfl

omit hready hdevice hformat in
/-- With one buffer. -/
theorem formatDisk_commits_last_four_mib : ∃ result : Formatted ⟨true, true, true, 512⟩ (BlockDevice 9),
    result.err = .success ∧
      ∀ c ∈ Medium.since (fourMib (some (.new 1 fun _ => Sector.zero))).medium result.device.medium,
      c 0 = Sector.zero ∨ c 0 = (fourMib (some (.new 1 fun _ => Sector.zero))).logicalSector 0 ∨
        ∃ (parts : List (PartInfo ⟨true, true, true, 512⟩)) (guid : Uuid),
          validate (ownRange _ (fourMib (some (.new 1 fun _ => Sector.zero)))) [PartInfo.new [0x61] ⟨1, 0⟩ 0 100] =
            some (.returned .success parts) ∧
          Partitioned (ownLayout _ (fourMib (some (.new 1 fun _ => Sector.zero)))) guid parts (Sector.flat c) := by
  obtain ⟨result, hformat, hok⟩ := fourMib_formatted (some (.new 1 fun _ => Sector.zero))
  refine ⟨result, hok, formatDisk_commits_last (fourMib_ready (fun _ => Sector.zero) 1) (fourMib_suitable _) hformat ?_⟩
  intro bl hbl
  cases hbl
  rfl

/-- With two buffers or more this is not so: buffers are flushed in the order of their slots, and that of
sector 0 is the first. When the call succeeds on a device without dirty buffers, there was a moment when
the protective MBR was on the medium and the primary header was not, unless the secondary header
has taken its buffer. -/
theorem formatDisk_commits_early {bl : BufferList k} (hb : device.buffers = some bl) (hbits : 1 ≤ bl.bits)
    (hclean : device.NoneDirty) (hslot : (device.sectorCount - 1) % 2 ^ bl.bits ≠ 1) (hok : result.err = .success) :
    ∃ c ∈ Medium.since device.medium result.device.medium,
      slice (Sector.flat c) 0 512 = protectiveMbr (ownLayout b device) ∧ c 1 = device.medium.sectors 1 := by
  have hl := hdevice.fits
  have hs := sound_of_ready hready
  have hroom := hl.room
  have hfirst := hl.first_le
  have hbackup := hl.backup_eq
  have hcountlt : device.sectorCount ≤ Buffer.invalid := hready.2
  have htwo : 2 ^ 1 ≤ 2 ^ bl.bits := Nat.pow_le_pow_right (by decide) hbits
  have hsectors : ∀ {parts : List (PartInfo b)} {guid : Uuid},
      ∀ w ∈ tableWrites (ownLayout b device) parts env guid, w.1 < device.sectorCount :=
    fun w hw => (tableSector_of_mem hl hw).lt hl
  rcases hdevice.formatDisk_writes hformat with ⟨herr, _⟩ | ⟨parts, _, hrun⟩
  · exact absurd hok herr
  · rw [decide_eq_true hok] at hrun
    generalize (if diskGuid.isNull then env.generated else diskGuid) = guid at hrun
    have hwhole : Whole (2 ^ k) (tableWrites (ownLayout b device) parts env guid) := whole_tableWrites
    have hsplit : tableWrites (ownLayout b device) parts env guid = arrayWrites (ownLayout b device) parts 0 ++
        ((1, block (2 ^ k) (primaryBuffer (ownLayout b device) parts env guid) 0) ::
          [(device.sectorCount - 1, block (2 ^ k) (secondaryBuffer (ownLayout b device) parts env guid) 0)] ++
          [(0, block (2 ^ k) (patch (secondaryBuffer (ownLayout b device) parts env guid) 0
            (protectiveMbr (ownLayout b device))) 0)]) := rfl
    have hin : ∀ w ∈ tableWrites (ownLayout b device) parts env guid, w.1 < device.sectorCount := hsectors
    have hfresh : 1 ∉ (arrayWrites (ownLayout b device) parts 0).map Prod.fst := by
      have hnodup := nodup_tableWrites parts env guid hl
      rw [hsplit, List.map_append, List.nodup_append] at hnodup
      exact fun hmem => hnodup.2.2 1 hmem 1 List.mem_cons_self rfl
    have hone : (bl.slot 1).val = 1 := Nat.mod_eq_of_lt (by omega)
    have hzero : (bl.slot 0).val = 0 := Nat.zero_mod _
    rw [hsplit] at hwhole hin hrun
    obtain ⟨c, hc, hmbr, hheader⟩ := writeAndSync_early hwhole hready.2 hin hs hb hclean hfresh
      (List.forall_mem_singleton.mpr fun heq => hslot ((congrArg Fin.val heq).symm.trans hone)) (by omega) hrun
    refine ⟨c, hc, ?_, hheader⟩
    have hmin : 512 ≤ 2 ^ k := hl.min_le
    have hlen : (protectiveMbr (ownLayout b device)).length = 512 := length_protectiveMbr _
    rw [block, Nat.zero_mul, block, Nat.zero_mul] at hmbr
    rw [← take_slice _ 0 hmin, hmbr, take_slice _ 0 hmin, ← hlen]
    exact slice_patch_same _ 0 _

omit hready hdevice hformat in
/-- With four buffers. -/
theorem formatDisk_commits_early_four_mib : ∃ result : Formatted ⟨true, true, true, 512⟩ (BlockDevice 9),
    result.err = .success ∧
      ∃ c ∈ Medium.since (fourMib (some (.new 4 fun _ => Sector.zero))).medium result.device.medium,
        slice (Sector.flat c) 0 512 =
          protectiveMbr (ownLayout ⟨true, true, true, 512⟩ (fourMib (some (.new 4 fun _ => Sector.zero)))) ∧
        c 1 = Sector.zero := by
  obtain ⟨result, hformat, hok⟩ := fourMib_formatted (some (.new 4 fun _ => Sector.zero))
  refine ⟨result, hok, formatDisk_commits_early (fourMib_ready (fun _ => Sector.zero) 4) (fourMib_suitable _) hformat
    rfl (by decide) (fun bl hbl i => ?_) (by decide) hok⟩
  cases hbl
  rfl

end GPT

end DiskStorage
