import DiskStorage.BlockDevice.Durability

/-! What succeeds once raw operations have stopped to fail. -/
namespace DiskStorage
open Runs
variable {k : Nat}

/-- No raw operation fails from this number on. -/
def Faults.OkFrom (f : Faults k) (calls : Nat) : Prop := ∀ n, calls ≤ n → f.fails n = false

namespace Faults.OkFrom

theorem mono {f : Faults k} {c c' : Nat} (h : f.OkFrom c) (hle : c ≤ c') : f.OkFrom c' :=
  fun n hn => h n (hle.trans hn)

end Faults.OkFrom

section Buffers
variable {f : Faults k} {m : Medium k}

theorem flushBuffer_ok (h : f.OkFrom m.calls) (buf : Buffer k) :
    (flushBuffer f buf m).1 = true ∧ m.calls ≤ (flushBuffer f buf m).2.2.calls := by
  rw [flushBuffer, rawSectorWrite_one, h _ le_rfl]
  cases buf.dirty with
  | false => exact ⟨rfl, le_rfl⟩
  | true => exact ⟨rfl, Nat.le_succ _⟩

theorem retarget_ok (h : f.OkFrom m.calls) (buf : Buffer k) (s : Nat) (fill : Bool) :
    (retarget f buf m s fill).1 = true ∧ m.calls ≤ (retarget f buf m s fill).2.2.calls := by
  have hflush := flushBuffer_ok h buf
  rw [retarget]
  split
  · exact ⟨rfl, le_rfl⟩
  · split
    · rename_i hfl
      rw [hfl] at hflush
      exact absurd hflush.1 Bool.false_ne_true
    · rename_i buf' m' hfl
      rw [hfl] at hflush
      rw [rawSectorRead, h _ hflush.2]
      cases fill with
      | false => exact ⟨rfl, hflush.2⟩
      | true => exact ⟨rfl, hflush.2.trans (Nat.le_succ _)⟩

theorem readLoop_ok (h : f.OkFrom m.calls) (bl : BufferList k) (sector : Nat) (offset : Fin (2 ^ k)) (size : Nat) :
    (readLoop f bl m sector offset size).1.isSome = true ∧
      m.calls ≤ (readLoop f bl m sector offset size).2.2.calls := by
  fun_induction readLoop f bl m sector offset size with
  | case1 => exact ⟨rfl, le_rfl⟩
  | case2 bl m sector offset size hne buf m' hret =>
    have hok := (retarget_ok h (bl.get sector) sector true).1
    rw [hret] at hok
    cases hok
  | case3 bl m sector offset size hne chunkSize buf m' hret bl' m'' hrest ih =>
    have hok := retarget_ok h (bl.get sector) sector true
    rw [hret] at hok
    rw [hrest] at ih
    exact absurd (ih (h.mono hok.2)).1 Bool.false_ne_true
  | case4 bl m sector offset size hne chunkSize buf m' hret bl' m'' dst hrest ih =>
    have hok := retarget_ok h (bl.get sector) sector true
    rw [hret] at hok
    rw [hrest] at ih
    exact ⟨rfl, hok.2.trans (ih (h.mono hok.2)).2⟩

theorem writeLoop_ok (h : f.OkFrom m.calls) (bl : BufferList k) (sector : Nat) (offset : Fin (2 ^ k))
    (src : List UInt8) :
    (writeLoop f bl m sector offset src).1 = true ∧ m.calls ≤ (writeLoop f bl m sector offset src).2.2.calls := by
  fun_induction writeLoop f bl m sector offset src with
  | case1 => exact ⟨rfl, le_rfl⟩
  | case2 bl m sector offset src hne chunkSize buf m' hret =>
    have hok := (retarget_ok h (bl.get sector) sector (offset.val != 0 || chunkSize != 2 ^ k)).1
    rw [hret] at hok
    cases hok
  | case3 bl m sector offset src hne chunkSize buf m' hret buf' ih =>
    have hok := retarget_ok h (bl.get sector) sector (offset.val != 0 || chunkSize != 2 ^ k)
    rw [hret] at hok
    obtain ⟨hrest, hcalls⟩ := ih (h.mono hok.2)
    exact ⟨hrest, hok.2.trans hcalls⟩

theorem flushLoop_ok (h : f.OkFrom m.calls) (idx : List Nat) (bl : BufferList k) :
    (flushLoop f idx true bl m).1 = true ∧ m.calls ≤ (flushLoop f idx true bl m).2.2.calls := by
  induction idx generalizing bl m with
  | nil => exact ⟨rfl, le_rfl⟩
  | cons i idx ih =>
    have hflush := flushBuffer_ok h (bl.list (bl.slot i))
    rw [flushLoop]
    rcases hfl : flushBuffer f (bl.list (bl.slot i)) m with ⟨r, buf, m'⟩
    rw [hfl] at hflush
    obtain ⟨rfl, hcalls⟩ : r = true ∧ m.calls ≤ m'.calls := hflush
    obtain ⟨hrest, hcalls'⟩ := ih (h.mono hcalls) (bl.put (bl.slot i) buf)
    exact ⟨hrest, hcalls.trans hcalls'⟩

end Buffers

namespace BlockDevice
variable {d : BlockDevice k}

/-- What a device accepts: without buffers whole sectors only, and erases always of whole sectors. -/
def accepts (d : BlockDevice k) : Op k → Bool
  | .read address size => d.buffers.isSome || aligned (k := k) address size
  | .write address src => d.buffers.isSome || aligned (k := k) address src.length
  | .eraseRange address size => aligned (k := k) address size
  | .sync => true
  | .allocateBuffers numBuffers memory =>
    numBuffers == 0 || (memory.isSome &&
      (2 ^ getSizeBits numBuffers == numBuffers && decide (getSizeBits numBuffers < 31)))

theorem flushBuffers_ok (h : d.faults.OkFrom d.medium.calls) :
    d.flushBuffers.1 = true ∧ d.flushBuffers.2.faults = d.faults ∧
      d.medium.calls ≤ d.flushBuffers.2.medium.calls := by
  rw [flushBuffers]
  split
  · exact ⟨rfl, rfl, le_rfl⟩
  · rename_i bl _
    obtain ⟨hok, hcalls⟩ := flushLoop_ok h (List.range bl.size) bl
    exact ⟨hok, rfl, hcalls⟩

theorem read_ok (h : d.faults.OkFrom d.medium.calls) (address size : Nat) :
    (d.read address size).1.isSome = (d.buffers.isSome || aligned (k := k) address size) ∧
      (d.read address size).2.faults = d.faults ∧ d.medium.calls ≤ (d.read address size).2.medium.calls := by
  rw [read]
  cases hb : d.buffers with
  | none =>
    cases hal : aligned (k := k) address size with
    | false => exact ⟨rfl, rfl, le_rfl⟩
    | true =>
      simp [rawSectorRead, h _ le_rfl, Medium.tick]
  | some bl =>
    obtain ⟨hok, hcalls⟩ := readLoop_ok h bl (address / 2 ^ k) ⟨address % 2 ^ k, Nat.mod_lt _ (Nat.two_pow_pos k)⟩ size
    exact ⟨hok, rfl, hcalls⟩

theorem write_ok (h : d.faults.OkFrom d.medium.calls) (address : Nat) (src : List UInt8) :
    (d.write address src).1 = (d.buffers.isSome || aligned (k := k) address src.length) ∧
      (d.write address src).2.faults = d.faults ∧ d.medium.calls ≤ (d.write address src).2.medium.calls := by
  rw [write]
  cases hb : d.buffers with
  | none =>
    cases hal : aligned (k := k) address src.length with
    | false => exact ⟨rfl, rfl, le_rfl⟩
    | true =>
      simp [rawSectorWrite, h _ le_rfl, Medium.become]
  | some bl =>
    obtain ⟨hok, hcalls⟩ := writeLoop_ok h bl (address / 2 ^ k) ⟨address % 2 ^ k, Nat.mod_lt _ (Nat.two_pow_pos k)⟩ src
    exact ⟨hok, rfl, hcalls⟩

theorem eraseRange_ok (h : d.faults.OkFrom d.medium.calls) (address size : Nat) :
    (d.eraseRange address size).1 = aligned (k := k) address size ∧
      (d.eraseRange address size).2.faults = d.faults ∧
      d.medium.calls ≤ (d.eraseRange address size).2.medium.calls := by
  rw [eraseRange]
  cases hal : aligned (k := k) address size with
  | false => exact ⟨rfl, rfl, le_rfl⟩
  | true =>
    simp [rawSectorEraseRange, h _ le_rfl, Medium.become]

theorem sync_ok (h : d.faults.OkFrom d.medium.calls) :
    d.sync.1 = true ∧ d.sync.2.faults = d.faults ∧ d.medium.calls ≤ d.sync.2.medium.calls := by
  have hflush := flushBuffers_ok h
  rw [sync]
  rcases hfl : d.flushBuffers with ⟨r, d₁⟩
  rw [hfl] at hflush
  obtain ⟨rfl, hfaults, hcalls⟩ : r = true ∧ d₁.faults = d.faults ∧ d.medium.calls ≤ d₁.medium.calls := hflush
  rw [← hfaults] at h
  refine ⟨?_, hfaults, hcalls.trans (Nat.le_succ _)⟩
  simp [rawSync, h _ hcalls]

theorem allocateBuffers_ok (h : d.faults.OkFrom d.medium.calls) (numBuffers : Nat)
    (memory : Option (Nat → Sector k)) :
    (d.allocateBuffers numBuffers memory).1 = (numBuffers == 0 || (memory.isSome &&
        (2 ^ getSizeBits numBuffers == numBuffers && decide (getSizeBits numBuffers < 31)))) ∧
      (d.allocateBuffers numBuffers memory).2.faults = d.faults ∧
      d.medium.calls ≤ (d.allocateBuffers numBuffers memory).2.medium.calls := by
  have hflush := flushBuffers_ok h
  rw [allocateBuffers]
  rcases hfl : d.flushBuffers with ⟨r, d₁⟩
  rw [hfl] at hflush
  obtain ⟨rfl, hfaults, hcalls⟩ : r = true ∧ d₁.faults = d.faults ∧ d.medium.calls ≤ d₁.medium.calls := hflush
  by_cases hzero : numBuffers = 0
  · simp [hzero, hfaults, hcalls]
  · cases memory with
    | none => simp [hzero, hfaults, hcalls]
    | some memory =>
      by_cases hbits : getSizeBits numBuffers < 31
      · simp [hzero, hbits, hfaults, hcalls, BufferList.size, BufferList.new]
      · simp [hzero, hbits, hfaults, hcalls]

/-- Without failures every operation that the device accepts succeeds, and no other. -/
theorem exec_ok (h : d.faults.OkFrom d.medium.calls) (op : Op k) :
    (op.exec d).1.ok = d.accepts op ∧ (op.exec d).2.faults = d.faults ∧
      d.medium.calls ≤ (op.exec d).2.medium.calls := by
  cases op with
  | read address size => exact read_ok h address size
  | write address src => exact write_ok h address src
  | eraseRange address size => exact eraseRange_ok h address size
  | sync => exact sync_ok h
  | allocateBuffers numBuffers memory => exact allocateBuffers_ok h numBuffers memory

end BlockDevice

/-- However often raw operations have failed in a run, nothing stays stuck. From the moment on when no
more of them fails exactly the operations succeed that the device accepts, and each sync brings all that
has been written to the medium, also what could not be flushed before. -/
theorem succeeds_after_failures (sectorCount : Nat) (hcount : sectorCount ≤ 2 ^ 32 - 1) (faults : Faults k)
    (sectors : Nat → Sector k) {pre post : List ((Op k × Outcome) × BlockDevice k)} {d₀ d₁ : BlockDevice k}
    (h₀ : d₀ = .fresh sectorCount faults sectors) (h₁ : d₁ = last d₀ pre) (run : Run deviceStep d₀ (pre ++ post))
    (hin : ∀ e ∈ pre ++ post, e.1.1.InRange sectorCount) (hok : faults.OkFrom d₁.medium.calls) :
    ∀ done e d rest, post = done ++ (e, d) :: rest →
      e.2.ok = (last d₁ done).accepts e.1 ∧
      (e.1 = .sync → d.medium.sectors = (last d₁ done).logicalSector ∧
        d.logicalSector = (last d₁ done).logicalSector) := by
  subst h₀ h₁
  rintro done ⟨op, o⟩ d rest rfl
  obtain ⟨hpre, hpost⟩ := run_append_iff.mp run
  obtain ⟨hdone, hrest⟩ := run_append_iff.mp hpost
  have hin₁ : ∀ e ∈ pre, e.1.1.InRange sectorCount := fun e he => hin e (List.mem_append_left _ he)
  have hin₂ : ∀ e ∈ done, e.1.1.InRange sectorCount :=
    fun e he => hin e (List.mem_append_right _ (List.mem_append_left _ he))
  have hstart := run_sound hcount (sound_fresh sectorCount faults sectors) hpre hin₁
  -- the failures stay over
  obtain ⟨hsound, hfaults, hcalls⟩ := @Run.invariant _ _ deviceStep
    (fun d => Sound sectorCount d ∧ d.faults = faults ∧ faults.OkFrom d.medium.calls)
    (fun e => e.1.InRange sectorCount) _ _ hdone ⟨hstart.1, hstart.2, hok⟩ hin₂ fun d e d' hd he hstep => by
      obtain ⟨hs, hf, hcalls⟩ := hd
      rw [← hf] at hcalls
      obtain ⟨_, hf', hle⟩ := BlockDevice.exec_ok hcalls e.1
      rw [show e.1.exec d = (e.2, d') from hstep] at hf' hle
      rw [hf] at hcalls
      exact ⟨(sound_step hcount hs he hstep).1, hf'.trans hf, hcalls.mono hle⟩
  replace hcalls : (last (last (.fresh sectorCount faults sectors) pre) done).faults.OkFrom
      (last (last (.fresh sectorCount faults sectors) pre) done).medium.calls := by rwa [hfaults]
  cases hrest with
  | cons hstep _ =>
    have he := hin ((op, o), d) (by simp)
    obtain ⟨hsucceeds, _, _⟩ := BlockDevice.exec_ok hcalls op
    rw [show op.exec _ = (o, d) from hstep] at hsucceeds
    refine ⟨hsucceeds, fun hop => ?_⟩
    obtain ⟨hkept, hflat, hclean⟩ := exec_spec hcount hsound he hstep
    obtain rfl : op = .sync := hop
    have hseen : d.seen = (last (last (.fresh sectorCount faults sectors) pre) done).seen := by
      funext s
      apply Sector.flat_ext
      intro i _
      exact congrFun hflat _
    rw [hkept.coherent.logicalSector_eq, hsound.coherent.logicalSector_eq, ← hseen]
    exact ⟨(BlockDevice.seen_of_noneDirty hkept.coherent (hclean rfl hsucceeds)).symm, rfl⟩

/-- A read that fails, and again with success. -/
theorem succeeds_after_failures_eight :
    let d₁ : BlockDevice 9 := ((Op.read 0 512).exec
      (.fresh 8 ⟨fun n => n == 0, fun _ => Sector.zero⟩ fun _ => Sector.zero)).2
    ((Op.read 0 512).exec d₁).1.ok = true ∧ ((Op.read 3 4).exec d₁).1.ok = false := by
  intro d₁
  have hin : ∀ op : Op 9, op = .read 0 512 ∨ op = .read 3 4 → op.InRange 8 := by
    rintro op (rfl | rfl) <;> simp [Op.InRange]
  have hok : (⟨fun n => n == 0, fun _ => Sector.zero⟩ : Faults 9).OkFrom d₁.medium.calls :=
    fun n hn => beq_false_of_ne (Nat.ne_of_gt hn)
  have hone : ∀ op : Op 9, op = .read 0 512 ∨ op = .read 3 4 → (op.exec d₁).1.ok = d₁.accepts op := by
    intro op hop
    refine (succeeds_after_failures 8 (by decide) _ _ rfl rfl
      (run_append_iff.mpr ⟨run_trace _ [.read 0 512], run_trace _ [op]⟩) (fun e he => ?_) hok [] _ _ [] rfl).1
    rcases List.mem_append.mp he with he | he
    · exact hin _ (.inl (List.mem_singleton.mp (op_of_mem_trace he)))
    · rw [List.mem_singleton.mp (op_of_mem_trace he)]
      exact hin op hop
  exact ⟨hone _ (.inl rfl), hone _ (.inr rfl)⟩

end DiskStorage
