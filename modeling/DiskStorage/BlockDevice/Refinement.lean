import DiskStorage.BlockDevice.Operations
import DiskStorage.Lib.Runs

/-! A block device, with or without sector buffers, is a flat byte store: whatever its raw
operations do, every run of its public operations is a run of the store. -/
namespace DiskStorage
open Runs
variable {k : Nat}

namespace FlatStore

/-- What a byte store may do for an operation and its outcome. Only a failed write leaves
a choice: a prefix of the source, ending on a sector boundary, may have been written. -/
def Step (f : Nat → UInt8) : Op k × Outcome → (Nat → UInt8) → Prop
  | (.read address size, o), g => g = f ∧ (o.ok = true → o.data = ByteStore.slice f address size)
  | (.write address src, ⟨true, _⟩), g => g = ByteStore.patch f address src
  | (.write address src, ⟨false, _⟩), g =>
    ∃ n ≤ src.length, (n = 0 ∨ (address + n) % 2 ^ k = 0) ∧ g = ByteStore.patch f address (src.take n)
  | (.eraseRange address size, ⟨true, _⟩), g =>
    address % 2 ^ k = 0 ∧ size % 2 ^ k = 0 ∧ g = ByteStore.patch f address (List.replicate size 0)
  | (.eraseRange _ _, ⟨false, _⟩), g => g = f
  | (.sync, _), g => g = f
  | (.allocateBuffers _ _, _), g => g = f

end FlatStore

namespace BufferList

/-- The buffer tagged with a sector, if there is one. -/
def holding (bl : BufferList k) (s : Nat) : Option (Buffer k) :=
  ((List.finRange (2 ^ bl.bits)).map bl.list).find? fun buf => buf.tag = some s

theorem holding_eq_some {bl : BufferList k} {s : Nat} {buf : Buffer k} (h : bl.holding s = some buf) :
    ∃ i, bl.list i = buf ∧ (bl.lines i).tag = some s := by
  obtain ⟨i, _, hi⟩ := List.mem_map.mp (List.mem_of_find?_eq_some h)
  have ht := List.find?_some h
  rw [← hi] at ht
  exact ⟨i, hi, of_decide_eq_true ht⟩

theorem holding_eq_none {bl : BufferList k} {s : Nat} (h : bl.holding s = none) (i : Fin (2 ^ bl.bits)) :
    (bl.lines i).tag ≠ some s := by
  have hi : bl.list i ∈ (List.finRange (2 ^ bl.bits)).map bl.list := List.mem_map_of_mem (List.mem_finRange i)
  exact fun ht => List.find?_eq_none.mp h _ hi (decide_eq_true ht)

end BufferList

namespace BlockDevice

/-- The logical content of a sector: the bytes of the buffer tagged with it when there is
one, else the medium's. -/
def logicalSector (d : BlockDevice k) (s : Nat) : Sector k :=
  match d.buffers.bind (·.holding s) with
  | some buf => buf.data
  | none => d.medium.sectors s

def logical (d : BlockDevice k) : Nat → UInt8 := Sector.flat d.logicalSector

theorem Coherent.logicalSector_eq {d : BlockDevice k} (hc : d.Coherent) : d.logicalSector = d.seen := by
  funext s
  unfold logicalSector seen
  rcases hb : d.buffers with _ | bl
  · rfl
  · rw [Option.bind_some]
    cases hh : bl.holding s with
    | none => exact (WriteBack.Coherent.view_of_untagged (BufferList.holding_eq_none hh)).symm
    | some buf =>
      obtain ⟨i, rfl, ht⟩ := BufferList.holding_eq_some hh
      exact (WriteBack.Coherent.view_of_tag (hc bl hb) ht).symm

theorem coherent_fresh (sectorCount : Nat) (faults : Faults k) (sectors : Nat → Sector k) :
    (fresh sectorCount faults sectors).Coherent := fun _ h => by cases h

end BlockDevice

/-- One public operation and its outcome. -/
def deviceStep (d : BlockDevice k) (e : Op k × Outcome) (d' : BlockDevice k) : Prop :=
  e.1.exec d = (e.2, d')

/-- The run a list of operations makes. -/
def trace (d : BlockDevice k) : List (Op k) → List ((Op k × Outcome) × BlockDevice k)
  | [] => []
  | op :: ops => ((op, (op.exec d).1), (op.exec d).2) :: trace (op.exec d).2 ops

theorem run_trace (d : BlockDevice k) (ops : List (Op k)) : Run deviceStep d (trace d ops) := by
  induction ops generalizing d with
  | nil => exact .nil d
  | cons op ops ih => exact .cons rfl (ih _)

theorem op_of_mem_trace {d : BlockDevice k} {ops : List (Op k)} {e : (Op k × Outcome) × BlockDevice k}
    (h : e ∈ trace d ops) : e.1.1 ∈ ops := by
  induction ops generalizing d with
  | nil => cases h
  | cons op ops ih =>
    rcases List.mem_cons.mp h with rfl | h
    · exact List.mem_cons_self ..
    · exact List.mem_cons_of_mem _ (ih h)

/-- What holds between the operations of a run. -/
structure Sound (sectorCount : Nat) (d : BlockDevice k) : Prop where
  size : d.sectorCount = sectorCount
  coherent : d.Coherent

theorem sound_fresh (sectorCount : Nat) (faults : Faults k) (sectors : Nat → Sector k) :
    Sound sectorCount (.fresh sectorCount faults sectors) := ⟨rfl, BlockDevice.coherent_fresh _ _ _⟩

/-- What every operation within the device does, seen through the buffers. -/
theorem exec_spec {sectorCount : Nat} (hcount : sectorCount ≤ 2 ^ 32 - 1) {d d' : BlockDevice k} {op : Op k}
    {o : Outcome} (hsound : Sound sectorCount d) (hin : op.InRange sectorCount) (h : deviceStep d (op, o) d') :
    d.Kept d' ∧ FlatStore.Step (Sector.flat d.seen) (op, o) (Sector.flat d'.seen) ∧
      (op = .sync → o.ok = true → d'.NoneDirty) := by
  have hc := hsound.coherent
  have hmul := Nat.mul_le_mul_right (2 ^ k) (show sectorCount ≤ Buffer.invalid from hcount)
  replace h : op.exec d = (o, d') := h
  cases op with
  | read address size =>
    rcases hr : d.read address size with ⟨dst, d₁⟩
    rw [Op.exec, hr] at h
    cases h
    obtain ⟨hk, hs, hd⟩ := BlockDevice.read_spec hc (le_trans hin hmul) hr
    refine ⟨hk, ⟨by rw [hs], fun hok => ?_⟩, fun he => by cases he⟩
    obtain ⟨bytes, rfl⟩ := Option.isSome_iff_exists.mp hok
    exact hd bytes rfl
  | write address src =>
    rcases hr : d.write address src with ⟨ok, d₁⟩
    rw [Op.exec, hr] at h
    cases h
    obtain ⟨hk, n, hn, hok, hfail, hs⟩ := BlockDevice.write_spec hc (le_trans hin hmul) hr
    refine ⟨hk, ?_, fun he => by cases he⟩
    cases ok with
    | true =>
      rw [hok rfl, List.take_length] at hs
      exact hs
    | false => exact ⟨n, hn, hfail rfl, hs⟩
  | eraseRange address size =>
    rcases hr : d.eraseRange address size with ⟨ok, d₁⟩
    rw [Op.exec, hr] at h
    cases h
    obtain ⟨hk, hfail, hok⟩ := BlockDevice.eraseRange_spec hc (le_trans hin hmul) hr
    refine ⟨hk, ?_, fun he => by cases he⟩
    cases ok with
    | true => exact hok rfl
    | false => exact congrArg Sector.flat (hfail rfl)
  | sync =>
    rcases hr : d.sync with ⟨ok, d₁⟩
    rw [Op.exec, hr] at h
    cases h
    obtain ⟨hk, hs, hclean⟩ := BlockDevice.sync_spec hc hr
    exact ⟨hk, congrArg Sector.flat hs, fun _ => hclean⟩
  | allocateBuffers numBuffers memory =>
    rcases hr : d.allocateBuffers numBuffers memory with ⟨ok, d₁⟩
    rw [Op.exec, hr] at h
    cases h
    obtain ⟨hk, hs⟩ := BlockDevice.allocateBuffers_spec hc hr
    exact ⟨hk, congrArg Sector.flat hs, fun he => by cases he⟩

theorem sound_step {sectorCount : Nat} (hcount : sectorCount ≤ 2 ^ 32 - 1) {d d' : BlockDevice k}
    {e : Op k × Outcome} (hs : Sound sectorCount d) (hin : e.1.InRange sectorCount) (h : deviceStep d e d') :
    Sound sectorCount d' ∧ FlatStore.Step d.logical e d'.logical := by
  obtain ⟨hk, hf, _⟩ := exec_spec hcount hs hin h
  refine ⟨⟨hk.size.trans hs.size, hk.coherent⟩, ?_⟩
  rw [BlockDevice.logical, BlockDevice.logical, hs.coherent.logicalSector_eq, hk.coherent.logicalSector_eq]
  exact hf

/-- Along a run a device stays sound, with the failures that it has. -/
theorem run_sound {sectorCount : Nat} (hcount : sectorCount ≤ 2 ^ 32 - 1) {d : BlockDevice k}
    {tr : List ((Op k × Outcome) × BlockDevice k)} (hs : Sound sectorCount d) (run : Run deviceStep d tr)
    (hin : ∀ e ∈ tr, e.1.1.InRange sectorCount) :
    Sound sectorCount (last d tr) ∧ (last d tr).faults = d.faults := by
  induction run with
  | nil => exact ⟨hs, rfl⟩
  | cons hstep _ ih =>
    have he := hin _ List.mem_cons_self
    obtain ⟨hkept, _⟩ := exec_spec hcount hs he hstep
    obtain ⟨hsound, hfaults⟩ := ih (sound_step hcount hs he hstep).1 fun e he => hin e (List.mem_cons_of_mem _ he)
    exact ⟨hsound, hfaults.trans hkept.faults⟩

/-- Every run of operations within a device of at most `2 ^ 32 - 1` sectors, for every
pattern of raw failures, is a run of the flat byte store on the logical content. -/
theorem blockDevice_refines_flatStore (sectorCount : Nat) (hcount : sectorCount ≤ 2 ^ 32 - 1)
    (faults : Faults k) (sectors : Nat → Sector k) {tr : List ((Op k × Outcome) × BlockDevice k)}
    (run : Run deviceStep (.fresh sectorCount faults sectors) tr)
    (hin : ∀ e ∈ tr, e.1.1.InRange sectorCount) :
    Run FlatStore.Step (Sector.flat sectors) (tr.map fun e => (e.1, e.2.logical)) :=
  Run.simulate run (sound_fresh sectorCount faults sectors) hin fun _ _ _ hs hl h => sound_step hcount hs hl h

/-- Two buffers over eight sectors: a misaligned write, an eviction and a failing read. -/
theorem blockDevice_refines_flatStore_eight :
    Run FlatStore.Step (Sector.flat fun _ => (Sector.zero : Sector 9))
      ((trace (k := 9) (.fresh 8 ⟨fun n => n == 3, fun _ => Sector.zero⟩ fun _ => Sector.zero)
        [.allocateBuffers 2 (some fun _ => Sector.zero), .write 500 (List.replicate 20 7), .read 1024 512,
          .read 1536 4, .eraseRange 0 512, .sync]).map fun e => (e.1, e.2.logical)) :=
  blockDevice_refines_flatStore 8 (by decide) _ _ (run_trace _ _) fun e he => by
    have := op_of_mem_trace he
    simp only [List.mem_cons, List.not_mem_nil, or_false] at this
    rcases this with h | h | h | h | h | h <;> rw [h] <;> simp [Op.InRange]

end DiskStorage
