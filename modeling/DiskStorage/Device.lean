import DiskStorage.PartInfo
import DiskStorage.BlockDevice.Progress
import DiskStorage.Lib.LittleEndian

/-! The device interface of the partitioning code, what it relies on, and the buffered block
device as an instance. -/
namespace DiskStorage
open ByteStore

/-- The operations that formatDisk and the scanner use. A read returns the bytes it copies out. -/
class Device (σ : Type) where
  read : σ → Nat → Nat → Option (List UInt8) × σ
  write : σ → Nat → List UInt8 → Bool × σ
  sync : σ → Bool × σ
  getSectorSize : σ → Nat
  getSectorCount : σ → Nat

namespace Device
variable {σ : Type} [Device σ]

/-- `getSize` -/
def capacity (d : σ) : Nat := getSectorCount d * getSectorSize d

/-- The states a device may go on to. -/
inductive Later : σ → σ → Prop
  | refl (d : σ) : Later d d
  | read {d d' : σ} (address size : Nat) : Later d d' → Later d (Device.read d' address size).2
  | write {d d' : σ} (address : Nat) (src : List UInt8) : Later d d' → Later d (Device.write d' address src).2
  | sync {d d' : σ} : Later d d' → Later d (Device.sync d').2

/-- No read of whole units inside the device fails from now on. -/
def ReadsSucceed (unit : Nat) (d : σ) : Prop :=
  ∀ d', Later d d' → ∀ address size, unit ∣ address → unit ∣ size → address + size ≤ capacity d' →
    (Device.read d' address size).1.isSome

theorem Later.trans {d d' d'' : σ} (h : Later d d') (h' : Later d' d'') : Later d d'' := by
  induction h' with
  | refl => exact h
  | read address size _ ih => exact .read address size ih
  | write address src _ ih => exact .write address src ih
  | sync _ ih => exact .sync ih

theorem ReadsSucceed.read {unit : Nat} {d : σ} (h : ReadsSucceed unit d) (address size : Nat) :
    ReadsSucceed unit (Device.read d address size).2 :=
  fun d' hl => h d' ((Later.read address size (.refl d)).trans hl)

/-- No write of whole units inside the device, and no sync, fails from now on. -/
def WritesSucceed (unit : Nat) (d : σ) : Prop :=
  ∀ d', Later d d' → (∀ address src, unit ∣ address → unit ∣ src.length → address + src.length ≤ capacity d' →
    (Device.write d' address src).1 = true) ∧ (Device.sync d').1 = true

theorem WritesSucceed.write {unit : Nat} {d : σ} (h : WritesSucceed unit d) (address : Nat) (src : List UInt8) :
    WritesSucceed unit (Device.write d address src).2 :=
  fun d' hl => h d' ((Later.write address src (.refl d)).trans hl)

end Device

/-- A device that keeps what is written to it, as long as operations stay inside. -/
class LawfulDevice (σ : Type) extends Device σ where
  /-- What reads return, and what is on the medium. -/
  content : σ → Nat → UInt8
  medium : σ → Nat → UInt8
  Ready : σ → Prop
  read_spec : ∀ {d d' : σ} {address size : Nat} {dst : Option (List UInt8)}, Ready d →
    address + size ≤ Device.capacity d → read d address size = (dst, d') →
    Ready d' ∧ getSectorSize d' = getSectorSize d ∧ getSectorCount d' = getSectorCount d ∧ content d' = content d ∧
      ∀ bytes, dst = some bytes → bytes = slice (content d) address size
  write_spec : ∀ {d d' : σ} {address : Nat} {src : List UInt8} {ok : Bool}, Ready d →
    address + src.length ≤ Device.capacity d → write d address src = (ok, d') →
    Ready d' ∧ getSectorSize d' = getSectorSize d ∧ getSectorCount d' = getSectorCount d ∧
      (ok = true → content d' = patch (content d) address src)
  sync_spec : ∀ {d d' : σ} {ok : Bool}, Ready d → sync d = (ok, d') →
    Ready d' ∧ getSectorSize d' = getSectorSize d ∧ getSectorCount d' = getSectorCount d ∧ content d' = content d ∧
      (ok = true → medium d' = content d)

/-- What a device holds after operations that started from `d₀`. -/
structure Holds {σ : Type} [LawfulDevice σ] (d₀ d : σ) (f : Nat → UInt8) : Prop where
  ready : LawfulDevice.Ready d
  sectorSize_eq : Device.getSectorSize d = Device.getSectorSize d₀
  sectorCount_eq : Device.getSectorCount d = Device.getSectorCount d₀
  content_eq : LawfulDevice.content d = f

namespace Holds
variable {σ : Type} [LawfulDevice σ] {d₀ d d' : σ} {f : Nat → UInt8} {address size : Nat}

theorem start (h : LawfulDevice.Ready d) : Holds d d (LawfulDevice.content d) := ⟨h, rfl, rfl, rfl⟩

theorem capacity_eq (h : Holds d₀ d f) : Device.capacity d = Device.capacity d₀ := by
  rw [Device.capacity, h.sectorSize_eq, h.sectorCount_eq, Device.capacity]

theorem write {src : List UInt8} (h : Holds d₀ d f) (hin : address + src.length ≤ Device.capacity d₀)
    (hw : Device.write d address src = (true, d')) : Holds d₀ d' (patch f address src) := by
  obtain ⟨hready, hsize, hcount, hcontent⟩ := LawfulDevice.write_spec h.ready (by rwa [h.capacity_eq]) hw
  exact ⟨hready, hsize.trans h.sectorSize_eq, hcount.trans h.sectorCount_eq, by rw [hcontent rfl, h.content_eq]⟩

theorem sync (h : Holds d₀ d f) (hs : Device.sync d = (true, d')) :
    Holds d₀ d' f ∧ LawfulDevice.medium d' = f := by
  obtain ⟨hready, hsize, hcount, hcontent, hmedium⟩ := LawfulDevice.sync_spec h.ready hs
  exact ⟨⟨hready, hsize.trans h.sectorSize_eq, hcount.trans h.sectorCount_eq, by rw [hcontent, h.content_eq]⟩,
    by rw [hmedium rfl, h.content_eq]⟩

theorem read {unit : Nat} (h : Holds d₀ d f) (hreads : Device.ReadsSucceed unit d) (ha : unit ∣ address)
    (hn : unit ∣ size) (hin : address + size ≤ Device.capacity d₀) :
    ∃ d', Device.read d address size = (some (slice f address size), d') ∧ Holds d₀ d' f ∧
      Device.ReadsSucceed unit d' := by
  have hin' : address + size ≤ Device.capacity d := by rwa [h.capacity_eq]
  obtain ⟨bytes, hbytes⟩ := Option.isSome_iff_exists.mp (hreads d (.refl d) address size ha hn hin')
  have hresult : Device.read d address size = (some bytes, (Device.read d address size).2) := Prod.ext hbytes rfl
  obtain ⟨hready, hsize, hcount, hcontent, hread⟩ := LawfulDevice.read_spec h.ready hin' hresult
  refine ⟨(Device.read d address size).2, ?_, ?_, hreads.read address size⟩
  · rw [← h.content_eq, ← hread bytes rfl]
    exact hresult
  · exact ⟨hready, hsize.trans h.sectorSize_eq, hcount.trans h.sectorCount_eq, by rw [hcontent, h.content_eq]⟩

end Holds

namespace BlockDevice
variable {k : Nat}

instance : Device (BlockDevice k) where
  read := BlockDevice.read
  write := BlockDevice.write
  sync := BlockDevice.sync
  getSectorSize _ := 2 ^ k
  getSectorCount d := d.sectorCount

/-- A coherent block device whose sector numbers fit the buffer tags is lawful. -/
instance : LawfulDevice (BlockDevice k) where
  content d := Sector.flat d.seen
  medium d := Sector.flat d.medium.sectors
  Ready d := d.Coherent ∧ d.sectorCount ≤ 2 ^ 32 - 1
  read_spec := by
    intro d d' address size dst hd hin h
    have hmul := Nat.mul_le_mul_right (2 ^ k) (show d.sectorCount ≤ Buffer.invalid from hd.2)
    obtain ⟨hk, hs, hdst⟩ := BlockDevice.read_spec hd.1 (le_trans hin hmul) h
    exact ⟨⟨hk.coherent, hk.size ▸ hd.2⟩, rfl, hk.size, congrArg Sector.flat hs, hdst⟩
  write_spec := by
    intro d d' address src ok hd hin h
    have hmul := Nat.mul_le_mul_right (2 ^ k) (show d.sectorCount ≤ Buffer.invalid from hd.2)
    obtain ⟨hk, n, _, hok, _, hs⟩ := BlockDevice.write_spec hd.1 (le_trans hin hmul) h
    refine ⟨⟨hk.coherent, hk.size ▸ hd.2⟩, rfl, hk.size, fun htrue => ?_⟩
    rw [hok htrue, List.take_length] at hs
    exact hs
  sync_spec := by
    intro d d' ok hd h
    obtain ⟨hk, hs, hclean⟩ := BlockDevice.sync_spec hd.1 h
    refine ⟨⟨hk.coherent, hk.size ▸ hd.2⟩, rfl, hk.size, congrArg Sector.flat hs, fun htrue => ?_⟩
    rw [← hs, BlockDevice.seen_of_noneDirty hk.coherent (hclean htrue)]

private theorem later_ok {d d' : BlockDevice k} (h : Device.Later d d') (hok : d.faults.OkFrom d.medium.calls) :
    d'.faults.OkFrom d'.medium.calls := by
  induction h with
  | refl => exact hok
  | @read d' address size _ ih =>
    obtain ⟨_, hfaults, hcalls⟩ := BlockDevice.read_ok ih address size
    change (d'.read address size).2.faults.OkFrom _
    rw [hfaults]
    exact ih.mono hcalls
  | @write d' address src _ ih =>
    obtain ⟨_, hfaults, hcalls⟩ := BlockDevice.write_ok ih address src
    change (d'.write address src).2.faults.OkFrom _
    rw [hfaults]
    exact ih.mono hcalls
  | @sync d' _ ih =>
    obtain ⟨_, hfaults, hcalls⟩ := BlockDevice.sync_ok ih
    change d'.sync.2.faults.OkFrom _
    rw [hfaults]
    exact ih.mono hcalls

private theorem aligned_of_dvd {address size : Nat} (ha : 2 ^ k ∣ address) (hn : 2 ^ k ∣ size) :
    aligned (k := k) address size = true := by
  simp [aligned, Nat.mod_eq_zero_of_dvd ha, Nat.mod_eq_zero_of_dvd hn]

/-- As long as no raw operation fails whole sectors are read, with buffers and without. -/
theorem readsSucceed {d : BlockDevice k} (hfaults : ∀ n, d.faults.fails n = false) :
    Device.ReadsSucceed (2 ^ k) d := by
  intro d' hlater address size ha hn _
  obtain ⟨hok, _⟩ := BlockDevice.read_ok (later_ok hlater fun n _ => hfaults n) address size
  rwa [aligned_of_dvd ha hn, Bool.or_true] at hok

theorem writesSucceed {d : BlockDevice k} (hfaults : ∀ n, d.faults.fails n = false) :
    Device.WritesSucceed (2 ^ k) d := by
  intro d' hlater
  have hlater' := later_ok hlater fun n _ => hfaults n
  refine ⟨fun address src ha hn _ => ?_, (BlockDevice.sync_ok hlater').1⟩
  obtain ⟨hok, _⟩ := BlockDevice.write_ok hlater' address src
  rwa [aligned_of_dvd ha hn, Bool.or_true] at hok

end BlockDevice

/-- A disk in memory, where every operation succeeds. -/
structure RamDisk where
  bytes : Nat → UInt8
  sectorSize : Nat
  sectorCount : Nat

namespace RamDisk

instance : Device RamDisk where
  read d address size := (some (slice d.bytes address size), d)
  write d address src := (true, { d with bytes := patch d.bytes address src })
  sync d := (true, d)
  getSectorSize := sectorSize
  getSectorCount := sectorCount

instance : LawfulDevice RamDisk where
  content := bytes
  medium := bytes
  Ready _ := True
  read_spec := by
    intro d d' address size dst _ _ h
    cases h
    exact ⟨trivial, rfl, rfl, rfl, fun _ hbytes => (Option.some.inj hbytes).symm⟩
  write_spec := by
    intro d d' address src ok _ _ h
    cases h
    exact ⟨trivial, rfl, rfl, fun _ => rfl⟩
  sync_spec := by
    intro d d' ok _ h
    cases h
    exact ⟨trivial, rfl, rfl, rfl, fun _ => rfl⟩

theorem writesSucceed (unit : Nat) (d : RamDisk) : Device.WritesSucceed unit d := fun _ _ =>
  ⟨fun _ _ _ _ _ => rfl, rfl⟩

theorem readsSucceed (unit : Nat) (d : RamDisk) : Device.ReadsSucceed unit d := fun _ _ _ _ _ _ _ => rfl

end RamDisk

/-- A disk image: some bytes, which do not change, and the reads that succeed. -/
structure Image where
  bytes : Nat → UInt8
  readable : Nat → Nat → Bool
  sectorSize : Nat
  sectorCount : Nat

namespace Image

instance : Device Image where
  read im address size := (if im.readable address size then some (slice im.bytes address size) else none, im)
  write im _ _ := (false, im)
  sync im := (true, im)
  getSectorSize := sectorSize
  getSectorCount := sectorCount

end Image

/-- An image of which reads may fail at some times: those that the image does not have as
readable, when the pattern says so of the number of reads before. -/
structure FlakyImage where
  image : Image
  fails : Nat → Bool
  reads : Nat

namespace FlakyImage

instance : Device FlakyImage where
  read d address size := (
    if d.image.readable address size || !d.fails d.reads then some (slice d.image.bytes address size) else none,
    { d with reads := d.reads + 1 })
  write d _ _ := (false, d)
  sync d := (true, d)
  getSectorSize d := d.image.sectorSize
  getSectorCount d := d.image.sectorCount

end FlakyImage

end DiskStorage
