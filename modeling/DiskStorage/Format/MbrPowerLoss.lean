import DiskStorage.Format.Mbr
import DiskStorage.Format.PowerLoss

/-! A power loss, or a raw operation that fails, while a block device is partitioned in MBR format. -/
namespace DiskStorage
open ByteStore Runs
variable {k : Nat} {b : Build}

namespace MBR

/-- The range that formatDisk hands to validate. -/
def ownRange (b : Build) {σ : Type} [Device σ] (device : σ) : Available b :=
  Available.of b (Layout.of b device).firstAllocatableSector (Layout.of b device).allocatableSectors
    (Layout.of b device).sectorSize

/-- The only write of a call of formatDisk: the boot record of some partitions, to the first sector. -/
def bootWrite (l : Layout) (buffer : Nat → UInt8) (parts : List (PartInfo b)) : Nat × List UInt8 :=
  (0, slice (bootRecord l buffer parts) 0 l.sectorSize)

/-- A call fails without touching the device, or it writes and syncs. -/
theorem formatDisk_writes {σ : Type} [Device σ] {workBuffer : Option (Nat → UInt8)} {device : σ}
    {pt table : List (PartInfo b)} {result : Formatted b σ} (h : formatDisk workBuffer device pt table = some result) :
    (result.err ≠ .success ∧ result.device = device) ∨
      ∃ (buffer : Nat → UInt8) (parts : List (PartInfo b)),
        validate (ownRange b device) table = some (.returned .success parts) ∧
        writeAndSync (Layout.of b device).sectorSize [bootWrite (Layout.of b device) buffer parts] device =
          (decide (result.err = .success), result.device) ∧
        (result.err = .success → result.partitions = parts) := by
  rw [formatDisk] at h
  split at h
  · cases h
    exact .inl ⟨Error.noConfusion, rfl⟩
  · dsimp only at h
    split at h
    · cases h
    · cases h
    · rename_i err parts hvalidate
      split at h
      · rename_i herr
        split at h
        · cases h
          exact .inl ⟨Error.noConfusion, rfl⟩
        · rename_i buffer
          rw [herr] at hvalidate
          refine .inr ⟨buffer, parts, hvalidate, ?_⟩
          rw [writeAndSync, bootWrite, writeAll, Nat.zero_mul]
          rcases hwrite : Device.write device 0 (slice (bootRecord (Layout.of b device) buffer parts) 0
            (Layout.of b device).sectorSize) with ⟨_ | _, d'⟩
          · simp only [hwrite] at h ⊢
            cases h
            exact ⟨rfl, Error.noConfusion⟩
          · rcases hsync : Device.sync d' with ⟨_ | _, d''⟩
            · simp only [hwrite, hsync] at h ⊢
              cases h
              exact ⟨hsync, Error.noConfusion⟩
            · simp only [hwrite, hsync] at h ⊢
              cases h
              exact ⟨hsync, fun _ => by rw [handOver_eq, List.nil_append]⟩
      · rename_i herr
        cases h
        exact .inl ⟨herr, rfl⟩

/-- A call of formatDisk on a synced device is atomic. It leaves the device alone, or at every moment,
whichever raw operations fail and however many buffers there are, the medium is as it was, or has the
boot record of all the partitions in its first sector and nothing else has changed. On Success it has
the record. -/
theorem formatDisk_atomic (workBuffer : Option (Nat → UInt8)) (device : BlockDevice k) (pt table : List (PartInfo b))
    (result : Formatted b (BlockDevice k)) (hready : LawfulDevice.Ready device) (hpos : 0 < device.sectorCount)
    (hsize : sectorSize b = 2 ^ k) (hsynced : device.medium.sectors = device.logicalSector)
    (hformat : formatDisk workBuffer device pt table = some result) :
    (result.err ≠ .success ∧ result.device = device) ∨
      ∃ (buffer : Nat → UInt8) (parts : List (PartInfo b)) (new : Nat → Sector k),
        validate (ownRange b device) table = some (.returned .success parts) ∧
        Sector.flat new = patch (Sector.flat device.medium.sectors) 0
          (slice (bootRecord (Layout.of b device) buffer parts) 0 (2 ^ k)) ∧
        (∀ c ∈ Medium.since device.medium result.device.medium, c = device.medium.sectors ∨ c = new) ∧
        (result.err = .success → result.device.medium.sectors = new ∧ result.partitions = parts) := by
  rcases formatDisk_writes hformat with hnone | ⟨buffer, parts, hvalidate, hrun, hparts⟩
  · exact .inl hnone
  · set bytes := slice (bootRecord (Layout.of b device) buffer parts) 0 (2 ^ k)
    have hlen : bytes.length = 2 ^ k := slice_length _ 0 _
    have hwrite : bootWrite (Layout.of b device) buffer parts = (0, bytes) := by
      rw [bootWrite, show (Layout.of b device).sectorSize = 2 ^ k from hsize]
    rw [hwrite, show (Layout.of b device).sectorSize = 2 ^ k from hsize] at hrun
    have hwhole : Whole (2 ^ k) [(0, bytes)] := List.forall_mem_singleton.mpr hlen
    have hs : Sound device.sectorCount device := ⟨rfl, hready.1⟩
    let new := Function.update device.medium.sectors 0 ((device.medium.sectors 0).splice 0 bytes)
    have hnew : Sector.flat new = patch (Sector.flat device.medium.sectors) 0 bytes := by
      have hflat := Sector.flat_update_splice device.medium.sectors 0 0 bytes (by rw [hlen, Nat.zero_add])
      rwa [Nat.zero_mul] at hflat
    refine .inr ⟨buffer, parts, new, hvalidate, hnew, fun c hc => ?_, fun hok => ⟨?_, hparts hok⟩⟩
    · rw [← show _ = result.device from congrArg Prod.snd hrun] at hc
      have hsectors := writeAndSync_sectors hwhole hready.2 (List.forall_mem_singleton.mpr hpos) hs hc
      rw [← hsynced] at hsectors
      have hrest : ∀ s ≠ 0, c s = device.medium.sectors s := by
        intro s hne
        rcases hsectors s with h | h | h
        · exact h
        · exact h
        · exact absurd (Prod.mk.inj (List.mem_singleton.mp h)).1 hne
      have hfirst : c 0 = device.medium.sectors 0 ∨ c 0 = new 0 := by
        rcases hsectors 0 with h | h | h
        · exact .inl h
        · exact .inl h
        · apply Or.inr
          apply Sector.eq_of_block
          rw [(Prod.mk.inj (List.mem_singleton.mp h)).2]
          exact (Sector.block_of_splice hlen (Function.update_self ..)).symm
      refine hfirst.imp (fun h => ?_) fun h => ?_
      · funext s
        rcases eq_or_ne s 0 with rfl | hne
        · exact h
        · exact hrest s hne
      · funext s
        rcases eq_or_ne s 0 with rfl | hne
        · exact h
        · exact (hrest s hne).trans (Function.update_of_ne hne _ _).symm
    · rw [decide_eq_true hok] at hrun
      have hin : ∀ w ∈ [(0, bytes)], (w.1 + 1) * 2 ^ k ≤ Device.capacity device :=
        List.forall_mem_singleton.mpr (Nat.mul_le_mul_right _ hpos)
      have hmedium : Sector.flat result.device.medium.sectors =
          overwrite (2 ^ k) (Sector.flat device.seen) [(0, bytes)] :=
        (GPT.writeAndSync_holds hwhole hin (Holds.start hready) hrun).2
      rw [← hready.1.logicalSector_eq, ← hsynced, overwrite_cons, overwrite_nil, Nat.zero_mul, ← hnew] at hmedium
      funext s
      apply Sector.flat_ext
      intro i _
      exact congrFun hmedium _

/-- Two partitions, of which the first is for FAT. -/
def twoRecords : List (PartInfo ⟨true, true, true, 512⟩) :=
  [{ PartInfo.new [] ⟨1, 2⟩ 0 40 with sysind := SI_FAT16B }, PartInfo.new [] ⟨1, 0⟩ 0 30]

/-- They are on 4 MiB, written through four buffers, where the first raw operation fails. -/
theorem formatDisk_atomic_four_mib :
    let device : BlockDevice 9 := { GPT.fourMib (some (.new 4 fun _ => Sector.zero)) with
      faults := ⟨fun n => n == 0, fun _ => Sector.zero⟩ }
    ∃ result, formatDisk (some fun _ => 0) device [] twoRecords = some result ∧
      ((result.err ≠ .success ∧ result.device = device) ∨ ∃ new : Nat → Sector 9,
        ∀ c ∈ Medium.since device.medium result.device.medium, c = (fun _ => Sector.zero) ∨ c = new) := by
  intro device
  have hverdict : (validate (ownRange ⟨true, true, true, 512⟩ device) twoRecords).map GPT.verdictError =
      some .success := by decide +kernel
  obtain ⟨v, hv, heq⟩ := Option.map_eq_some_iff.mp hverdict
  cases v with
  | aborted => cases heq
  | returned err parts =>
    obtain rfl : err = .success := heq
    rw [ownRange] at hv
    have hformat : ∃ result, formatDisk (some fun _ => 0) device [] twoRecords = some result := by
      rw [formatDisk, if_neg (by decide)]
      dsimp only
      rw [hv]
      dsimp only
      rw [if_pos rfl]
      split
      · exact ⟨_, rfl⟩
      · split
        · exact ⟨_, rfl⟩
        · exact ⟨_, rfl⟩
    obtain ⟨result, hformat⟩ := hformat
    have hready : LawfulDevice.Ready device := GPT.fourMib_ready (fun _ => Sector.zero) 4
    have hsynced : device.medium.sectors = device.logicalSector := by
      rw [hready.1.logicalSector_eq]
      exact (BufferList.coherent_new 4 (fun _ => Sector.zero) _).2.symm
    refine ⟨result, hformat, ?_⟩
    rcases formatDisk_atomic _ device [] twoRecords result hready (by decide) rfl hsynced hformat with
      hnone | ⟨_, _, new, _, _, hc, _⟩
    · exact .inl hnone
    · exact .inr ⟨new, hc⟩

end MBR

end DiskStorage
