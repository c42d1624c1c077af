import DiskStorage.Format.Survival

/-! The same table over itself: formatting a device again, while its partitions are in use. -/
namespace DiskStorage
open ByteStore Runs
variable {k : Nat} {b : Build}

namespace GPT

section Held
variable {ws : List (Nat × List UInt8)} {sectorCount : Nat} {d : BlockDevice k}

theorem writeAndSync_again (hwhole : Whole (2 ^ k) ws) (hcount : sectorCount ≤ 2 ^ 32 - 1)
    (hin : ∀ w ∈ ws, w.1 < sectorCount) (hs : Sound sectorCount d)
    (hheld : ∀ w ∈ ws, block (2 ^ k) d.logical w.1 = w.2) :
    (∀ c ∈ Medium.since d.medium (writeAndSync (2 ^ k) ws d).2.medium, ∀ s,
        c s = d.medium.sectors s ∨ c s = d.logicalSector s) ∧
      (writeAndSync (2 ^ k) ws d).2.logicalSector = d.logicalSector := by
  constructor
  · intro c hc s
    rcases writeAndSync_sectors hwhole hcount hin hs hc s with hold | hseen | hnew
    · exact .inl hold
    · exact .inr hseen
    · exact .inr (Sector.eq_of_block (hheld _ hnew).symm)
  · funext s
    rcases writeAndSync_drawn hwhole hcount hin hs s with hold | hnew
    · exact Sector.eq_of_block hold
    · exact Sector.eq_of_block (hheld _ hnew).symm

end Held

variable {fenv fenv' : FormatEnv} {device : BlockDevice k} {pt table : List (PartInfo b)} {diskGuid : Uuid}
  {result : Formatted b (BlockDevice k)}

theorem Suitable.of_count {d : BlockDevice k} (hdevice : Suitable b device)
    (hcount : d.sectorCount = device.sectorCount) : Suitable b d ∧ ownLayout b d = ownLayout b device := by
  have hsame : Device.getSectorCount d = Device.getSectorCount device := hcount
  have hlayout : ownLayout b d = ownLayout b device := by
    rw [ownLayout, ownLayout, hsame]
    rfl
  obtain ⟨⟨hsupported, hsize, hroom⟩, haligned⟩ := hdevice
  refine ⟨⟨⟨hsupported, ?_, ?_⟩, haligned⟩, hlayout⟩
  · rw [Device.capacity, hsame]
    exact hsize
  · change (ownLayout b d).firstAllocatableSector + ((ownLayout b d).numPartitionTableSectors + 1) ≤ _
    rw [hlayout, hsame]
    exact hroom

theorem tableWrites_congr {l : Layout b} (parts : List (PartInfo b)) (guid : Uuid)
    (hpadding : fenv'.headerPadding = fenv.headerPadding) :
    tableWrites l parts fenv' guid = tableWrites l parts fenv guid := by
  simp only [tableWrites, secondaryBuffer, primaryBuffer, headerBuffer, hpadding]

section Again
variable (hready : LawfulDevice.Ready device) (hdevice : Suitable b device)
  (hformat : formatDisk fenv device pt table diskGuid = some result)
include hready hdevice hformat

theorem formatDisk_faults : result.device.faults = device.faults := by
  rcases hdevice.formatDisk_writes hformat with ⟨_, heq⟩ | ⟨parts, _, hrun⟩
  · rw [heq]
  · have hwhole : Whole (2 ^ k) (tableWrites (ownLayout b device) parts fenv
      (if diskGuid.isNull then fenv.generated else diskGuid)) := whole_tableWrites
    obtain ⟨tr, run, hlast, hops⟩ := writeAndSync_run (tableWrites (ownLayout b device) parts fenv
      (if diskGuid.isNull then fenv.generated else diskGuid)) device
    have hdev : last device tr = result.device := hlast.trans (congrArg Prod.snd hrun)
    rw [← hdev]
    exact (run_sound hready.2 (sound_of_ready hready) run fun e he => (hops e he).inRange hwhole
      fun w hw => (tableSector_of_mem hdevice.fits hw).lt hdevice.fits).2

variable (hok : result.err = .success)
include hok

theorem formatDisk_held : ∀ w ∈ tableWrites (ownLayout b device) result.partitions fenv
    (if diskGuid.isNull then fenv.generated else diskGuid), block (2 ^ k) result.device.logical w.1 = w.2 := by
  obtain ⟨_, hvalidate, _, hsynced, _⟩ := formatDisk_synced hready hdevice hformat hok
  rcases hdevice.formatDisk_writes hformat with ⟨herr, _⟩ | ⟨parts, hparts, hrun⟩
  · exact absurd hok herr
  obtain rfl : parts = result.partitions := by
    rw [hvalidate] at hparts
    cases hparts
    rfl
  rw [decide_eq_true hok] at hrun
  have hwhole : Whole (2 ^ k) (tableWrites (ownLayout b device) result.partitions fenv
    (if diskGuid.isNull then fenv.generated else diskGuid)) := whole_tableWrites
  obtain ⟨_, hmedium⟩ := writeAndSync_holds hwhole (fun w hw => Nat.mul_le_mul_right _
    ((tableSector_of_mem hdevice.fits hw).lt hdevice.fits)) (Holds.start hready) hrun
  intro w hw
  have hlogical : result.device.logical = _ := (congrArg Sector.flat hsynced.symm).trans hmedium
  rw [hlogical]
  exact block_overwrite_mem hwhole (nodup_tableWrites _ _ _ hdevice.fits) hw

theorem held_in_use (hroom : HasRoom b device) (hauto : AutoPercentages table)
    {tr : List ((Op k × Outcome) × BlockDevice k)} (run : Run deviceStep result.device tr)
    (hin : ∀ e ∈ tr, e.1.1.InRange device.sectorCount) (hops : ∀ e ∈ tr, e.1.1.InPartitions result.partitions) :
    ∀ w ∈ tableWrites (ownLayout b device) result.partitions fenv
        (if diskGuid.isNull then fenv.generated else diskGuid),
      block (2 ^ k) (last result.device tr).logical w.1 = w.2 := by
  obtain ⟨_, hvalidate, hsound, _, _⟩ := formatDisk_synced hready hdevice hformat hok
  have hne := ne_nil_of_success hformat hok
  have hparts : ∀ part ∈ result.partitions,
      (2 + (ownLayout b device).numPartitionTableSectors) * (ownLayout b device).sectorSize ≤ part.offset ∧
        part.stop ≤ (ownLayout b device).backupPartitionTableSector * (ownLayout b device).sectorSize := by
    intro part hpart
    obtain ⟨hfront, hback, _⟩ := hdevice.placed hroom hne hauto hvalidate part hpart
    exact ⟨hfront, hback⟩
  intro w hw
  have hsector := tableSector_of_mem hdevice.fits hw
  have hsame := run_untouched hready.2 hsound run hin
    (fun e he => untouched_of_inPartitions rfl hparts (hops e he) hsector) _ (last_mem _ tr)
  rw [BlockDevice.logical, Sector.block_flat_congr hsame]
  exact formatDisk_held hready hdevice hformat hok w hw

/-- Formatting a device again, with the table and the GUID it has been formatted with, is safe while its
partitions are in use: at every moment of the second call, whatever fails and however it ends, each sector
of the medium is as it was there or as it is in the buffers, and nothing of the logical content changes. -/
theorem formatDisk_again (hroom : HasRoom b device) (hauto : AutoPercentages table)
    (hguid : diskGuid.isNull = false) (hpadding : fenv'.headerPadding = fenv.headerPadding)
    {tr : List ((Op k × Outcome) × BlockDevice k)} (run : Run deviceStep result.device tr)
    (hin : ∀ e ∈ tr, e.1.1.InRange device.sectorCount) (hops : ∀ e ∈ tr, e.1.1.InPartitions result.partitions)
    {pt' : List (PartInfo b)} {again : Formatted b (BlockDevice k)}
    (hagain : formatDisk fenv' (last result.device tr) pt' table diskGuid = some again) :
    (∀ c ∈ Medium.since (last result.device tr).medium again.device.medium, ∀ s,
        c s = (last result.device tr).medium.sectors s ∨ c s = (last result.device tr).logicalSector s) ∧
      again.device.logicalSector = (last result.device tr).logicalSector ∧
      (again.err = .success → again.partitions = result.partitions ∧
        again.device.medium.sectors = (last result.device tr).logicalSector) := by
  obtain ⟨_, hvalidate, hsound, _, _⟩ := formatDisk_synced hready hdevice hformat hok
  obtain ⟨hs, _⟩ := run_sound hready.2 hsound run hin
  obtain ⟨hdevice', hlayout⟩ := hdevice.of_count hs.size
  have hready' : LawfulDevice.Ready (last result.device tr) := ⟨hs.coherent, hs.size.le.trans hready.2⟩
  obtain ⟨hwhole, hfits⟩ : Whole (2 ^ k) (tableWrites (ownLayout b device) result.partitions fenv diskGuid) ∧
      ∀ w ∈ tableWrites (ownLayout b device) result.partitions fenv diskGuid, w.1 < device.sectorCount :=
    ⟨whole_tableWrites, fun w hw => (tableSector_of_mem hdevice.fits hw).lt hdevice.fits⟩
  have hkept := held_in_use hready hdevice hformat hok hroom hauto run hin hops
  rw [hguid, if_neg Bool.false_ne_true] at hkept
  rcases hdevice'.formatDisk_writes hagain with ⟨herr, heq⟩ | ⟨parts, hparts, hrun⟩
  · rw [heq]
    exact ⟨fun c hc s => .inl (congrFun (since_refl hc) s), rfl, fun hsuccess => absurd hsuccess herr⟩
  · have hrange : ownRange b (last result.device tr) = ownRange b device := by
      rw [ownRange, ownRange, hlayout]
      rfl
    obtain rfl : parts = result.partitions := by
      rw [hrange, hvalidate] at hparts
      cases hparts
      rfl
    rw [hguid, if_neg Bool.false_ne_true, hlayout, tableWrites_congr _ _ hpadding] at hrun
    obtain ⟨hmoments, hlogical⟩ := writeAndSync_again hwhole hready.2 hfits hs hkept
    have hdev : (writeAndSync (2 ^ k) (tableWrites (ownLayout b device) result.partitions fenv diskGuid)
        (last result.device tr)).2 = again.device := congrArg Prod.snd hrun
    rw [hdev] at hmoments hlogical
    refine ⟨hmoments, hlogical, fun hsuccess => ?_⟩
    obtain ⟨_, hvalidate', _, hsynced', _⟩ := formatDisk_synced hready' hdevice' hagain hsuccess
    rw [hrange, hvalidate] at hvalidate'
    obtain ⟨_, hsame⟩ := Verdict.returned.inj (Option.some.inj hvalidate')
    exact ⟨hsame.symm, hsynced'.trans hlogical⟩

end Again

/-- Two partitions on 4 MiB with four buffers, formatted again after a write and an erase that are not
flushed. -/
theorem formatDisk_again_four_mib :
    let format (d : BlockDevice 9) := formatDisk (b := ⟨true, true, true, 512⟩) ⟨some fun _ => 0, Uuid.null, []⟩ d []
      twoPartitions fun _ => 1
    ∃ result again, format (fourMib (some (.new 4 fun _ => Sector.zero))) = some result ∧
      format (last result.device (trace result.device [.write 0x100003 [1, 2], .eraseRange 0x300000 512])) =
        some again ∧
      again.device.logicalSector =
        (last result.device (trace result.device [.write 0x100003 [1, 2], .eraseRange 0x300000 512])).logicalSector ∧
      again.partitions = result.partitions := by
  intro format
  obtain ⟨parts, hv, huses⟩ := twoPartitions_placed
  have hready := fourMib_ready (fun _ => Sector.zero) 4
  have hsuitable := fourMib_suitable (some (.new 4 fun _ => Sector.zero))
  have hin : ∀ (d : BlockDevice 9), ∀ e ∈ trace d [.write 0x100003 [1, 2], .eraseRange 0x300000 512],
      e.1.1.InRange 8192 ∧ e.1.1.InPartitions parts := fun d e he => huses _ (op_of_mem_trace he)
  obtain ⟨d', hformat⟩ := formatDisk_faultless ⟨some fun _ => 0, Uuid.null, []⟩ [] (fun _ => 1) (fun _ => rfl)
    hsuitable (List.cons_ne_nil _ _) rfl hv
  obtain ⟨_, _, hsound, _, _⟩ := formatDisk_synced hready hsuitable hformat rfl
  obtain ⟨hs, hfaults⟩ := run_sound hready.2 hsound
    (run_trace d' [.write 0x100003 [1, 2], .eraseRange 0x300000 512]) fun e he => (hin _ e he).1
  obtain ⟨hsuitable', hlayout⟩ := hsuitable.of_count hs.size
  obtain ⟨d'', hagain⟩ := formatDisk_faultless ⟨some fun _ => 0, Uuid.null, []⟩ [] (fun _ => 1)
    (fun n => by rw [hfaults, formatDisk_faults hready hsuitable hformat]; rfl) hsuitable' (List.cons_ne_nil _ _) rfl
    (by rw [ownRange, hlayout]; exact hv)
  have hkept := formatDisk_again hready hsuitable hformat rfl ?_ (by unfold AutoPercentages; decide) rfl rfl
    (run_trace _ _) (fun e he => (hin _ e he).1) (fun e he => (hin _ e he).2) hagain
  · exact ⟨_, _, hformat, hagain, hkept.2.1, (hkept.2.2 rfl).1⟩
  · intro sectorSize hchoose
    cases hchoose
    exact ⟨by decide +kernel, Or.inl (by decide +kernel)⟩

end GPT

end DiskStorage
