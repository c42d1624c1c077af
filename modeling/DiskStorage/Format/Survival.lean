import DiskStorage.Format.PowerLoss
import DiskStorage.Format.Devices
import DiskStorage.Format.GptRoundTrip
import DiskStorage.Validate.Granularity

/-! The tables of a partitioned device in use: writes and erases inside the partitions leave them
alone, on the medium too, whatever the buffers and the raw operations do. -/
namespace DiskStorage
open ByteStore Runs
variable {k : Nat} {b : Build}

/-- A write or an erase is to bytes of one partition. -/
def Op.InPartitions (parts : List (PartInfo b)) : Op k → Prop
  | .write address src => ∃ part ∈ parts, part.offset ≤ address ∧ address + src.length ≤ part.stop
  | .eraseRange address size => ∃ part ∈ parts, part.offset ≤ address ∧ address + size ≤ part.stop
  | .read _ _ => True
  | .sync => True
  | .allocateBuffers _ _ => True

/-- What is in partitions that a sector is apart from does not touch it. -/
theorem Op.untouched_of_apart {parts : List (PartInfo b)} {s : Nat} {op : Op k}
    (hparts : ∀ part ∈ parts, (s + 1) * 2 ^ k ≤ part.offset ∨ part.stop ≤ s * 2 ^ k) (hop : op.InPartitions parts) :
    ¬ op.Touches s := by
  have hapart : ∀ {address size : Nat}, (∃ part ∈ parts, part.offset ≤ address ∧ address + size ≤ part.stop) →
      ¬ (address < (s + 1) * 2 ^ k ∧ s * 2 ^ k < address + size) := by
    rintro address size ⟨part, hpart, hlo, hhi⟩ ⟨hbelow, habove⟩
    rcases hparts part hpart with hfront | hback
    · exact absurd (hfront.trans hlo) (Nat.not_le.mpr hbelow)
    · exact absurd (hhi.trans hback) (Nat.not_le.mpr habove)
  cases op with
  | read address size => exact id
  | write address src => exact hapart hop
  | eraseRange address size => exact hapart hop
  | sync => exact id
  | allocateBuffers numBuffers memory => exact id

namespace GPT

section Table
variable {l : Layout b} {parts : List (PartInfo b)} {diskGuid : Uuid} {f g : Nat → UInt8}

/-- The table is all in its sectors. -/
theorem Partitioned.congr (hl : l.Fits) (h : Partitioned l diskGuid parts f)
    (heq : ∀ s, l.TableSector s → ∀ i < l.sectorSize, g (s * l.sectorSize + i) = f (s * l.sectorSize + i)) :
    Partitioned l diskGuid parts g := by
  have hroom := hl.room
  have hfirst := hl.first_le
  have hbackup := hl.backup_eq
  have hmin : 512 ≤ l.sectorSize := hl.min_le
  have hsector : ∀ {s n : Nat}, l.TableSector s → n ≤ l.sectorSize →
      slice g (s * l.sectorSize) n = slice f (s * l.sectorSize) n := fun hs hn =>
    slice_congr fun i hi => heq _ hs i (Nat.lt_of_lt_of_le hi hn)
  have harray : ∀ {a : Nat}, (∀ q < l.numPartitionTableSectors, l.TableSector (a + q)) →
      slice g (a * l.sectorSize) (GPT_ITEMS * GPT_ENTRY_SIZE) =
        slice f (a * l.sectorSize) (GPT_ITEMS * GPT_ENTRY_SIZE) := by
    intro a ha
    apply slice_congr
    intro x hx
    rw [← hl.table_mul] at hx
    have hq : x / l.sectorSize < l.numPartitionTableSectors := (Nat.div_lt_iff_lt_mul hl.size_pos).mpr hx
    have hplace : a * l.sectorSize + x = (a + x / l.sectorSize) * l.sectorSize + x % l.sectorSize := by
      rw [Nat.add_mul, Nat.add_assoc, Nat.mul_comm (x / l.sectorSize), Nat.div_add_mod]
    rw [hplace]
    exact heq _ (ha _ hq) _ (Nat.mod_lt _ hl.size_pos)
  refine ⟨⟨?_, ?_, ?_⟩, ?_, ?_⟩
  · have hzero := hsector (s := 0) (.inl (by omega)) hmin
    rw [Nat.zero_mul] at hzero
    exact hzero.trans h.mbr
  · have hone := hsector (s := 1) (.inl (by omega)) (show GPT_HEADER_SIZE ≤ _ from Nat.le_trans (by decide) hmin)
    rw [Nat.one_mul] at hone
    exact hone.trans h.primary
  · exact (harray fun q hq => .inl (by omega)).trans h.entries
  · exact (hsector (.inr (by omega)) (show GPT_HEADER_SIZE ≤ _ from Nat.le_trans (by decide) hmin)).trans h.secondary
  · exact (harray fun q hq => .inr (by omega)).trans h.backup

/-- What is in partitions between the two parts of the table is in none of its sectors. -/
theorem untouched_of_inPartitions (hsize : l.sectorSize = 2 ^ k)
    (hparts : ∀ part ∈ parts, (2 + l.numPartitionTableSectors) * l.sectorSize ≤ part.offset ∧
      part.stop ≤ l.backupPartitionTableSector * l.sectorSize)
    {op : Op k} (hop : op.InPartitions parts) {s : Nat} (hs : l.TableSector s) : ¬ op.Touches s := by
  refine Op.untouched_of_apart (fun part hpart => ?_) hop
  obtain ⟨hfront, hback⟩ := hparts part hpart
  rw [hsize] at hfront hback
  rcases hs with hs | ⟨hs, _⟩
  · exact .inl ((Nat.mul_le_mul_right (2 ^ k) hs).trans hfront)
  · exact .inr (hback.trans (Nat.mul_le_mul_right (2 ^ k) hs))

end Table

section Placed
variable {σ : Type} [LawfulDevice σ] {device : σ} {table parts : List (PartInfo b)}

/-- Partitions given as percentages are placed between the two parts of the table, in whole sectors. -/
theorem Suitable.placed (hdevice : Suitable b device) (hroom : HasRoom b device) (hne : table ≠ [])
    (hauto : AutoPercentages table) (hvalidate : validate (ownRange b device) table = some (.returned .success parts)) :
    ∀ part ∈ parts, (2 + (ownLayout b device).numPartitionTableSectors) * Device.getSectorSize device ≤ part.offset ∧
      part.stop ≤ (ownLayout b device).backupPartitionTableSector * Device.getSectorSize device ∧
      Device.getSectorSize device ∣ part.offset ∧ Device.getSectorSize device ∣ part.size := by
  have hchoose := hdevice.supported.choose
  have hlayout : layoutOf b device (Device.getSectorSize device) = ownLayout b device := by
    rw [layoutOf, hdevice.count_eq]
  obtain ⟨hreserved, hblocks⟩ := hroom _ hchoose
  obtain ⟨hl, _⟩ := roomy_of_hasRoom hdevice.size_lt hdevice.supported.min_le hchoose hreserved
  rw [hlayout] at hl hblocks
  obtain ⟨hexact, hstart, hend, htotal, halign⟩ := hl.range
  have hunit : SectorUnit (Device.getSectorSize device) := hl.unit
  obtain ⟨err, table', hv, hinside⟩ : (ownLayout b device).available.Contains table := by
    rcases hblocks with h100 | hunits
    · exact Available.contains_of_hundred hexact (by rwa [htotal]) hne hauto
    · exact Available.contains_of_whole hexact (by rwa [htotal, halign]) hne hauto
  rw [show (ownLayout b device).available = ownRange b device from rfl, hvalidate] at hv
  cases hv
  have hblock : (ownRange b device).blockSize = Device.getSectorSize device :=
    Nat.mod_eq_of_lt (Nat.lt_trans hunit.lt (by decide))
  have hdvd := Available.validate_dvd (hstart ▸ dvd_rfl) (by rw [hblock]; exact hunit.dvd)
    (fun p hp => ⟨(hauto p hp).1, (hauto p hp).2.2⟩) hvalidate
  have hfirst := Nat.mul_le_mul_right (Device.getSectorSize device) hl.first_le
  rw [Layout.firstAllocatable_mul hunit] at hfirst
  intro part hpart
  obtain ⟨hlo, hhi⟩ := hinside rfl part hpart
  obtain ⟨hoffset, hsize⟩ := hdvd part hpart
  rw [hstart] at hlo
  rw [hend] at hhi
  rw [hblock] at hsize
  exact ⟨hfirst.trans hlo, hhi, hunit.dvd.trans hoffset, hsize⟩

end Placed

section Use
variable {fenv : FormatEnv} {device : BlockDevice k} {pt table : List (PartInfo b)} {diskGuid : Uuid}
  {result : Formatted b (BlockDevice k)}

theorem ne_nil_of_success (hformat : formatDisk fenv device pt table diskGuid = some result)
    (hok : result.err = .success) : table ≠ [] := by
  rintro rfl
  rw [formatDisk] at hformat
  cases hformat
  cases hok

/-- After a call that returns Success the device is sound and synced, with the table on the medium. -/
theorem formatDisk_synced (hready : LawfulDevice.Ready device) (hdevice : Suitable b device)
    (hformat : formatDisk fenv device pt table diskGuid = some result) (hok : result.err = .success) :
    ∃ guid, validate (ownRange b device) table = some (.returned .success result.partitions) ∧
      Sound device.sectorCount result.device ∧ result.device.medium.sectors = result.device.logicalSector ∧
      Partitioned (ownLayout b device) guid result.partitions (Sector.flat result.device.medium.sectors) := by
  obtain ⟨buffer, hvalidate, hwrite⟩ := hdevice.written hformat hok
  obtain ⟨f, hholds, hmedium, hparts⟩ := writeTables_partitioned hdevice.fits rfl (Holds.start hready) hwrite
  have hsound : Sound device.sectorCount result.device := ⟨hholds.sectorCount_eq, hholds.ready.1⟩
  refine ⟨if diskGuid.isNull then fenv.generated else diskGuid, hvalidate, hsound, ?_, ?_⟩
  · rw [hsound.coherent.logicalSector_eq]
    funext s
    apply Sector.flat_ext
    intro i _
    exact congrFun (hmedium.trans hholds.content_eq.symm) _
  · rw [← hmedium] at hparts
    exact hparts

/-- The table stays on the medium, at every moment of a run that keeps to the partitions. -/
theorem partitioned_in_use {l : Layout b} {parts : List (PartInfo b)} {guid : Uuid} {sectorCount : Nat}
    (hcount : sectorCount ≤ 2 ^ 32 - 1) {d : BlockDevice k} (hl : l.Fits) (hsize : l.sectorSize = 2 ^ k)
    (hs : Sound sectorCount d) (hsynced : d.medium.sectors = d.logicalSector)
    (htable : Partitioned l guid parts (Sector.flat d.medium.sectors)) {tr : List ((Op k × Outcome) × BlockDevice k)}
    (run : Run deviceStep d tr) (hin : ∀ e ∈ tr, e.1.1.InRange sectorCount)
    (huntouched : ∀ s, l.TableSector s → ∀ e ∈ tr, ¬ e.1.1.Touches s) :
    ∀ c ∈ Medium.since d.medium (last d tr).medium, Partitioned l guid parts (Sector.flat c) := by
  intro c hc
  refine htable.congr hl fun s hsector i hi => ?_
  have hsame := synced_untouched hcount hs hsynced run hin (huntouched s hsector) hc
  rw [hsize] at hi ⊢
  rw [Sector.flat_apply _ _ hi, Sector.flat_apply _ _ hi, hsame]

/-- What partitions have that a scan finds again. -/
structure Findable (l : Layout b) (part : PartInfo b) : Prop where
  front : (2 + l.numPartitionTableSectors) * l.sectorSize ≤ part.offset
  back : part.stop ≤ l.backupPartitionTableSector * l.sectorSize
  offset_dvd : l.sectorSize ∣ part.offset
  size_dvd : l.sectorSize ∣ part.size
  typeGuid : part.typeGuid.isNull = false
  named : part.name ≠ []
  no_nul : 0 ∉ part.name
  name_length : part.name.length ≤ 36

theorem Findable.scannable {l : Layout b} {part : PartInfo b} (hl : l.Fits) (h : Findable l part)
    (types : PartitionTypes) : Scannable l types part := by
  refine ⟨h.typeGuid, h.offset_dvd, h.size_dvd, h.no_nul, h.name_length, fun _ => ?_⟩
  -- the array of the backup table is behind it
  have hbackup := hl.backup_eq
  have hroom := hl.room
  have hstart : part.offset ≤ l.backupPartitionTableSector * l.sectorSize :=
    (Nat.le_add_right part.offset part.size).trans h.back
  have hend : (l.backupPartitionTableSector + 1) * l.sectorSize ≤ l.driveSectors * l.sectorSize :=
    Nat.mul_le_mul_right _ (by omega)
  rw [Nat.succ_mul] at hend
  exact (Nat.add_le_add_right hstart l.sectorSize).trans hend

/-- After a successful call for partitions given as percentages the device is sound and synced, with the
table of these partitions on the medium, and all of them can be found. -/
theorem formatDisk_findable (hready : LawfulDevice.Ready device) (hdevice : Suitable b device)
    (hroom : HasRoom b device) (hcount : table.length ≤ 128) (hauto : AutoPercentages table)
    (htable : ∀ part ∈ table, part.typeGuid.isNull = false ∧ part.name ≠ [] ∧ 0 ∉ part.name ∧ part.name.length ≤ 36)
    (hformat : formatDisk fenv device pt table diskGuid = some result) (hok : result.err = .success) :
    Sound device.sectorCount result.device ∧ result.device.medium.sectors = result.device.logicalSector ∧
      (∃ guid, Partitioned (ownLayout b device) guid result.partitions (Sector.flat result.device.medium.sectors)) ∧
      result.partitions.length ≤ GPT_ITEMS ∧ ∀ part ∈ result.partitions, Findable (ownLayout b device) part := by
  obtain ⟨guid, hvalidate, hsound, hsynced, hparts⟩ := formatDisk_synced hready hdevice hformat hok
  have hne := ne_nil_of_success hformat hok
  have hlabels := Available.validate_label_forall (P := fun label => label.2.2.1.isNull = false ∧ label.1 ≠ [] ∧
    0 ∉ label.1 ∧ label.1.length ≤ 36) hvalidate htable
  refine ⟨hsound, hsynced, ⟨guid, hparts⟩, (Available.validate_length hvalidate).trans_le hcount, fun part hpart => ?_⟩
  obtain ⟨hfront, hback, hoffset, hsize⟩ := hdevice.placed hroom hne hauto hvalidate part hpart
  obtain ⟨htype, hnamed, hnul, hname⟩ := hlabels part hpart
  exact ⟨hfront, hback, hoffset, hsize, htype, hnamed, hnul, hname⟩

theorem all_refound {l : Layout b} {parts : List (PartInfo b)} (env : ScanEnv) (f : Nat → UInt8)
    (h : ∀ part ∈ parts, Findable l part) :
    List.Forall₂ (Refound env.types f) parts ((parts.map (found env.types f)).map env.named) := by
  rw [List.map_map, List.forall₂_map_right_iff, List.forall₂_same]
  exact fun part hpart => refound env f (h part hpart).named

/-- A device that holds the table is scanned to its partitions, through buffers and without, if no raw
operation fails. -/
theorem partitioned_scanned {env : ScanEnv} {guid : Uuid} {parts : List (PartInfo b)} (hdevice : Suitable b device)
    (hbuffer : env.buffer.isSome) (hentryBuffer : env.entryBuffer.isSome) (hlen : parts.length ≤ GPT_ITEMS)
    (hparts : ∀ part ∈ parts, Findable (ownLayout b device) part) {d : BlockDevice k}
    (hs : Sound device.sectorCount d) (hcount : device.sectorCount ≤ 2 ^ 32 - 1)
    (hfaults : ∀ n, d.faults.fails n = false)
    (htable : Partitioned (ownLayout b device) guid parts (Sector.flat d.logicalSector)) :
    ∃ scanned d', List.Forall₂ (Refound env.types (Sector.flat d.logicalSector)) parts scanned ∧
      ∀ fuel, 129 < fuel → scanPartitions env fuel d = some (some (true, d', scanned)) := by
  have hchoose : chooseSectorSize b d = some (ownLayout b device).sectorSize := hdevice.supported.choose
  have hready : LawfulDevice.Ready d := ⟨hs.coherent, hs.size.le.trans hcount⟩
  rw [hs.coherent.logicalSector_eq] at htable ⊢
  obtain ⟨d', hscan⟩ := htable.toListed.scanned hdevice.fits.toRoomy
    ⟨Holds.start hready, BlockDevice.readsSucceed hfaults⟩ rfl hs.size hchoose hbuffer hentryBuffer hlen
    fun part hpart => (hparts part hpart).scannable hdevice.fits env.types
  exact ⟨_, d', all_refound env _ hparts, hscan⟩

/-- Once formatDisk has succeeded with partitions given as percentages, the table survives every use of
the device that writes and erases inside the partitions only: at every moment, also in the middle of
an operation, whichever raw operations fail and whatever the buffers hold back, the medium has both
tables complete and consistent, and a device with this medium is scanned to the partitions of the table. -/
theorem tables_survive_use (fenv : FormatEnv) (env : ScanEnv) (device : BlockDevice k) (pt table : List (PartInfo b))
    (diskGuid : Uuid) (result : Formatted b (BlockDevice k)) (hready : LawfulDevice.Ready device)
    (hdevice : Suitable b device) (hroom : HasRoom b device) (hcount : table.length ≤ 128)
    (hauto : AutoPercentages table)
    (htable : ∀ part ∈ table, part.typeGuid.isNull = false ∧ part.name ≠ [] ∧ 0 ∉ part.name ∧ part.name.length ≤ 36)
    (hformat : formatDisk fenv device pt table diskGuid = some result) (hok : result.err = .success)
    (hbuffer : env.buffer.isSome) (hentryBuffer : env.entryBuffer.isSome)
    {tr : List ((Op k × Outcome) × BlockDevice k)} (run : Run deviceStep result.device tr)
    (hin : ∀ e ∈ tr, e.1.1.InRange device.sectorCount) (hops : ∀ e ∈ tr, e.1.1.InPartitions result.partitions) :
    ∀ c ∈ Medium.since result.device.medium (last result.device tr).medium,
      (∃ primary secondary, Consistent (Sector.flat c) (2 ^ k) device.sectorCount primary secondary) ∧
      ∀ faults : Faults k, (∀ n, faults.fails n = false) → ∃ scanned d',
        List.Forall₂ (Refound env.types (Sector.flat c)) result.partitions scanned ∧
        ∀ fuel > 129, scanPartitions env fuel (BlockDevice.fresh device.sectorCount faults c) =
          some (some (true, d', scanned)) := by
  obtain ⟨hsound, hsynced, ⟨guid, htable'⟩, hlen, hparts⟩ :=
    formatDisk_findable hready hdevice hroom hcount hauto htable hformat hok
  intro c hc
  have hl := hdevice.fits
  have htables := partitioned_in_use hready.2 hl rfl hsound hsynced htable' run hin (fun s hs e he =>
    untouched_of_inPartitions rfl (fun part hpart => ⟨(hparts part hpart).front, (hparts part hpart).back⟩)
      (hops e he) hs) c hc
  refine ⟨⟨_, _, htables.consistent hl⟩, fun faults hfaults => ?_⟩
  have hfresh := sound_fresh device.sectorCount faults c
  have hlogical : (BlockDevice.fresh device.sectorCount faults c).logicalSector = c := hfresh.coherent.logicalSector_eq
  rw [← hlogical] at htables ⊢
  exact partitioned_scanned hdevice hbuffer hentryBuffer hlen hparts hfresh hready.2 hfaults htables

/-- Where validate leaves the entries of a table. -/
def placedExtents {b : Build} : Verdict b → Error × List (Nat × Nat)
  | .returned err table => (err, table.map fun p => (p.offset, p.stop))
  | .aborted => (.noMem, [])

theorem two_placed {a : Available b} {e : Nat} (he : 0x300000 + 512 ≤ e)
    (hmap : (validate a table).map placedExtents = some (.success, [(0x100000, 0x300000), (0x300000, e)])) :
    ∃ parts, validate a table = some (.returned .success parts) ∧
      ∀ op : Op 9, op ∈ [.write 0x100003 [1, 2], .eraseRange 0x300000 512] →
        op.InRange 8192 ∧ op.InPartitions parts := by
  obtain ⟨v, hv, heq⟩ := Option.map_eq_some_iff.mp hmap
  cases v with
  | aborted => cases heq
  | returned err parts =>
    obtain rfl : err = .success := congrArg Prod.fst heq
    have hextents : parts.map (fun p => (p.offset, p.stop)) = [(0x100000, 0x300000), (0x300000, e)] :=
      congrArg Prod.snd heq
    have hpart : ∀ x ∈ [(0x100000, 0x300000), (0x300000, e)], ∃ part ∈ parts, (part.offset, part.stop) = x := by
      intro x hx
      rw [← hextents] at hx
      exact List.mem_map.mp hx
    refine ⟨parts, hv, fun op hop => ?_⟩
    simp only [List.mem_cons, List.not_mem_nil, or_false] at hop
    rcases hop with rfl | rfl
    · obtain ⟨part, hmem, hx⟩ := hpart (0x100000, 0x300000) List.mem_cons_self
      obtain ⟨hoffset, hstop⟩ := Prod.mk.inj hx
      refine ⟨(by decide : 0x100003 + 2 ≤ 8192 * 2 ^ 9), part, hmem, by rw [hoffset]; decide, ?_⟩
      rw [hstop]
      exact (by decide : 0x100003 + 2 ≤ 0x300000)
    · obtain ⟨part, hmem, hx⟩ := hpart (0x300000, e) (List.mem_cons_of_mem _ List.mem_cons_self)
      obtain ⟨hoffset, hstop⟩ := Prod.mk.inj hx
      exact ⟨(by decide : 0x300000 + 512 ≤ 8192 * 2 ^ 9), part, hmem, by rw [hoffset], by rwa [hstop]⟩

theorem twoPartitions_placed : ∃ parts,
    validate (Available.of ⟨true, true, true, 512⟩
      (⟨512, 8192⟩ : Layout ⟨true, true, true, 512⟩).firstAllocatableSector
      (⟨512, 8192⟩ : Layout ⟨true, true, true, 512⟩).allocatableSectors 512) twoPartitions =
        some (.returned .success parts) ∧
    ∀ op : Op 9, op ∈ [.write 0x100003 [1, 2], .eraseRange 0x300000 512] → op.InRange 8192 ∧ op.InPartitions parts := by
  refine two_placed (by decide : 0x300000 + 512 ≤ 0x3fbe00) ?_
  decide +kernel

/-- Two partitions on 4 MiB, with four buffers: a write to the first, an erase in the second, and no sync. -/
theorem tables_survive_use_four_mib : ∃ result : Formatted ⟨true, true, true, 512⟩ (BlockDevice 9),
    result.err = .success ∧ ∀ c ∈ Medium.since result.device.medium
        (last result.device (trace result.device [.write 0x100003 [1, 2], .eraseRange 0x300000 512])).medium,
      (∃ primary secondary, Consistent (Sector.flat c) (2 ^ 9) 8192 primary secondary) ∧
      ∀ faults : Faults 9, (∀ n, faults.fails n = false) → ∃ scanned d',
        List.Forall₂ (Refound ⟨0xff, 1, 2, 0xff⟩ (Sector.flat c)) result.partitions scanned ∧
        ∀ fuel > 129, scanPartitions ⟨⟨0xff, 1, 2, 0xff⟩, fun _ => [], some fun _ => 0, some fun _ => 0⟩ fuel
          (BlockDevice.fresh 8192 faults c) = some (some (true, d', scanned)) := by
  obtain ⟨parts, hv, huses⟩ := twoPartitions_placed
  obtain ⟨d', hformat⟩ := formatDisk_faultless ⟨some fun _ => 0, Uuid.null, []⟩ [] Uuid.null (fun _ => rfl)
    (fourMib_suitable (some (.new 4 fun _ => Sector.zero)))
    (List.cons_ne_nil _ _) rfl hv
  refine ⟨_, rfl, tables_survive_use _ ⟨⟨0xff, 1, 2, 0xff⟩, fun _ => [], some fun _ => 0, some fun _ => 0⟩ _ _ _ _ _
    (fourMib_ready (fun _ => Sector.zero) 4) (fourMib_suitable _) ?_ (by decide)
    (by unfold AutoPercentages; decide) (by decide) hformat rfl rfl rfl (run_trace _ _)
    (fun e he => (huses _ (op_of_mem_trace he)).1) fun e he => (huses _ (op_of_mem_trace he)).2⟩
  intro sectorSize hchoose
  cases hchoose
  exact ⟨by decide +kernel, Or.inl (by decide +kernel)⟩

end Use

end GPT

end DiskStorage
