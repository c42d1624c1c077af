import DiskStorage.Format.MbrRoundTrip
import DiskStorage.Format.MbrPowerLoss
import DiskStorage.Format.Survival

/-! The boot record of a partitioned device in use: writes and erases inside the partitions leave it
alone, and a scan finds the partitions by their records, whatever these hold by now. -/
namespace DiskStorage
open ByteStore Runs

namespace MBR
variable {b : Build} {l : Layout} {part : PartInfo b}

/-- What partitions have that a scan finds by their records. -/
structure Slot (capacity : Nat) (part : PartInfo b) : Prop where
  offset_dvd : 512 ∣ part.offset
  size_dvd : 512 ∣ part.size
  offset_ne : part.offset ≠ 0
  size_pos : 0 < part.size
  inside : part.offset + part.size ≤ capacity
  sysind : part.sysind = 0 ∨ part.sysind ∈ sysIndicators

/-- The partition that the scanner makes of a record and of the volume in the first sector, if there is one. -/
def found (types : PartitionTypes) (f : Nat → UInt8) (part : PartInfo b) (index : Nat) : PartInfo b :=
  let systype := getSysTypeFromIndicator part.sysind
  let volume := (identify b types (fun i => f (part.offset + i)) part.offset).getD
    (PartInfo.new [] types.none part.offset part.size)
  { volume with
    name := ascii ("mbr" ++ toString (index + 1))
    sysind := part.sysind
    systype := systype
    fullType := if volume.fullType.type = types.invalid ∧ systype.isFat then types.dataFat else volume.fullType }

/-- A scanned partition is the one of a record. It has the size of the volume in it, if there is one. -/
structure Refound (types : PartitionTypes) (f : Nat → UInt8) (part : PartInfo b) (index : Nat) (scanned : PartInfo b) :
    Prop where
  name_eq : scanned.name = ascii ("mbr" ++ toString (index + 1))
  offset_eq : scanned.offset = part.offset
  size_eq : scanned.size =
    ((identify b types (fun i => f (part.offset + i)) part.offset).map PartInfo.size).getD part.size
  sysind_eq : scanned.sysind = part.sysind
  systype_eq : scanned.systype = getSysTypeFromIndicator part.sysind

section Record
variable {types : PartitionTypes} {capacity : Nat} {f : Nat → UInt8}

theorem Slot.scannable (h : Slot capacity part) (types : PartitionTypes) :
    Scannable types capacity (fun _ => 0) part :=
  ⟨h.offset_dvd, h.size_dvd, h.offset_ne, h.size_pos, h.inside, h.sysind,
    identify_of_no_boot_code (fun _ _ => rfl) _⟩

theorem refound (env : ScanEnv) (f : Nat → UInt8) (part : PartInfo b) (index : Nat) :
    Refound env.types f part index (env.named (found env.types f part index)) := by
  have hname : (found env.types f part index).name.length ≠ 0 := by simp [found, ascii]
  have hsame : env.named (found env.types f part index) = found env.types f part index :=
    congrArg (fun name => { found env.types f part index with name := name })
      (if_neg fun hempty => hname (of_decide_eq_true (Bool.and_eq_true .. ▸ hempty).1))
  rw [hsame]
  refine ⟨rfl, ?_, ?_, rfl, rfl⟩
  · rcases hvolume : identify b env.types (fun i => f (part.offset + i)) part.offset with _ | volume
    · rw [found, hvolume]
      exact Build.storage_of_lt part.offset_lt
    · rw [found, hvolume]
      exact (identify_offset hvolume).trans (Build.storage_of_lt part.offset_lt)
  · rcases hvolume : identify b env.types (fun i => f (part.offset + i)) part.offset with _ | volume
    · rw [found, hvolume]
      exact Build.storage_of_lt part.size_lt
    · rw [found, hvolume]
      rfl

theorem Slot.mbrPart_eq (h : Slot capacity part) (hcap : capacity < 2 ^ 32) (hshift : l.shift = 9) {env : ScanEnv}
    {sc : Scanner} {index : Nat} (hsc : sc.sectorSizeShift = 9) (hid : sc.mbrPartID = index + 1)
    (hsector : ∀ i < 512, sc.buffer i = f (part.offset + i)) :
    mbrPart env sc (recordOf l part) = found env.types f part index := by
  have hscan := h.scannable env.types
  have hinside := h.inside
  have hstart : (recordOf l part).startingLba.toNat * 2 ^ 9 % 2 ^ 32 = part.offset := by
    rw [hscan.starting hcap hshift, Nat.mod_eq_of_lt (by omega)]
  have hsize : (recordOf l part).sizeInLba.toNat * 2 ^ 9 % 2 ^ 32 = part.size := by
    rw [hscan.size hcap hshift, Nat.mod_eq_of_lt (by omega)]
  have htype : (recordOf l part).osType.toNat = part.sysind := UInt8.toNat_ofNat_of_lt' (sysind_lt h.sysind).1
  rw [mbrPart, found, hsc, hid, hstart, hsize, htype, Build.storage_of_lt part.offset_lt,
    identify_congr hsector env.types part.offset]

end Record

section Scan
variable {parts : List (PartInfo b)} {f buffer : Nat → UInt8} {env : ScanEnv} {σ : Type} [LawfulDevice σ]
  {d₀ d : σ} {sc : Scanner}

private theorem pass_slot (hshift : l.shift = 9) (hserves : Serves 512 d₀ d f) (hcap : Device.capacity d₀ < 2 ^ 32)
    (hparts : ∀ part ∈ parts, Slot (Device.capacity d₀) part) (hlen : parts.length ≤ 4) (hat : AtRecord l parts sc)
    (hindex : sc.partitionIndex < parts.length) :
    ∃ sc' d', AtRecord l parts sc' ∧ sc'.partitionIndex = sc.partitionIndex + 1 ∧ Serves 512 d₀ d' f ∧
      pass env sc d = .returned (some (found env.types f parts[sc.partitionIndex] sc.partitionIndex)) sc' d' := by
  set part := parts[sc.partitionIndex] with hpart
  have hslot := hparts part (List.getElem_mem hindex)
  have hword : Device.capacity d₀ < b.storageSize := by
    have := b.storageSize_cases
    omega
  have hentry : sc.mbrEntries[sc.partitionIndex]? = some (recordOf l part) := by
    rw [hat.entries, List.getElem?_map, List.getElem?_eq_getElem hindex, Option.map_some]
  have hstart := (hslot.scannable env.types).starting hcap hshift
  have hinside : ((recordOf l part).startingLba.toNat + 1) * 512 ≤ Device.capacity d₀ := by
    have hle := Nat.le_of_dvd hslot.size_pos hslot.size_dvd
    have hin := hslot.inside
    omega
  obtain ⟨sector, d', hread, hserves', hsector⟩ := hserves.readSector (b := b)
    { sc with partitionIndex := sc.partitionIndex + 1 } (recordOf l part).startingLba.toNat sc.buffer
    (congrArg (2 ^ ·) hat.shift_eq) hword hinside
  rw [show (recordOf l part).startingLba.toNat * 512 = part.offset from hstart] at hsector
  have hid : (sc.mbrPartID + 1) % 2 ^ 16 = sc.partitionIndex + 1 := by
    rw [hat.id_eq]
    exact Nat.mod_eq_of_lt (by omega)
  have hlink : (recordOf l part).osType ≠ OSTYPE_EXTENDED := (sysind_lt hslot.sysind).2.2
  rw [pass, if_pos (by rw [hat.count]; exact hindex), hat.state]
  dsimp only
  rw [hentry]
  dsimp only
  rw [passMbr, hread]
  dsimp only
  rw [if_neg hlink]
  refine ⟨_, d', ?_, ?_, hserves', congrArg (fun p => Pass.returned (some p) _ d')
    (hslot.mbrPart_eq hcap hshift hat.shift_eq hid hsector)⟩
  · exact ⟨hat.state, hat.shift_eq, hat.entries, hat.count, hid⟩
  · rfl

private theorem scans_slots (hshift : l.shift = 9) (hserves : Serves 512 d₀ d f) (hcap : Device.capacity d₀ < 2 ^ 32)
    (hparts : ∀ part ∈ parts, Slot (Device.capacity d₀) part) (hlen : parts.length ≤ 4) (left : Nat)
    (hat : AtRecord l parts sc) (hend : sc.partitionIndex + left = parts.length) :
    ∃ sc' d', Scans env (left + 1) sc d
      ((parts.zipIdx.drop sc.partitionIndex).map fun p => found env.types f p.1 p.2) sc' d' ∧ sc'.state = .done := by
  induction left generalizing sc d with
  | zero =>
    have hindex : sc.partitionIndex = parts.length := hend
    rw [List.drop_of_length_le (by rw [List.length_zipIdx, hindex])]
    refine ⟨{ sc with state := .done }, d, Scans.ends ?_, rfl⟩
    rw [pass, if_neg (by rw [hat.count, hindex]; exact Nat.lt_irrefl _)]
  | succ left ih =>
    have hlt : sc.partitionIndex < parts.length := by omega
    obtain ⟨sc₁, d₁, hat₁, hindex, hserves₁, hpass⟩ := pass_slot hshift hserves hcap hparts hlen hat hlt
    obtain ⟨sc', d', hscans, hdone⟩ := ih hserves₁ hat₁ (by omega)
    refine ⟨sc', d', ?_, hdone⟩
    rw [hindex] at hscans
    rw [List.drop_eq_getElem_cons (by rwa [List.length_zipIdx]), List.map_cons, List.getElem_zipIdx, Nat.zero_add]
    exact Scans.returns hpass hscans

theorem bootRecord_scanned (hmax : b.maxSectorSize = 512) (hl : l.sectorSize = 512) (hserves : Serves 512 d₀ d f)
    (hcap : Device.capacity d₀ < 2 ^ 32) (hf : ∀ i < 512, f i = bootRecord l buffer parts i) (hne : parts ≠ [])
    (hlen : parts.length ≤ 4) (hparts : ∀ part ∈ parts, Slot (Device.capacity d₀) part) (hbuffer : env.buffer.isSome)
    {fuel : Nat} (hfuel : 5 < fuel) :
    ∃ d' scanned, scanPartitions env fuel d = some (some (true, d', scanned)) ∧
      List.Forall₂ (fun p => Refound env.types f p.1 p.2) parts.zipIdx scanned := by
  have hshift : l.shift = 9 := by
    rw [Layout.shift, hl]
    decide
  have hroom : 512 ≤ Device.capacity d₀ := by
    obtain ⟨part, hpart⟩ := List.exists_mem_of_ne_nil _ hne
    have hslot := hparts part hpart
    have hsize := Nat.le_of_dvd hslot.size_pos hslot.size_dvd
    have hin := hslot.inside
    omega
  obtain ⟨s₀, d₁, hopen, hserves₁, hstate, hshift₀, hentries, hnum, hindex, hid⟩ :=
    openTable_mbr hmax hl hserves hcap hroom hf hne hlen (fun part hpart => (hparts part hpart).scannable env.types)
      hbuffer
  obtain ⟨sc', d', hscans, hdone⟩ := scans_slots hshift hserves₁ hcap hparts hlen parts.length
    ⟨hstate, hshift₀, hentries, hnum, hid.trans hindex.symm⟩ (by rw [hindex, Nat.zero_add])
  rw [hindex, List.drop_zero] at hscans
  refine ⟨d', (parts.zipIdx.map fun p => found env.types f p.1 p.2).map env.named, ?_, ?_⟩
  · rw [hscans.scanPartitions_eq hopen (by rw [hstate]; decide) (by omega), hdone]
    rfl
  · rw [List.map_map, List.forall₂_map_right_iff, List.forall₂_same]
    exact fun p _ => refound env f p.1 p.2

end Scan

section Tables
variable {table : List (PartInfo b)}

/-- Add a new MBR partition definition. `dataAny` is `Partition::SubType::Data::any`. -/
def add (types : PartitionTypes) (dataAny : FullType) (table : List (PartInfo b)) (sysType : SysType)
    (sysIndicator offset size : Nat) : List (PartInfo b) :=
  table ++ [{ PartInfo.new [] (if sysType.isFat then types.dataFat else dataAny) offset size with
    systype := sysType
    sysind := sysIndicator }]

/-- Tables of percentages whose system indicators have names, or are zero. -/
structure Formattable (table : List (PartInfo b)) : Prop where
  auto : AutoPercentages table
  sysind : ∀ part ∈ table, part.sysind = 0 ∨ part.sysind ∈ sysIndicators

theorem formattable_nil : Formattable (b := b) [] := ⟨List.forall_mem_nil _, List.forall_mem_nil _⟩

theorem Formattable.add {types : PartitionTypes} {dataAny : FullType} (h : Formattable table) (sysType : SysType)
    {sysIndicator size : Nat} (hsysind : sysIndicator = 0 ∨ sysIndicator ∈ sysIndicators) (hpos : 1 ≤ size)
    (hsize : size ≤ 100) : Formattable (MBR.add types dataAny table sysType sysIndicator 0 size) := by
  have hlt : size < 2 ^ 32 := Nat.lt_of_le_of_lt hsize (by decide)
  have hstored : b.storage size = size := Build.storage_of_lt_word hlt
  constructor
  · refine List.forall_mem_append.mpr ⟨h.auto, List.forall_mem_singleton.mpr ⟨Build.storage_of_lt_word (by decide), ?_⟩⟩
    change 1 ≤ b.storage size ∧ b.storage size ≤ 100
    rw [hstored]
    exact ⟨hpos, hsize⟩
  · exact List.forall_mem_append.mpr ⟨h.sysind, List.forall_mem_singleton.mpr hsysind⟩

end Tables

section Use
variable {workBuffer : Option (Nat → UInt8)} {device : BlockDevice 9} {pt table : List (PartInfo b)}
  {result : Formatted b (BlockDevice 9)}

theorem formatDisk_slots (hbuild : b.maxSectorSize = 512)
    (hcap : device.sectorCount < 2 ^ 23) (hroom : 2048 + 100 ≤ device.sectorCount) (hne : table ≠ [])
    (htable : Formattable table)
    (hvalidate : validate (ownRange b device) table = some (.returned .success result.partitions)) :
    ∀ part ∈ result.partitions, Slot (device.sectorCount * 512) part ∧ PARTITION_ALIGN ≤ part.offset := by
  have hsize : sectorSize b = 512 := by
    rw [sectorSize, hbuild]
    rfl
  have hunit : SectorUnit (sectorSize b) := by
    rw [hsize]
    exact ⟨by decide, by decide, by decide⟩
  have hlayout : Layout.of b device = ⟨512, device.sectorCount⟩ := by
    have hlt : device.sectorCount < 2 ^ 32 := Nat.lt_trans hcap (by decide)
    rw [Layout.of, hsize]
    exact congrArg (Layout.mk 512) (Nat.mod_eq_of_lt hlt)
  have hfirst : (Layout.of b device).firstAllocatableSector = 2048 := by
    rw [hlayout]
    exact (by decide : PARTITION_ALIGN / 2 ^ getSizeBits 512 = 2048)
  have hcount : (Layout.of b device).numDeviceSectors = device.sectorCount := by rw [hlayout]
  have hbytes : Device.capacity device < b.storageSize := by
    have hsectors : Device.capacity device = device.sectorCount * 512 := rfl
    have := b.storageSize_cases
    omega
  have hhas : HasRoom b device := by
    refine ⟨by omega, ?_, .inl (by omega)⟩
    rw [hlayout]
    exact Nat.le_refl (device.sectorCount * 512)
  obtain ⟨hexact, hstart, hend, htotal, -⟩ := hhas.range hunit hbytes
  obtain ⟨-, hinside, hpos⟩ := Available.accepted_of_hundred hexact (by omega) hne htable.auto hvalidate
  have hblock : (ownRange b device).blockSize = 512 := by
    rw [ownRange, hlayout]
    rfl
  have hdvd := Available.validate_dvd (hstart ▸ dvd_rfl) (by rw [hblock]; decide)
    (fun p hp => ⟨(htable.auto p hp).1, (htable.auto p hp).2.2⟩) hvalidate
  have hlabels := Available.validate_label_forall
    (P := fun label => label.2.2.2.2.2 = 0 ∨ label.2.2.2.2.2 ∈ sysIndicators) hvalidate htable.sysind
  intro part hpart
  obtain ⟨hlo, hhi⟩ := hinside part hpart
  obtain ⟨hoffset, hsectors⟩ := hdvd part hpart
  rw [hstart] at hlo
  rw [hend, hlayout] at hhi
  rw [hblock] at hsectors
  refine ⟨⟨Nat.dvd_trans (by decide) hoffset, hsectors, ?_, hpos part hpart, hhi, hlabels part hpart⟩, hlo⟩
  exact Nat.pos_iff_ne_zero.mp (Nat.lt_of_lt_of_le PARTITION_ALIGN_pos hlo)

/-- The boot record of a disk partitioned by percentages survives every use inside the partitions: at
every moment, also in the middle of an operation, whichever raw operations fail and whatever the buffers
hold back, a device with this medium is scanned to all the partitions, each with its place and its
indicator, and whatever volumes they hold by now. -/
theorem table_survives_use (workBuffer : Option (Nat → UInt8)) (env : ScanEnv) (device : BlockDevice 9)
    (pt table : List (PartInfo b)) (result : Formatted b (BlockDevice 9)) (hready : LawfulDevice.Ready device)
    (hbuild : b.maxSectorSize = 512) (hcap : device.sectorCount < 2 ^ 23) (hroom : 2048 + 100 ≤ device.sectorCount)
    (htable : Formattable table) (hformat : formatDisk workBuffer device pt table = some result)
    (hok : result.err = .success)
    (hbuffer : env.buffer.isSome) {tr : List ((Op 9 × Outcome) × BlockDevice 9)} (run : Run deviceStep result.device tr)
    (hin : ∀ e ∈ tr, e.1.1.InRange device.sectorCount) (hops : ∀ e ∈ tr, e.1.1.InPartitions result.partitions) :
    ∀ c ∈ Medium.since result.device.medium (last result.device tr).medium,
      ∀ faults : Faults 9, (∀ n, faults.fails n = false) → ∀ fuel > 5, ∃ d' scanned,
        scanPartitions env fuel (BlockDevice.fresh device.sectorCount faults c) = some (some (true, d', scanned)) ∧
        List.Forall₂ (fun p => Refound env.types (Sector.flat c) p.1 p.2) result.partitions.zipIdx scanned := by
  intro c hc faults hfaults fuel hfuel
  obtain ⟨buffer, d₁, hne, hcount, -, hvalidate, hwrite, hsync, -⟩ := formatDisk_success hformat hok
  have hslots := formatDisk_slots hbuild hcap hroom hne htable hvalidate
  have hlen := Available.validate_length hvalidate
  have hl : (Layout.of b device).sectorSize = 512 := by
    rw [Layout.of, sectorSize, hbuild]
    rfl
  -- after the call the boot record is on the medium
  have hfits : 0 + (slice (bootRecord (Layout.of b device) buffer result.partitions) 0
      (Layout.of b device).sectorSize).length ≤ Device.capacity device := by
    have hsectors : Device.capacity device = device.sectorCount * 512 := rfl
    rw [slice_length, hl]
    omega
  obtain ⟨hholds, hmedium⟩ := ((Holds.start hready).write hfits hwrite).sync hsync
  have hsound : Sound device.sectorCount result.device := ⟨hholds.sectorCount_eq, hholds.ready.1⟩
  have hsynced : result.device.medium.sectors = result.device.logicalSector := by
    rw [hsound.coherent.logicalSector_eq]
    funext s
    apply Sector.flat_ext
    intro i _
    exact congrFun (hmedium.trans hholds.content_eq.symm) _
  -- no operation inside the partitions touches it
  have huntouched : ∀ e ∈ tr, ¬ e.1.1.Touches 0 := fun e he =>
    Op.untouched_of_apart (fun part hpart => .inl (Nat.le_trans (by decide) (hslots part hpart).2)) (hops e he)
  have hzero : c 0 = result.device.medium.sectors 0 := synced_untouched hready.2 hsound hsynced run hin huntouched hc
  have hboot : ∀ i < 512, Sector.flat c i = bootRecord (Layout.of b device) buffer result.partitions i := by
    intro i hi
    have hplace : 0 * 2 ^ 9 + i = i := by omega
    have hc₀ := Sector.flat_apply c 0 hi
    have hm₀ := Sector.flat_apply result.device.medium.sectors 0 hi
    rw [hplace] at hc₀ hm₀
    rw [hc₀, hzero, ← hm₀, show Sector.flat result.device.medium.sectors = _ from hmedium,
      patch_slice _ _ _ (by rwa [hl]), Nat.zero_add]
  have hfresh := sound_fresh device.sectorCount faults c
  have hserves : Serves 512 (BlockDevice.fresh device.sectorCount faults c)
      (BlockDevice.fresh device.sectorCount faults c) (Sector.flat c) :=
    ⟨Holds.start ⟨hfresh.coherent, hready.2⟩, BlockDevice.readsSucceed hfaults⟩
  have hbytes : Device.capacity (BlockDevice.fresh device.sectorCount faults c) < 2 ^ 32 := by
    have hsectors : Device.capacity (BlockDevice.fresh device.sectorCount faults c) = device.sectorCount * 512 := rfl
    omega
  have hne' : result.partitions ≠ [] := List.ne_nil_of_length_pos (hlen ▸ List.length_pos_iff.mpr hne)
  exact bootRecord_scanned hbuild hl hserves hbytes hboot hne' (hlen ▸ hcount)
    (fun part hpart => (hslots part hpart).1) hbuffer hfuel

/-- Without raw failures a call succeeds with any table that validate accepts. -/
theorem formatDisk_faultless {buffer : Nat → UInt8} {parts : List (PartInfo b)}
    (hfaults : ∀ n, device.faults.fails n = false) (hsize : sectorSize b = 2 ^ 9) (hne : table ≠ [])
    (hlen : table.length ≤ 4) (hvalidate : validate (ownRange b device) table = some (.returned .success parts)) :
    ∃ d', formatDisk (some buffer) device pt table = some ⟨.success, d', parts, []⟩ := by
  rw [ownRange] at hvalidate
  set bytes := slice (bootRecord (Layout.of b device) buffer parts) 0 (Layout.of b device).sectorSize
  have hwhole : BlockDevice.aligned (k := 9) 0 bytes.length = true := by
    rw [slice_length, show (Layout.of b device).sectorSize = 2 ^ 9 from hsize]
    decide
  obtain ⟨hwrite, hfaults₁, hcalls⟩ := BlockDevice.write_ok (fun n _ => hfaults n : device.faults.OkFrom _) 0 bytes
  rw [hwhole, Bool.or_true] at hwrite
  obtain ⟨hsync, -, -⟩ := BlockDevice.sync_ok
    (by rw [hfaults₁]; exact fun n _ => hfaults n : (device.write 0 bytes).2.faults.OkFrom _)
  refine ⟨(Device.sync (Device.write device 0 bytes).2).2, ?_⟩
  have hw : Device.write device 0 bytes = (true, (Device.write device 0 bytes).2) := Prod.ext hwrite rfl
  have hs : Device.sync (Device.write device 0 bytes).2 = (true, _) := Prod.ext hsync rfl
  rw [formatDisk, if_neg (not_or.mpr ⟨mt List.isEmpty_iff.mp hne, Nat.not_lt.mpr hlen⟩)]
  dsimp only
  rw [hvalidate]
  dsimp only
  rw [if_pos rfl, hw]
  dsimp only
  rw [hs]
  dsimp only
  rw [handOver_eq, List.nil_append]

/-- Two partitions that are added to a table, the first for FAT. -/
def twoAdded : List (PartInfo ⟨true, true, true, 512⟩) :=
  add ⟨0xff, 1, 2, 0xff⟩ ⟨1, 0⟩ (add ⟨0xff, 1, 2, 0xff⟩ ⟨1, 0⟩ [] .fat16 SI_FAT16B 0 40) .unknown 0 0 30

/-- They are on 4 MiB with four buffers: a write to the first and an erase in the second, and no sync. -/
theorem table_survives_use_four_mib : ∃ result : Formatted ⟨true, true, true, 512⟩ (BlockDevice 9),
    result.err = .success ∧ ∀ c ∈ Medium.since result.device.medium
        (last result.device (trace result.device [.write 0x100003 [1, 2], .eraseRange 0x300000 512])).medium,
      ∃ d' scanned, scanPartitions ⟨⟨0xff, 1, 2, 0xff⟩, fun _ => [], some fun _ => 0, none⟩ 6
          (BlockDevice.fresh 8192 ⟨fun _ => false, fun _ => Sector.zero⟩ c) = some (some (true, d', scanned)) ∧
        List.Forall₂ (fun p => Refound ⟨0xff, 1, 2, 0xff⟩ (Sector.flat c) p.1 p.2) result.partitions.zipIdx
          scanned := by
  have htable : Formattable twoAdded :=
    (formattable_nil.add .fat16 (by decide) (by decide) (by decide)).add .unknown (by decide) (by decide) (by decide)
  obtain ⟨parts, hv, huses⟩ : ∃ parts,
      validate (Available.of ⟨true, true, true, 512⟩ (⟨512, 8192⟩ : Layout).firstAllocatableSector
        (⟨512, 8192⟩ : Layout).allocatableSectors 512) twoAdded = some (.returned .success parts) ∧
      ∀ op : Op 9, op ∈ [.write 0x100003 [1, 2], .eraseRange 0x300000 512] →
        op.InRange 8192 ∧ op.InPartitions parts := by
    refine GPT.two_placed (by decide : 0x300000 + 512 ≤ 0x400000) ?_
    decide +kernel
  obtain ⟨d', hformat⟩ : ∃ d', formatDisk (some fun _ => 0) (GPT.fourMib (some (.new 4 fun _ => Sector.zero))) []
      twoAdded = some ⟨.success, d', parts, []⟩ :=
    formatDisk_faultless (fun _ => rfl) rfl (List.cons_ne_nil _ _) (by decide) hv
  have hscans := table_survives_use _ ⟨⟨0xff, 1, 2, 0xff⟩, fun _ => [], some fun _ => 0, none⟩ _ _ _ _
    (GPT.fourMib_ready (fun _ => Sector.zero) 4) rfl (by decide) (by decide) htable hformat rfl rfl
    (run_trace _ [.write 0x100003 [1, 2], .eraseRange 0x300000 512])
    (fun e he => (huses _ (op_of_mem_trace he)).1) fun e he => (huses _ (op_of_mem_trace he)).2
  exact ⟨_, rfl, fun c hc => hscans c hc _ (fun _ => rfl) 6 (by decide)⟩

end Use

end MBR

end DiskStorage
