import DiskStorage.Format.Mbr
import DiskStorage.Scanner.Results
import DiskStorage.Validate.Gaps
import DiskStorage.Validate.Labels

/-! A table in MBR format is found again by the scanner. -/
namespace DiskStorage
open ByteStore LittleEndian

namespace MBR
variable {b : Build} {l : Layout} {part : PartInfo b}

/-- The partition that the scanner makes of a record, without a volume in its first sector. -/
def reread (types : PartitionTypes) (part : PartInfo b) (index : Nat) : PartInfo b :=
  let systype := getSysTypeFromIndicator part.sysind
  { PartInfo.new (ascii ("mbr" ++ toString (index + 1))) (if systype.isFat then types.dataFat else types.none)
      part.offset part.size with
    systype := systype
    sysind := part.sysind }

/-- What the round trip asks of a partition: sectors of the device, one at least, a system type that
is none or has a name, and no volume in its first sector. -/
structure Scannable (types : PartitionTypes) (capacity : Nat) (f : Nat → UInt8) (part : PartInfo b) : Prop where
  offset_dvd : 512 ∣ part.offset
  size_dvd : 512 ∣ part.size
  offset_ne : part.offset ≠ 0
  size_pos : 0 < part.size
  inside : part.offset + part.size ≤ capacity
  sysind : part.sysind = 0 ∨ part.sysind ∈ sysIndicators
  probe : identify b types (fun i => f (part.offset + i)) part.offset = none

section Record
variable {types : PartitionTypes} {capacity : Nat} {f : Nat → UInt8}

theorem sysind_lt (h : part.sysind = 0 ∨ part.sysind ∈ sysIndicators) : part.sysind < 256 ∧
    UInt8.ofNat part.sysind ≠ EFI_PMBR_OSTYPE_EFI_GPT ∧ UInt8.ofNat part.sysind ≠ OSTYPE_EXTENDED := by
  have hall : ∀ n ∈ 0 :: sysIndicators, n < 256 ∧ UInt8.ofNat n ≠ EFI_PMBR_OSTYPE_EFI_GPT ∧
      UInt8.ofNat n ≠ OSTYPE_EXTENDED := by decide
  exact hall _ (List.mem_cons.mpr h)

variable (h : Scannable types capacity f part) (hcap : capacity < 2 ^ 32) (hshift : l.shift = 9)
include h hcap hshift

theorem Scannable.starting : (recordOf l part).startingLba.toNat * 2 ^ 9 = part.offset := by
  have hinside := h.inside
  have hle := Nat.div_le_self part.offset (2 ^ l.shift)
  have hstart := recordOf_startingLba (l := l) (by rw [hshift]; exact h.offset_dvd) (by omega)
  rwa [hshift] at hstart

theorem Scannable.size : (recordOf l part).sizeInLba.toNat * 2 ^ 9 = part.size := by
  have hinside := h.inside
  have hle := Nat.div_le_self part.size (2 ^ l.shift)
  have hsize := recordOf_sizeInLba (l := l) (by rw [hshift]; exact h.size_dvd) (by omega)
  rwa [hshift] at hsize

theorem Scannable.nonempty :
    ((recordOf l part).startingLba != 0 && (recordOf l part).sizeInLba != 0) = true := by
  have hstart := h.starting hcap hshift
  have hsize := h.size hcap hshift
  have hoffset := h.offset_ne
  have hpos := h.size_pos
  rw [Bool.and_eq_true, bne_iff_ne, bne_iff_ne]
  constructor
  · intro hzero
    rw [hzero, UInt32.toNat_zero] at hstart
    omega
  · intro hzero
    rw [hzero, UInt32.toNat_zero] at hsize
    omega

theorem Scannable.mbrPart_eq {env : ScanEnv} {sc : Scanner} {index : Nat} (hsc : sc.sectorSizeShift = 9)
    (hid : sc.mbrPartID = index + 1) (hprobe : ∀ offset, identify b env.types sc.buffer offset = none) :
    mbrPart env sc (recordOf l part) = reread env.types part index := by
  have hinside := h.inside
  have hstart : (recordOf l part).startingLba.toNat * 2 ^ 9 % 2 ^ 32 = part.offset := by
    rw [h.starting hcap hshift, Nat.mod_eq_of_lt (by omega)]
  have hsize : (recordOf l part).sizeInLba.toNat * 2 ^ 9 % 2 ^ 32 = part.size := by
    rw [h.size hcap hshift, Nat.mod_eq_of_lt (by omega)]
  have htype : (recordOf l part).osType.toNat = part.sysind := UInt8.toNat_ofNat_of_lt' (sysind_lt h.sysind).1
  rw [mbrPart, reread]
  simp only [hsc, hid, hstart, hsize, htype, hprobe, Option.getD_none, Build.storage_of_lt part.offset_lt]
  simp only [PartInfo.new, PartitionTypes.none, true_and]

end Record

section Scan
variable {parts : List (PartInfo b)} {f buffer : Nat → UInt8} {env : ScanEnv} {capacity : Nat} {σ : Type}
  [LawfulDevice σ] {d₀ d : σ} {sc : Scanner}

private theorem scanMbrEntries_bootRecord (hl : l.sectorSize = 512) (hlen : parts.length ≤ 4) (hcap : capacity < 2 ^ 32)
    (hparts : ∀ part ∈ parts, Scannable env.types capacity f part) :
    scanMbrEntries (bootRecord l buffer parts) 0 = parts.map (recordOf l) := by
  have hshift : l.shift = 9 := by
    rw [Layout.shift, hl]
    decide
  have hrecords : (List.range 4).map (fun i => mbrRecord (bootRecord l buffer parts) i) =
      parts.map (recordOf l) ++ (List.range' parts.length (4 - parts.length)).map
        fun i => mbrRecord (bootRecord l buffer parts) i := by
    apply List.ext_getElem (by simp; omega)
    intro i hi _
    rw [List.length_map, List.length_range] at hi
    rw [List.getElem_map, List.getElem_range]
    rcases Nat.lt_or_ge i parts.length with hlt | hge
    · rw [List.getElem_append_left (by rwa [List.length_map]), List.getElem_map, mbrRecord_bootRecord buffer hlen hlt]
    · rw [List.getElem_append_right (by rwa [List.length_map]), List.getElem_map, List.getElem_range']
      congr 1
      rw [List.length_map]
      omega
  have hused : ∀ rec ∈ parts.map (recordOf l), (rec.startingLba != 0 && rec.sizeInLba != 0) = true := by
    intro rec hrec
    obtain ⟨part, hpart, rfl⟩ := List.mem_map.mp hrec
    exact (hparts part hpart).nonempty hcap hshift
  have hunused : ∀ rec ∈ (List.range' parts.length (4 - parts.length)).map
      fun i => mbrRecord (bootRecord l buffer parts) i,
      ¬ (rec.startingLba != 0 && rec.sizeInLba != 0) = true := by
    intro rec hrec
    obtain ⟨i, hi, rfl⟩ := List.mem_map.mp hrec
    rw [List.mem_range'_1] at hi
    have hzero := mbrRecord_unused (l := l) buffer (by omega) hi.1 (show i < 4 by omega)
    rw [hzero]
    exact Bool.false_ne_true
  rw [scanMbrEntries, hrecords, List.filter_append, List.filter_eq_self.mpr hused, List.filter_eq_nil_iff.mpr hunused,
    List.append_nil, List.map_map]
  apply List.map_congr_left
  intro part _
  simp only [Function.comp_apply, UInt32.add_zero]

theorem openTable_mbr {g : Nat → UInt8} (hmax : b.maxSectorSize = 512) (hl : l.sectorSize = 512)
    (hserves : Serves 512 d₀ d f)
    (hcap : Device.capacity d₀ < 2 ^ 32) (hroom : 512 ≤ Device.capacity d₀)
    (hf : ∀ i < 512, f i = bootRecord l buffer parts i) (hne : parts ≠ []) (hlen : parts.length ≤ 4)
    (hparts : ∀ part ∈ parts, Scannable env.types (Device.capacity d₀) g part) (hbuffer : env.buffer.isSome) :
    ∃ s₀ d', openTable (b := b) env Scanner.new d = .again s₀ d' ∧ Serves 512 d₀ d' f ∧ s₀.state = .mbr ∧
      s₀.sectorSizeShift = 9 ∧ s₀.mbrEntries = parts.map (recordOf l) ∧ s₀.numPartitionEntries = parts.length ∧
      s₀.partitionIndex = 0 ∧ s₀.mbrPartID = 0 := by
  obtain ⟨memory, hbuffer⟩ := Option.isSome_iff_exists.mp hbuffer
  have hchoose : chooseSectorSize b d = some 512 := by
    rw [chooseSectorSize, if_neg (not_not_intro (by exact hmax)), hmax]
  have hword : Device.capacity d₀ < b.storageSize := by
    have := b.storageSize_cases
    omega
  have hshift : getSizeBits 512 = 9 := by decide
  obtain ⟨sector₀, d', hread, hserves', hsector⟩ := hserves.readSector (b := b)
    { Scanner.new with sectorSize := 512, sectorSizeShift := 9, buffer := memory } 0 memory rfl hword (by omega)
  have hsame : ∀ i < 512, sector₀ i = bootRecord l buffer parts i := by
    intro i hi
    rw [hsector i hi, Nat.zero_mul, Nat.zero_add, hf i hi]
  have hboot : identify b env.types sector₀ 0 = none := by
    refine identify_of_no_boot_code (fun i hi => ?_) 0
    have hlt : i < 512 := Nat.lt_trans hi (by decide)
    rw [hsame i hlt, bootRecord_boot_code buffer (by omega) hi]
  have hsignature : mbrSignature sector₀ = MSDOS_MBR_SIGNATURE :=
    (mbrSignature_congr hsame).trans (mbrSignature_bootRecord buffer)
  have htype : (mbrRecord sector₀ 0).osType ≠ EFI_PMBR_OSTYPE_EFI_GPT := by
    have hpos : 0 < parts.length := List.length_pos_iff.mpr hne
    rw [mbrRecord_congr hsame (by decide), mbrRecord_bootRecord buffer hlen hpos]
    exact (sysind_lt (hparts _ (List.getElem_mem hpos)).sysind).2.1
  have hentries : scanMbrEntries sector₀ 0 = parts.map (recordOf l) :=
    (scanMbrEntries_congr hsame 0).trans (scanMbrEntries_bootRecord hl hlen hcap hparts)
  rw [openTable, hchoose]
  dsimp only
  rw [hbuffer]
  dsimp only
  rw [hshift, hread]
  dsimp only
  rw [hboot]
  dsimp only
  rw [if_neg (not_not_intro hsignature), if_neg htype]
  exact ⟨_, d', rfl, hserves', rfl, rfl, hentries, (congrArg List.length hentries).trans (List.length_map _), rfl, rfl⟩

/-- The scanner is in front of a record of the boot record, or behind the last one. -/
structure AtRecord (l : Layout) (parts : List (PartInfo b)) (sc : Scanner) : Prop where
  state : sc.state = .mbr
  shift_eq : sc.sectorSizeShift = 9
  entries : sc.mbrEntries = parts.map (recordOf l)
  count : sc.numPartitionEntries = parts.length
  id_eq : sc.mbrPartID = sc.partitionIndex

private theorem pass_record (hshift : l.shift = 9) (hserves : Serves 512 d₀ d f) (hcap : Device.capacity d₀ < 2 ^ 32)
    (hparts : ∀ part ∈ parts, Scannable env.types (Device.capacity d₀) f part) (hlen : parts.length ≤ 4)
    (hat : AtRecord l parts sc) (hindex : sc.partitionIndex < parts.length) :
    ∃ sc' d', AtRecord l parts sc' ∧ sc'.partitionIndex = sc.partitionIndex + 1 ∧ Serves 512 d₀ d' f ∧
      pass env sc d = .returned (some (reread env.types parts[sc.partitionIndex] sc.partitionIndex)) sc' d' := by
  set part := parts[sc.partitionIndex] with hpart
  have hscan := hparts part (List.getElem_mem hindex)
  have hword : Device.capacity d₀ < b.storageSize := by
    have := b.storageSize_cases
    omega
  have hentry : sc.mbrEntries[sc.partitionIndex]? = some (recordOf l part) := by
    rw [hat.entries, List.getElem?_map, List.getElem?_eq_getElem hindex, Option.map_some]
  have hstart := hscan.starting hcap hshift
  have hinside : ((recordOf l part).startingLba.toNat + 1) * 512 ≤ Device.capacity d₀ := by
    have hle := Nat.le_of_dvd hscan.size_pos hscan.size_dvd
    have hin := hscan.inside
    omega
  obtain ⟨sector, d', hread, hserves', hsector⟩ := hserves.readSector (b := b)
    { sc with partitionIndex := sc.partitionIndex + 1 } (recordOf l part).startingLba.toNat sc.buffer
    (congrArg (2 ^ ·) hat.shift_eq) hword hinside
  have hprobe : ∀ offset, identify b env.types sector offset = none := by
    intro offset
    rw [identify_congr (g := fun i => f (part.offset + i)) (fun i hi => ?_) env.types offset]
    · exact identify_none hscan.probe offset
    · rw [hsector i hi, ← hstart]
      rfl
  have hid : (sc.mbrPartID + 1) % 2 ^ 16 = sc.partitionIndex + 1 := by
    rw [hat.id_eq]
    exact Nat.mod_eq_of_lt (by omega)
  have hlink : (recordOf l part).osType ≠ OSTYPE_EXTENDED := (sysind_lt hscan.sysind).2.2
  rw [pass, if_pos (by rw [hat.count]; exact hindex), hat.state]
  dsimp only
  rw [hentry]
  dsimp only
  rw [passMbr, hread]
  dsimp only
  rw [if_neg hlink]
  refine ⟨_, d', ?_, ?_, hserves', congrArg (fun p => Pass.returned (some p) _ d')
    (hscan.mbrPart_eq hcap hshift hat.shift_eq hid hprobe)⟩
  · exact ⟨hat.state, hat.shift_eq, hat.entries, hat.count, hid⟩
  · rfl

private theorem scans_records (hshift : l.shift = 9) (hserves : Serves 512 d₀ d f) (hcap : Device.capacity d₀ < 2 ^ 32)
    (hparts : ∀ part ∈ parts, Scannable env.types (Device.capacity d₀) f part) (hlen : parts.length ≤ 4)
    (left : Nat) (hat : AtRecord l parts sc) (hend : sc.partitionIndex + left = parts.length) :
    ∃ sc' d', Scans env (left + 1) sc d
      ((parts.zipIdx.drop sc.partitionIndex).map fun p => reread env.types p.1 p.2) sc' d' ∧
      sc'.state = .done := by
  induction left generalizing sc d with
  | zero =>
    have hindex : sc.partitionIndex = parts.length := hend
    rw [List.drop_of_length_le (by rw [List.length_zipIdx, hindex])]
    refine ⟨{ sc with state := .done }, d, Scans.ends ?_, rfl⟩
    rw [pass, if_neg (by rw [hat.count, hindex]; exact Nat.lt_irrefl _)]
  | succ left ih =>
    have hlt : sc.partitionIndex < parts.length := by omega
    obtain ⟨sc₁, d₁, hat₁, hindex, hserves₁, hpass⟩ := pass_record hshift hserves hcap hparts hlen hat hlt
    obtain ⟨sc', d', hscans, hdone⟩ := ih hserves₁ hat₁ (by omega)
    refine ⟨sc', d', ?_, hdone⟩
    rw [hindex] at hscans
    rw [List.drop_eq_getElem_cons (by rwa [List.length_zipIdx]), List.map_cons, List.getElem_zipIdx, Nat.zero_add]
    exact Scans.returns hpass hscans

end Scan

/-- A scanned partition is the one in the table at an index. -/
structure SamePartition (part : PartInfo b) (index : Nat) (scanned : PartInfo b) : Prop where
  name_eq : scanned.name = ascii ("mbr" ++ toString (index + 1))
  offset_eq : scanned.offset = part.offset
  size_eq : scanned.size = part.size
  sysind_eq : scanned.sysind = part.sysind
  systype_eq : scanned.systype = getSysTypeFromIndicator part.sysind

private theorem reread_same (env : ScanEnv) (part : PartInfo b) (index : Nat) :
    SamePartition part index (env.named (reread env.types part index)) where
  name_eq := if_neg fun h => absurd (Bool.and_eq_true .. ▸ h).1 (by simp [reread, PartInfo.new, ascii])
  offset_eq := Build.storage_of_lt part.offset_lt
  size_eq := Build.storage_of_lt part.size_lt
  sysind_eq := rfl
  systype_eq := rfl

/-- What formatDisk has written is found by scanPartitions: the partitions of the table, in table
order, by the names mbr1, mbr2 and so on. -/
theorem mbr_format_scan_round_trip {σ : Type} [LawfulDevice σ] (workBuffer : Option (Nat → UInt8)) (env : ScanEnv)
    (device : σ) (pt table : List (PartInfo b)) (result : Formatted b σ) (hready : LawfulDevice.Ready device)
    (hbuild : b.maxSectorSize = 512) (hcap : Device.capacity device < 2 ^ 32)
    (hsysind : ∀ part ∈ table, part.sysind = 0 ∨ part.sysind ∈ sysIndicators)
    (hformat : formatDisk workBuffer device pt table = some result) (hok : result.err = .success)
    (hsectors : ∀ part ∈ result.partitions, 512 ∣ part.offset ∧ 512 ∣ part.size ∧ 0 < part.size ∧
      part.offset + part.size ≤ Device.capacity device)
    (hreads : Device.ReadsSucceed 512 result.device)
    (hprobe : ∀ part ∈ result.partitions,
      identify b env.types (fun i => LawfulDevice.content result.device (part.offset + i)) part.offset = none)
    (hbuffer : env.buffer.isSome) :
    result.partitions.map PartInfo.label = table.map PartInfo.label ∧
      ∃ scanned device', (∀ fuel, 5 < fuel →
          scanPartitions env fuel result.device = some (some (true, device', scanned))) ∧
        List.Forall₂ (fun p => SamePartition p.1 p.2) result.partitions.zipIdx scanned := by
  obtain ⟨buffer, d₁, hne, hcount, _, hvalidate, hwrite, hsync, _⟩ := formatDisk_success hformat hok
  have hlabels := Available.validate_labels hvalidate
  have hlen := Available.validate_length hvalidate
  have hl : (Layout.of b device).sectorSize = 512 := by
    rw [Layout.of, sectorSize, hbuild]
    rfl
  have hshift : (Layout.of b device).shift = 9 := by
    rw [Layout.shift, hl]
    decide
  have hparts := Available.validate_label_forall
    (P := fun label => label.2.2.2.2.2 = 0 ∨ label.2.2.2.2.2 ∈ sysIndicators) hvalidate hsysind
  have hpartsne : result.partitions ≠ [] := List.ne_nil_of_length_pos (hlen ▸ List.length_pos_iff.mpr hne)
  -- a partition has a sector behind the first, so there is room for the boot record
  have hroom : 512 ≤ Device.capacity device := by
    obtain ⟨part, hpart⟩ := List.exists_mem_of_ne_nil _ hpartsne
    obtain ⟨_, hsize, hpos, hin⟩ := hsectors part hpart
    have := Nat.le_of_dvd hpos hsize
    omega
  have hholds₁ := (Holds.start hready).write (by rw [slice_length, hl]; omega) hwrite
  obtain ⟨hholds, _⟩ := hholds₁.sync hsync
  set f := patch (LawfulDevice.content device) 0 (slice (bootRecord (Layout.of b device) buffer result.partitions) 0
    (Layout.of b device).sectorSize) with hf
  have hscannable : ∀ part ∈ result.partitions, Scannable env.types (Device.capacity device) f part := by
    intro part hpart
    obtain ⟨hoffset, hsize, hpos, hin⟩ := hsectors part hpart
    refine ⟨hoffset, hsize, Available.validate_offset_ne_zero hvalidate part hpart, hpos, hin, hparts part hpart, ?_⟩
    rw [← hholds.content_eq]
    exact hprobe part hpart
  have hboot : ∀ i < 512, f i = bootRecord (Layout.of b device) buffer result.partitions i := by
    intro i hi
    rw [hf, patch_slice _ _ _ (by rwa [hl]), Nat.zero_add]
  obtain ⟨s₀, d₂, hopen, hserves, hstate, hshift₀, hentries, hnum, hindex, hid⟩ :=
    openTable_mbr hbuild hl ⟨hholds, hreads⟩ hcap hroom hboot hpartsne (hlen ▸ hcount) hscannable hbuffer
  obtain ⟨sc', d', hscans, hdone⟩ := scans_records hshift hserves hcap hscannable (hlen ▸ hcount)
    result.partitions.length ⟨hstate, hshift₀, hentries, hnum, hid.trans hindex.symm⟩ (by rw [hindex, Nat.zero_add])
  rw [hindex, List.drop_zero] at hscans
  refine ⟨hlabels, (result.partitions.zipIdx.map fun p => reread env.types p.1 p.2).map env.named, d',
    fun fuel hfuel => ?_, ?_⟩
  · rw [hscans.scanPartitions_eq hopen (by rw [hstate]; decide) (by omega), hdone]
    rfl
  · rw [List.map_map, List.forall₂_map_right_iff, List.forall₂_same]
    exact fun p _ => reread_same env p.1 p.2

/-- Two partitions on a 4 MiB disk. -/
theorem mbr_format_scan_round_trip_four_mib : ∃ result,
    formatDisk (b := ⟨true, true, true, 512⟩) (some fun _ => 0) (⟨fun _ => 0, 512, 8192⟩ : RamDisk) []
        [{ PartInfo.new [] ⟨1, 2⟩ 0 40 with sysind := SI_FAT16B }, PartInfo.new [] ⟨1, 0⟩ 0 30] = some result ∧
      result.partitions.length = 2 ∧ ∃ scanned device', (∀ fuel, 5 < fuel →
        scanPartitions ⟨⟨0xff, 1, 2, 0xff⟩, fun _ => [], some fun _ => 0, none⟩ fuel result.device =
          some (some (true, device', scanned))) ∧
        List.Forall₂ (fun p => SamePartition p.1 p.2) result.partitions.zipIdx scanned := by
  have hmap : (formatDisk (b := ⟨true, true, true, 512⟩) (some fun _ => 0) (⟨fun _ => 0, 512, 8192⟩ : RamDisk) []
        [{ PartInfo.new [] ⟨1, 2⟩ 0 40 with sysind := SI_FAT16B }, PartInfo.new [] ⟨1, 0⟩ 0 30]).map
        (fun r => (r.err, r.partitions.map fun p => ((p.offset, p.size), (identify ⟨true, true, true, 512⟩
          ⟨0xff, 1, 2, 0xff⟩ (fun i => LawfulDevice.content r.device (p.offset + i)) p.offset).isNone))) =
      some (.success, [((0x100000, 0x200000), true), ((0x300000, 0x100000), true)]) := by decide +kernel
  obtain ⟨result, hformat, heq⟩ := Option.map_eq_some_iff.mp hmap
  have hok : result.err = .success := congrArg Prod.fst heq
  have hall : ∀ part ∈ result.partitions, (512 ∣ part.offset ∧ 512 ∣ part.size ∧ 0 < part.size ∧
      part.offset + part.size ≤ 8192 * 512) ∧ identify ⟨true, true, true, 512⟩ ⟨0xff, 1, 2, 0xff⟩
        (fun i => LawfulDevice.content result.device (part.offset + i)) part.offset = none := by
    intro part hpart
    have hmem := List.mem_map_of_mem (f := fun p : PartInfo ⟨true, true, true, 512⟩ =>
      ((p.offset, p.size), (identify ⟨true, true, true, 512⟩ ⟨0xff, 1, 2, 0xff⟩
        (fun i => LawfulDevice.content result.device (p.offset + i)) p.offset).isNone)) hpart
    rw [show result.partitions.map _ = _ from congrArg Prod.snd heq] at hmem
    have hlisted : ∀ e ∈ [((0x100000, 0x200000), true), ((0x300000, 0x100000), true)],
        (512 ∣ e.1.1 ∧ 512 ∣ e.1.2 ∧ 0 < e.1.2 ∧ e.1.1 + e.1.2 ≤ 8192 * 512) ∧ e.2 = true := by decide
    obtain ⟨hextent, hnone⟩ := hlisted _ hmem
    exact ⟨hextent, Option.isNone_iff_eq_none.mp hnone⟩
  refine ⟨result, hformat, ?_, (mbr_format_scan_round_trip (b := ⟨true, true, true, 512⟩) (some fun _ => 0)
    ⟨⟨0xff, 1, 2, 0xff⟩, fun _ => [], some fun _ => 0, none⟩ (⟨fun _ => 0, 512, 8192⟩ : RamDisk) [] _ result trivial rfl
    (by decide) (by simp only [List.forall_mem_cons]; decide) hformat hok (fun part hpart => (hall part hpart).1)
    (RamDisk.readsSucceed _ _) (fun part hpart => (hall part hpart).2) rfl).2⟩
  have hlen := congrArg (fun r => r.2.length) heq
  rwa [List.length_map] at hlen

end MBR

end DiskStorage
