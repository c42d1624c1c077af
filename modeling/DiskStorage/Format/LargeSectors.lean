import DiskStorage.Format.GptRoundTrip

/-! Sectors that the entries do not fill: nothing of the entry array is written, and a scan finds no partition. -/
namespace DiskStorage
open ByteStore LittleEndian

namespace GPT
variable {b : Build} {l : Layout b} {parts : List (PartInfo b)}

section Written
variable {diskGuid : Uuid} {f u v w : Nat → UInt8}

theorem headersWritten_listed (hl : l.Roomy) (hzero : l.numPartitionTableSectors = 0)
    (hblank : ∀ i < GPT_ITEMS * GPT_ENTRY_SIZE, f (2 * l.sectorSize + i) = 0) :
    Listed l diskGuid (arrayCrc l parts) [] (headersWritten l parts diskGuid f u v w) := by
  obtain ⟨hmbr, hprimary, -⟩ := headersWritten_headers parts diskGuid f u v w hl
  refine ⟨hmbr, hprimary, ?_⟩
  -- the array is in front of the first partition boundary
  have hroom := hl.room
  have hfirst := hl.first_le
  have hfront : GPT_ITEMS * GPT_ENTRY_SIZE ≤ (l.firstAllocatableSector - 2) * l.sectorSize := by
    have htables := (Layout.tables_le hl.unit).2
    rw [← Layout.firstAllocatable_mul hl.unit] at htables
    rw [Nat.sub_mul]
    omega
  have hother : slice (headersWritten l parts diskGuid f u v w) (2 * l.sectorSize)
      ((l.firstAllocatableSector - 2) * l.sectorSize) =
        slice f (2 * l.sectorSize) ((l.firstAllocatableSector - 2) * l.sectorSize) :=
    headersWritten_other hzero (Nat.le_refl 2) (by omega)
  rw [← take_slice _ (2 * l.sectorSize) hfront, hother, take_slice _ _ hfront]
  apply List.ext_getElem (by rw [slice_length, slice_length])
  intro i hi _
  rw [slice_length] at hi
  rw [getElem_slice, getElem_slice, hblank i hi]
  exact (arrayBytes_behind l (Nat.zero_le 0) (by rw [Nat.zero_mul]; exact Nat.zero_le _)).symm

private theorem not_identified_header {h : GptHeader} {a : Nat} (types : PartitionTypes)
    (hsignature : h.signature = GPT_HEADER_SIGNATURE) (hg : slice f a GPT_HEADER_SIZE = h.encode) (offset : Nat) :
    identify b types (fun i => f (a + i)) offset = none := by
  have hstart : slice f a 8 = le64 GPT_HEADER_SIGNATURE := by
    rw [← take_slice f a (by decide : 8 ≤ GPT_HEADER_SIZE), hg, ← hsignature, GptHeader.encode]
    exact List.take_left' (length_le64 _)
  have hbytes : le64 GPT_HEADER_SIGNATURE = [0x45, 0x46, 0x49, 0x20, 0x50, 0x41, 0x52, 0x54] := by decide +kernel
  have hbyte : ∀ i : Fin 8, f (a + i) = [0x45, 0x46, 0x49, 0x20, 0x50, 0x41, 0x52, 0x54].get i := by
    intro i
    have hlen : i.val < (slice f a 8).length := by
      rw [slice_length]
      exact i.isLt
    rw [← getElem_slice f a 8 i hlen]
    exact List.getElem_of_eq (hstart.trans hbytes) hlen
  have hfirst : f (a + 0) = 0x45 := hbyte 0
  have hname : f (a + 3) = 0x20 := hbyte 3
  refine identify_of_start ?_ ?_ offset
  · rw [hfirst]
    decide
  · rw [hname]
    decide

theorem not_identified (hl : l.Roomy) (hzero : l.numPartitionTableSectors = 0) (types : PartitionTypes) {s : Nat}
    (hs : s < l.driveSectors) (offset : Nat) :
    identify b types (fun i => headersWritten l parts diskGuid (fun _ => 0) u v w (s * l.sectorSize + i)) offset =
      none := by
  have hlisted : Listed l diskGuid (arrayCrc l parts) [] (headersWritten l parts diskGuid (fun _ => 0) u v w) :=
    headersWritten_listed hl hzero fun _ _ => rfl
  obtain ⟨-, hprimary, hsecondary⟩ := headersWritten_headers parts diskGuid (fun _ => 0) u v w hl
  by_cases hmbr : s = 0
  · refine identify_of_no_boot_code (fun i hi => ?_) offset
    rw [hmbr, Nat.zero_mul, Nat.zero_add]
    exact hlisted.boot_code hi
  by_cases hone : s = 1
  · rw [hone, Nat.one_mul]
    exact not_identified_header types rfl hprimary offset
  by_cases hlast : s = l.driveSectors - 1
  · rw [hlast]
    exact not_identified_header types rfl hsecondary offset
  · refine identify_of_no_boot_code (fun i hi => ?_) offset
    have hmin : 512 ≤ l.sectorSize := hl.min_le
    have hi : i < l.sectorSize := by
      rw [MBR_RECORDS] at hi
      omega
    have hother : slice (headersWritten l parts diskGuid (fun _ => 0) u v w) (s * l.sectorSize) (1 * l.sectorSize) =
        slice (fun _ => 0) (s * l.sectorSize) (1 * l.sectorSize) :=
      headersWritten_other hzero (by omega) (by omega)
    have hbyte := List.getElem_of_eq hother (i := i) (by rwa [slice_length, Nat.one_mul])
    rwa [getElem_slice, getElem_slice] at hbyte

end Written

section Lost
variable {σ : Type} [LawfulDevice σ] {fenv : FormatEnv} {env : ScanEnv} {device : σ} {pt table : List (PartInfo b)}
  {diskGuid : Uuid} {result : Formatted b σ}

theorem Formattable.listed_nothing (hdevice : Formattable b device) (hready : LawfulDevice.Ready device)
    (hnot : ¬ Device.getSectorSize device ∣ GPT_ITEMS * GPT_ENTRY_SIZE)
    (hblank : ∀ i < GPT_ITEMS * GPT_ENTRY_SIZE, LawfulDevice.content device (2 * Device.getSectorSize device + i) = 0)
    (hformat : formatDisk fenv device pt table diskGuid = some result) (hok : result.err = .success) :
    ∃ f guid crc, Holds device result.device f ∧
      Listed (b := b) ⟨Device.getSectorSize device, Device.getSectorCount device⟩ guid crc [] f := by
  obtain ⟨_, _, hwrite⟩ := hdevice.written hformat hok
  have hl := hdevice.roomy
  obtain ⟨_, _, u, v, w, guid, _, _, _, _, hholds, _⟩ := writeTables_written hl rfl (Holds.start hready) hwrite
  exact ⟨_, guid, _, hholds, headersWritten_listed hl (hl.table_zero hnot) hblank⟩

theorem Formattable.scanned_nothing (hdevice : Formattable b device) (hready : LawfulDevice.Ready device)
    (hnot : ¬ Device.getSectorSize device ∣ GPT_ITEMS * GPT_ENTRY_SIZE)
    (hblank : ∀ i < GPT_ITEMS * GPT_ENTRY_SIZE, LawfulDevice.content device (2 * Device.getSectorSize device + i) = 0)
    (hformat : formatDisk fenv device pt table diskGuid = some result) (hok : result.err = .success)
    (hreads : Device.ReadsSucceed (Device.getSectorSize device) result.device) (hbuffer : env.buffer.isSome)
    (hentryBuffer : env.entryBuffer.isSome) :
    ∃ device', ∀ fuel, 129 < fuel →
      scanPartitions (b := b) env fuel result.device = some (some (true, device', [])) := by
  obtain ⟨f, guid, crc, hholds, hlisted⟩ := hdevice.listed_nothing hready hnot hblank hformat hok
  have hchoose : chooseSectorSize b result.device = some (Device.getSectorSize device) := by
    rw [← hholds.sectorSize_eq]
    exact SupportedSectorSize.choose (hholds.sectorSize_eq ▸ hdevice.supported)
  obtain ⟨device', hscan⟩ := hlisted.scanned hdevice.roomy ⟨hholds, hreads⟩ rfl rfl hchoose hbuffer hentryBuffer
    (Nat.zero_le _) (List.forall_mem_nil _)
  rw [List.map_nil, List.map_nil] at hscan
  exact ⟨device', hscan⟩

end Lost

/-- What formatDisk writes on devices of this size is found by scanPartitions, whatever they held before: the
partitions of the table, in table order, if there is no volume where the scanner looks for one. -/
def RoundTrips (fenv : FormatEnv) (env : ScanEnv) (l : Layout b) (table : List (PartInfo b)) : Prop :=
  ∀ (σ : Type) [LawfulDevice σ] (device : σ) (pt : List (PartInfo b)) (diskGuid : Uuid) (result : Formatted b σ),
    Device.getSectorSize device = l.sectorSize → Device.getSectorCount device = l.driveSectors →
    LawfulDevice.Ready device → formatDisk fenv device pt table diskGuid = some result → result.err = .success →
    Device.ReadsSucceed l.sectorSize result.device →
    (∀ part ∈ result.partitions, env.types.valid (smingMatch env.types part.typeGuid) = false →
      identify b env.types (fun i => LawfulDevice.content result.device (part.offset + i)) part.offset = none) →
    result.partitions.map PartInfo.label = table.map PartInfo.label ∧
      ∃ scanned device', (∀ fuel, 129 < fuel →
          scanPartitions env fuel result.device = some (some (true, device', scanned))) ∧
        List.Forall₂ (SamePartition env.types) result.partitions scanned

/-- A table is found again on all devices of a size, whatever they held before, exactly when the entries fill
whole sectors. -/
theorem gpt_round_trips_iff (fenv : FormatEnv) (env : ScanEnv) (l : Layout b) (table parts : List (PartInfo b))
    (hsupported : SupportedSectorSize b l.sectorSize) (hl : l.Roomy) (hne : table ≠ []) (hcount : table.length ≤ 128)
    (htable : ∀ part ∈ table, part.typeGuid.isNull = false ∧ part.name ≠ [] ∧ 0 ∉ part.name ∧ part.name.length ≤ 36)
    (hvalidate : validate l.available table = some (.returned .success parts))
    (haligned : ∀ part ∈ parts, l.sectorSize ∣ part.offset ∧ l.sectorSize ∣ part.size)
    (hinside : ∀ part ∈ parts, env.types.valid (smingMatch env.types part.typeGuid) = false →
      part.offset + l.sectorSize ≤ l.driveSectors * l.sectorSize)
    (hwork : fenv.buffer.isSome) (hbuffer : env.buffer.isSome) (hentryBuffer : env.entryBuffer.isSome) :
    RoundTrips fenv env l table ↔ l.sectorSize ∣ GPT_ITEMS * GPT_ENTRY_SIZE := by
  constructor
  · intro h
    by_contra hnot
    -- on a blank disk in memory
    let d : RamDisk := ⟨fun _ => 0, l.sectorSize, l.driveSectors⟩
    have hdevice : Formattable b d := ⟨hsupported, hl.bytes_lt, hl.room⟩
    obtain ⟨buffer, hwork⟩ := Option.isSome_iff_exists.mp hwork
    have hcount_eq : b.storage d.sectorCount = l.driveSectors := hdevice.count_eq
    obtain ⟨d', hformat⟩ : ∃ d', formatDisk fenv d [] table Uuid.null = some ⟨.success, d', parts, []⟩ :=
      formatDisk_ramDisk Uuid.null hne hwork hdevice.supported.choose (by rw [hcount_eq]; exact hvalidate)
    have hreads : Device.ReadsSucceed l.sectorSize d' := RamDisk.readsSucceed _ d'
    obtain ⟨_, hscan⟩ := hdevice.scanned_nothing trivial hnot (fun _ _ => rfl) hformat rfl hreads hbuffer hentryBuffer
    obtain ⟨_, _, hwrite⟩ := hdevice.written hformat rfl
    obtain ⟨_, _, u, v, w, guid, _, _, _, _, hholds, _⟩ :=
      writeTables_written hdevice.roomy rfl (Holds.start trivial) hwrite
    have hprobe : ∀ part ∈ parts, env.types.valid (smingMatch env.types part.typeGuid) = false →
        identify b env.types (fun i => LawfulDevice.content d' (part.offset + i)) part.offset = none := by
      intro part hpart hinvalid
      obtain ⟨s, hs⟩ := (haligned part hpart).1
      have hlt : s < l.driveSectors := by
        have hin := hinside part hpart hinvalid
        rw [hs, Nat.mul_comm, ← Nat.succ_mul] at hin
        exact Nat.le_of_mul_le_mul_right hin hl.size_pos
      have hcontent : LawfulDevice.content d' = _ := hholds.content_eq
      rw [hcontent, hs, Nat.mul_comm]
      exact not_identified hl (hl.table_zero hnot) env.types hlt _
    obtain ⟨-, scanned, device', hscan', hsame⟩ := h RamDisk d [] Uuid.null _ rfl rfl trivial hformat rfl hreads hprobe
    have hboth := (hscan 130 (by decide)).symm.trans (hscan' 130 (by decide))
    cases hboth
    -- nothing is found, but there are entries
    have hempty : parts = [] := List.forall₂_nil_right_iff.mp hsame
    have hlen := Available.validate_length hvalidate
    rw [hempty] at hlen
    exact hne (List.eq_nil_of_length_eq_zero hlen.symm)
  · intro hdvd σ _ device pt diskGuid result hsize hsectors hready hformat hok hreads hprobe
    obtain ⟨sectorSize, driveSectors⟩ := l
    obtain rfl : Device.getSectorSize device = sectorSize := hsize
    obtain rfl : Device.getSectorCount device = driveSectors := hsectors
    have hdevice : Suitable b device := ⟨⟨hsupported, hl.bytes_lt, hl.room⟩, hdvd⟩
    obtain ⟨_, hplaced, _⟩ := hdevice.written hformat hok
    have hparts : result.partitions = parts := by
      have heq := hplaced.symm.trans hvalidate
      cases heq
      rfl
    refine gpt_format_scan_round_trip fenv env device pt table diskGuid result hready hdevice hcount htable hformat hok
      ?_ hreads (fun part hpart hinvalid => ⟨?_, hprobe part hpart hinvalid⟩) hbuffer hentryBuffer
    · rw [hparts]
      exact haligned
    · rw [hparts] at hpart
      exact hinside part hpart hinvalid

private def extents {b : Build} : Verdict b → Error × List (Nat × Nat)
  | .returned err table => (err, table.map fun p => (p.offset, p.size))
  | .aborted => (.noMem, [])

/-- Two partitions are found on every disk of 4 MiB. -/
theorem gpt_round_trips_four_mib : RoundTrips ⟨some fun _ => 0, Uuid.null, []⟩
    ⟨⟨0xff, 1, 2, 0xff⟩, fun _ => [], some fun _ => 0, some fun _ => 0⟩ ⟨512, 8192⟩ twoPartitions := by
  have hmap : (validate (⟨512, 8192⟩ : Layout ⟨true, true, true, 512⟩).available twoPartitions).map extents =
      some (.success, [(0x100000, 0x200000), (0x300000, 0xfbe00)]) := by
    decide +kernel
  obtain ⟨v, hv, heq⟩ := Option.map_eq_some_iff.mp hmap
  cases v with
  | aborted => cases heq
  | returned err parts =>
    obtain rfl : err = .success := congrArg Prod.fst heq
    have hextents : parts.map (fun p => (p.offset, p.size)) = [(0x100000, 0x200000), (0x300000, 0xfbe00)] :=
      congrArg Prod.snd heq
    refine (gpt_round_trips_iff (b := ⟨true, true, true, 512⟩) _ _ ⟨512, 8192⟩ twoPartitions parts
      ⟨⟨by decide, by decide, by decide⟩, by decide⟩ ⟨⟨by decide, by decide, by decide⟩, by decide +kernel, by decide⟩
      (List.cons_ne_nil _ _) (by decide) (by decide) hv ?_ ?_ rfl rfl rfl).mpr (by decide)
    · intro part hpart
      have hmem := List.mem_map_of_mem (f := fun p : PartInfo _ => (p.offset, p.size)) hpart
      rw [hextents] at hmem
      have hall : ∀ e ∈ [(0x100000, 0x200000), (0x300000, 0xfbe00)], 512 ∣ e.1 ∧ 512 ∣ e.2 := by decide
      exact hall _ hmem
    · intro part hpart hinvalid
      have hvalid := Available.validate_label_forall
        (P := fun label => PartitionTypes.valid ⟨0xff, 1, 2, 0xff⟩ (smingMatch ⟨0xff, 1, 2, 0xff⟩ label.2.2.1) = true) hv
        (by decide) part hpart
      exact absurd (hinvalid.symm.trans hvalid) Bool.false_ne_true

/-- One data partition. -/
def onePartition : List (PartInfo ⟨true, true, true, 32768⟩) :=
  [{ PartInfo.new [0x61] ⟨1, 0⟩ 0 40 with typeGuid := smingTypeGuid ⟨1, 0⟩ }]

/-- It is lost on a blank disk of 1000 sectors of 32768 bytes, as large as a `uint16_t` allows. -/
theorem partition_lost_of_large_sectors : ∃ result,
    formatDisk ⟨some fun _ => 0, Uuid.null, []⟩ (⟨fun _ => 0, 32768, 1000⟩ : RamDisk) [] onePartition Uuid.null =
        some result ∧
      result.err = .success ∧ result.partitions.length = 1 ∧ ∃ device', ∀ fuel, 129 < fuel →
        scanPartitions (b := ⟨true, true, true, 32768⟩)
          ⟨⟨0xff, 1, 2, 0xff⟩, fun _ => [], some fun _ => 0, some fun _ => 0⟩ fuel result.device =
            some (some (true, device', [])) := by
  obtain ⟨result, hformat, hok⟩ := formatDisk_of_verdict ⟨some fun _ => 0, Uuid.null, []⟩ ⟨fun _ => 0, 32768, 1000⟩
    onePartition (List.cons_ne_nil _ _) rfl rfl (by decide +kernel)
  have hdevice : Formattable ⟨true, true, true, 32768⟩ (⟨fun _ => 0, 32768, 1000⟩ : RamDisk) :=
    ⟨⟨⟨by decide, by decide, by decide⟩, by decide⟩, by decide, by decide +kernel⟩
  obtain ⟨_, hvalidate, _⟩ := hdevice.written hformat hok
  have hnot : ¬ 32768 ∣ GPT_ITEMS * GPT_ENTRY_SIZE := by decide
  exact ⟨result, hformat, hok, Available.validate_length hvalidate,
    hdevice.scanned_nothing trivial hnot (fun _ _ => rfl) hformat hok (RamDisk.readsSucceed _ _) rfl rfl⟩

end GPT

end DiskStorage
