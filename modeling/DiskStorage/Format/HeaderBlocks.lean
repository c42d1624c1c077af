import DiskStorage.Format.Devices
import DiskStorage.Validate.Granularity
import Mathlib.Data.List.TakeWhile

/-! What stands behind the header structures in the blocks of the two headers. -/
namespace DiskStorage
open ByteStore LittleEndian

namespace GPT
variable {b : Build}

/-- The rest of a logical block is zero, from so many bytes on. -/
def RestZero (f : Nat → UInt8) (sectorSize lba headerBytes : Nat) : Prop :=
  ∀ x < sectorSize, headerBytes ≤ x → f (lba * sectorSize + x) = 0

/-- `sizeof(gpt_header_t)` -/
def headerBytes (env : FormatEnv) : Nat := GPT_HEADER_SIZE + env.headerPadding.length

/-- The characters of a name that formatDisk looks at: those in front of a zero. -/
def nameLength (part : PartInfo b) : Nat := (part.name.takeWhile fun c => c != 0).length

/-- No partition has its entry in the last sector of the array, but perhaps for the first entry
there, and this one has a name that ends inside the header structure. Where a sector has room for more
than the array, all entries are in it. -/
def SparesHeaders (table : List (PartInfo b)) (sectorSize headerBytes : Nat) : Prop :=
  ∀ index part, table[index]? = some part → GPT_ITEMS - sectorSize / GPT_ENTRY_SIZE ≤ index →
    index = GPT_ITEMS - sectorSize / GPT_ENTRY_SIZE ∧ 56 + 2 * nameLength part ≤ headerBytes

theorem partitionName_eq_zero_iff {name : List UInt8} {j : Fin 36} :
    partitionName b name j = 0 ↔ (name.takeWhile fun c => c != 0).length ≤ j.val := by
  rw [partitionName, ← List.getElem?_eq_none_iff]
  cases hchar : (name.takeWhile fun c => c != 0)[j.val]? with
  | none => simp
  | some c =>
    have hc := List.mem_takeWhile_imp (List.mem_of_getElem? hchar)
    simp [widen_ne_zero (bne_iff_ne.mp hc)]

section Array
variable {l : Layout b} {parts : List (PartInfo b)} {index : Nat} {part : PartInfo b}

private theorem last_sector_entry (hl : l.Roomy) (j : Nat) :
    (l.numPartitionTableSectors - 1) * l.sectorSize + j * GPT_ENTRY_SIZE =
      (GPT_ITEMS - l.entriesPerSector + j) * GPT_ENTRY_SIZE := by
  rw [Nat.add_mul, Nat.sub_mul, Nat.sub_mul, hl.entries_mul, Nat.one_mul]
  by_cases haligned : l.sectorSize ∣ GPT_ITEMS * GPT_ENTRY_SIZE
  · have hfits : l.Fits := ⟨hl, haligned⟩
    rw [hfits.table_mul]
  · have hzero := hl.table_zero haligned
    have hbig : GPT_ITEMS * GPT_ENTRY_SIZE < l.sectorSize := by
      rw [Layout.numPartitionTableSectors, ← hl.pow] at hzero
      exact (Nat.div_eq_zero_iff_lt hl.size_pos).mp hzero
    rw [hzero, Nat.zero_mul, Nat.zero_sub, Nat.sub_eq_zero_of_le hbig.le]

private theorem decode_arrayBytes (hpart : parts[index]? = some part) :
    GptEntry.decode (arrayBytes l parts) (index * GPT_ENTRY_SIZE) = entryOf l.shift part := by
  apply GptEntry.decode_of_slice
  rw [slice_arrayBytes, entryBytes, hpart, Option.elim_some]

private theorem entry_nonzero (hl : l.Roomy) (hpart : parts[index]? = some part)
    (hoffset : l.sectorSize ≤ part.offset) :
    ∃ y < 40, arrayBytes l parts (index * GPT_ENTRY_SIZE + y) ≠ 0 := by
  by_contra hzero
  push Not at hzero
  have hread : read64 (arrayBytes l parts) (index * GPT_ENTRY_SIZE + 32) = 0 := by
    apply read64_eq_zero_iff.mpr
    intro i hi
    rw [Nat.add_assoc]
    exact hzero (32 + i) (by omega)
  have hlba : (entryOf l.shift part).startingLba = 0 := by
    rw [← decode_arrayBytes hpart]
    exact hread
  have hstart : (UInt64.ofNat (part.offset / 2 ^ l.shift)).toNat = part.offset / 2 ^ l.shift :=
    UInt64.toNat_ofNat_of_lt' (Nat.lt_of_le_of_lt (Nat.div_le_self _ _) (Build.lt_u64 part.offset_lt))
  have hpos : 0 < part.offset / 2 ^ l.shift := by
    rw [← hl.pow]
    exact Nat.div_pos hoffset hl.size_pos
  have heq := congrArg UInt64.toNat hlba
  rw [entryOf, hstart, UInt64.toNat_zero] at heq
  omega

private theorem name_zero_iff (hpart : parts[index]? = some part) (j : Fin 36) :
    (∀ i < 2, arrayBytes l parts (index * GPT_ENTRY_SIZE + (56 + j.val * 2) + i) = 0) ↔ nameLength part ≤ j.val := by
  have hname := congrFun (congrArg GptEntry.partitionName (decode_arrayBytes (l := l) hpart)) j
  rw [← read16_eq_zero_iff, nameLength, ← partitionName_eq_zero_iff (b := b)]
  exact iff_of_eq (congrArg (· = 0) hname)

theorem last_sector_zero_iff (hl : l.Roomy) (hoffsets : ∀ part ∈ parts, l.sectorSize ≤ part.offset)
    (hcount : parts.length ≤ GPT_ITEMS) {headerBytes : Nat} (hheader : headerBytes = 92 ∨ headerBytes = 96) :
    (∀ x < l.sectorSize, headerBytes ≤ x →
      arrayBytes l parts ((l.numPartitionTableSectors - 1) * l.sectorSize + x) = 0) ↔
      SparesHeaders parts l.sectorSize headerBytes := by
  have heps : l.sectorSize / GPT_ENTRY_SIZE = l.entriesPerSector := rfl
  have hsize := hl.entries_mul
  have hentry : ∀ j, j * GPT_ENTRY_SIZE = j * 128 := fun _ => rfl
  rw [SparesHeaders, heps]
  constructor
  · intro hzero index part hpart hlast
    have hindex : index < GPT_ITEMS := Nat.lt_of_lt_of_le (List.getElem?_eq_some_iff.mp hpart).1 hcount
    obtain ⟨j, rfl⟩ := Nat.exists_eq_add_of_le hlast
    have hsector : ∀ y < 128, headerBytes ≤ j * GPT_ENTRY_SIZE + y →
        arrayBytes l parts ((GPT_ITEMS - l.entriesPerSector + j) * GPT_ENTRY_SIZE + y) = 0 := by
      intro y hy hx
      have hfit : (j + 1) * GPT_ENTRY_SIZE ≤ l.entriesPerSector * GPT_ENTRY_SIZE := Nat.mul_le_mul_right _ (by omega)
      rw [hsize, hentry] at hfit
      have hj := hentry j
      rw [← last_sector_entry hl, Nat.add_assoc]
      exact hzero _ (by omega) hx
    have hfirst : j = 0 := by
      by_contra hj
      obtain ⟨y, hy, hne⟩ := entry_nonzero hl hpart (hoffsets part (List.mem_of_getElem? hpart))
      exact hne (hsector y (by omega) (by rw [hentry]; omega))
    subst hfirst
    refine ⟨rfl, ?_⟩
    have hname := (name_zero_iff (l := l) hpart ⟨(headerBytes - 56) / 2, by omega⟩).mp fun i hi => by
      dsimp only
      rw [Nat.add_assoc]
      exact hsector _ (by omega) (by omega)
    dsimp only at hname
    omega
  · intro hspares x hx hheader'
    have hsplit := Nat.div_add_mod' x GPT_ENTRY_SIZE
    have hmod : x % GPT_ENTRY_SIZE < 128 := Nat.mod_lt x (by decide)
    have hentry := hentry (x / GPT_ENTRY_SIZE)
    rw [← hsplit, ← Nat.add_assoc, last_sector_entry hl]
    cases hpart : parts[GPT_ITEMS - l.entriesPerSector + x / GPT_ENTRY_SIZE]? with
    | none =>
      rw [arrayBytes_entry l parts _ hmod, entryBytes, hpart, Option.elim_none]
      rw [← List.getElem_eq_getD (h := by rwa [List.length_replicate]) 0, List.getElem_replicate]
    | some part =>
      obtain ⟨hfirst, hname⟩ := hspares _ part hpart (by omega)
      have hx' : x % GPT_ENTRY_SIZE = x := by omega
      have hbytes := (name_zero_iff (l := l) hpart ⟨(x % GPT_ENTRY_SIZE - 56) / 2, by omega⟩).mpr (by dsimp only; omega)
        (x % GPT_ENTRY_SIZE % 2) (Nat.mod_lt _ (by decide))
      dsimp only at hbytes
      rw [Nat.add_assoc] at hbytes
      rwa [show 56 + (x % GPT_ENTRY_SIZE - 56) / 2 * 2 + x % GPT_ENTRY_SIZE % 2 = x % GPT_ENTRY_SIZE by omega] at hbytes

end Array

section Written
variable {l : Layout b} {parts : List (PartInfo b)} {diskGuid : Uuid} {f u v w buffer : Nat → UInt8} {env : FormatEnv}

private theorem sector_rest {g h : Nat → UInt8} {lba x : Nat} {header : GptHeader}
    (hsector : slice g (lba * l.sectorSize) l.sectorSize = slice (patch h 0 header.encode) 0 l.sectorSize)
    (hrest : ∀ x, headerBytes env ≤ x → h x = buffer x) (hx : x < l.sectorSize) (hheader : headerBytes env ≤ x) :
    g (lba * l.sectorSize + x) = buffer x := by
  have hbyte := slice_inside hsector (o := x) (m := 1) hx
  have hcell : g (lba * l.sectorSize + x) = patch h 0 header.encode (0 + x) := List.singleton_inj.mp hbyte
  have hlen : header.encode.length = GPT_HEADER_SIZE := GptHeader.length_encode _
  rw [headerBytes] at hheader
  rw [hcell, Nat.zero_add, patch_above _ _ (by rw [hlen]; omega)]
  exact hrest x hheader

theorem headersWritten_rest (hl : l.Roomy) (hu : u = patch buffer GPT_HEADER_SIZE env.headerPadding)
    (hv : v = patch u 0 (sealed (primaryHeader l diskGuid (arrayCrc l parts))).encode) {x : Nat} (hx : x < l.sectorSize)
    (hheader : headerBytes env ≤ x) :
    headersWritten l parts diskGuid f u v w (1 * l.sectorSize + x) = buffer x ∧
      headersWritten l parts diskGuid f u v w ((l.driveSectors - 1) * l.sectorSize + x) = buffer x := by
  have hpadded : ∀ x, headerBytes env ≤ x → u x = buffer x := by
    intro x hx
    rw [hu]
    exact patch_above _ _ hx
  have hlen : (sealed (primaryHeader l diskGuid (arrayCrc l parts))).encode.length = GPT_HEADER_SIZE :=
    GptHeader.length_encode _
  constructor
  · have hfirst := headersWritten_primary parts diskGuid f u v w hl
    have hsector : slice (headersWritten l parts diskGuid f u v w) (1 * l.sectorSize) l.sectorSize =
        slice (patch u 0 (sealed (primaryHeader l diskGuid (arrayCrc l parts))).encode) 0 l.sectorSize := by
      rwa [Nat.one_mul]
    exact sector_rest hsector hpadded hx hheader
  · refine sector_rest (headersWritten_secondary parts diskGuid f u v w hl) (fun x hx => ?_) hx hheader
    rw [headerBytes] at hx
    rw [hv, patch_above _ _ (by rw [hlen]; omega)]
    exact hpadded x hx

end Written

private theorem SparesHeaders.of_labels {table table' : List (PartInfo b)} {sectorSize headerBytes : Nat}
    (h : SparesHeaders table sectorSize headerBytes)
    (hlabels : table'.map PartInfo.label = table.map PartInfo.label) : SparesHeaders table' sectorSize headerBytes := by
  intro index part hpart hlast
  have hget := congrArg (·[index]?) hlabels
  simp only [List.getElem?_map, hpart, Option.map_some] at hget
  obtain ⟨entry, hentry, hlabel⟩ := Option.map_eq_some_iff.mp hget.symm
  have hname : entry.name = part.name := congrArg Prod.fst hlabel
  rw [nameLength, ← hname]
  exact h index entry hentry hlast

private theorem Layout.Roomy.offset_le {l : Layout b} (hl : l.Roomy) {table parts : List (PartInfo b)} {total : Nat}
    (h : validate (Available.of b l.firstAllocatableSector total l.sectorSize) table =
      some (.returned .success parts)) :
    ∀ part ∈ parts, l.sectorSize ≤ part.offset := by
  have hunit := hl.unit
  have hroom := hl.room
  have hdrive := hl.drive_lt
  have hfirst : b.storage l.firstAllocatableSector = l.firstAllocatableSector := Build.storage_of_lt (by omega)
  have hblock : l.sectorSize % 2 ^ 32 = l.sectorSize := Nat.mod_eq_of_lt (Nat.lt_trans hunit.lt (by decide))
  have hstart : (Available.of b l.firstAllocatableSector total l.sectorSize).rangeStart = PARTITION_ALIGN := by
    have hblocks : (Available.of b l.firstAllocatableSector total l.sectorSize).firstBlock =
      l.firstAllocatableSector := hfirst
    have hbytes : (Available.of b l.firstAllocatableSector total l.sectorSize).blockSize = l.sectorSize := hblock
    rw [Available.rangeStart, hblocks, hbytes, Layout.firstAllocatable_mul hunit]
  have hmin : (Available.of b l.firstAllocatableSector total l.sectorSize).minOffset = PARTITION_ALIGN := by
    rw [Available.minOffset, ← Available.rangeStart, hstart]
    exact Build.storage_of_lt_word (by decide)
  intro part hpart
  have hle : PARTITION_ALIGN ≤ part.offset := by
    rcases Available.validate_offset (by rw [hstart]) h part hpart with hle | hle
    · exact hle
    · rwa [hmin] at hle
  exact (Nat.le_of_dvd (by decide) hunit.dvd).trans hle

section Device
variable {σ : Type} [LawfulDevice σ] {env : FormatEnv} {device : σ} {pt table : List (PartInfo b)} {diskGuid : Uuid}
  {result : Formatted b σ}

private theorem header_block_zero_iff (hready : LawfulDevice.Ready device) (hdevice : Formattable b device)
    (hpadding : headerBytes env = 92 ∨ headerBytes env = 96) (hcount : table.length ≤ 128)
    (hformat : formatDisk env device pt table diskGuid = some result) (hok : result.err = .success) {lba : Nat}
    (hlba : lba = 1 ∨ lba = Device.getSectorCount device - 1) :
    RestZero (LawfulDevice.medium result.device) (Device.getSectorSize device) lba (headerBytes env) ↔
      SparesHeaders table (Device.getSectorSize device) (headerBytes env) := by
  obtain ⟨_, hvalidate, hwrite⟩ := hdevice.written hformat hok
  have hl := hdevice.roomy
  obtain ⟨st, d₁, u, v, w, guid, hloop, _, hu, hv, _, hmedium⟩ := writeTables_written hl rfl (Holds.start hready) hwrite
  have hlabels := Available.validate_labels hvalidate
  have hlen : result.partitions.length ≤ GPT_ITEMS := (Available.validate_length hvalidate).trans_le hcount
  have hspares : SparesHeaders result.partitions (Device.getSectorSize device) (headerBytes env) ↔
      SparesHeaders table (Device.getSectorSize device) (headerBytes env) :=
    ⟨fun h => h.of_labels hlabels.symm, fun h => h.of_labels hlabels⟩
  rw [hmedium, ← hspares, ← last_sector_zero_iff hl (hl.offset_le hvalidate) hlen hpadding]
  apply forall_congr'
  intro x
  apply imp_congr_right
  intro hx
  apply imp_congr_right
  intro hheader
  have hrest := headersWritten_rest (f := LawfulDevice.content device) (w := w) hl hu hv hx hheader
  rw [← entryLoop_last_sector hl hlen hloop hx]
  rcases hlba with rfl | rfl
  · rw [← hrest.1]
  · rw [← hrest.2]

end Device

/-- formatDisk leaves the rest of both header blocks zero exactly when the last sector of the entry array
has nothing behind the header structure: no partition but the first one of that sector, with a short name. -/
theorem header_blocks_zero_iff {σ : Type} [LawfulDevice σ] (env : FormatEnv) (device : σ) (pt table : List (PartInfo b))
    (diskGuid : Uuid) (result : Formatted b σ) (hready : LawfulDevice.Ready device) (hdevice : Formattable b device)
    (hpadding : headerBytes env = 92 ∨ headerBytes env = 96) (hcount : table.length ≤ 128)
    (hformat : formatDisk env device pt table diskGuid = some result) (hok : result.err = .success) :
    (RestZero (LawfulDevice.medium result.device) (Device.getSectorSize device) 1 (headerBytes env) ∧
        RestZero (LawfulDevice.medium result.device) (Device.getSectorSize device) (Device.getSectorCount device - 1)
          (headerBytes env)) ↔
      SparesHeaders table (Device.getSectorSize device) (headerBytes env) := by
  have hprimary := header_block_zero_iff hready hdevice hpadding hcount hformat hok (Or.inl rfl)
  have hsecondary := header_block_zero_iff hready hdevice hpadding hcount hformat hok (Or.inr rfl)
  constructor
  · exact fun h => hprimary.mp h.1
  · exact fun h => ⟨hprimary.mpr h, hsecondary.mpr h⟩

section RamDisk

/-- A partition for all of a 4 MiB disk. -/
theorem header_blocks_zero_four_mib : ∃ result,
    formatDisk (b := ⟨true, true, true, 512⟩) ⟨some fun _ => 0, Uuid.null, []⟩ (⟨fun _ => 0xff, 512, 8192⟩ : RamDisk) []
        [PartInfo.new [0x61] ⟨1, 0⟩ 0 100] Uuid.null = some result ∧
      RestZero (LawfulDevice.medium result.device) 512 1 92 ∧
      RestZero (LawfulDevice.medium result.device) 512 8191 92 := by
  obtain ⟨result, hformat, hok⟩ := formatDisk_of_verdict (b := ⟨true, true, true, 512⟩) ⟨some fun _ => 0, Uuid.null, []⟩
    ⟨fun _ => 0xff, 512, 8192⟩ [PartInfo.new [0x61] ⟨1, 0⟩ 0 100] (List.cons_ne_nil _ _) rfl rfl (by decide +kernel)
  refine ⟨result, hformat, (header_blocks_zero_iff _ _ _ _ _ _ trivial
    ⟨⟨⟨by decide, by decide, by decide⟩, by decide⟩, by decide, by decide +kernel⟩ (Or.inl rfl)
      (by decide) hformat hok).mpr ?_⟩
  intro index part hpart hlast
  have hindex : index < 1 := (List.getElem?_eq_some_iff.mp hpart).1
  exact absurd hlast (Nat.not_le.mpr (Nat.lt_of_lt_of_le hindex (by decide)))

/-- As many partitions as there are entries, of 1 MiB each, one behind the other. -/
def adjacentPartitions : List (PartInfo ⟨true, true, true, 512⟩) :=
  (List.range 128).map fun i => PartInfo.new [0x61] ⟨1, 0⟩ ((i + 1) * 0x100000) 0x100000

/-- With these, on a disk of 128 GiB, the header blocks have parts of entries in them. -/
theorem header_blocks_hold_entries : ¬ ∀ result,
    formatDisk ⟨some fun _ => 0, Uuid.null, []⟩ (⟨fun _ => 0, 512, 0x10000000⟩ : RamDisk)
    [] adjacentPartitions Uuid.null =
        some result → result.err = .success →
      RestZero (LawfulDevice.medium result.device) 512 1 92 ∧
        RestZero (LawfulDevice.medium result.device) 512 (0x10000000 - 1) 92 := by
  intro hclaim
  obtain ⟨result, hformat, hok⟩ := formatDisk_of_verdict ⟨some fun _ => 0, Uuid.null, []⟩ ⟨fun _ => 0, 512, 0x10000000⟩
    adjacentPartitions (by decide) rfl rfl (by decide +kernel)
  have hcount : adjacentPartitions.length ≤ 128 := by
    rw [adjacentPartitions, List.length_map, List.length_range]
  have hspares := (header_block_zero_iff trivial
    ⟨⟨⟨by decide, by decide, by decide⟩, by decide⟩, by decide, by decide +kernel⟩
    (Or.inl rfl) hcount hformat hok (Or.inl rfl)).mp (hclaim result hformat hok).1
  have hpart : adjacentPartitions[127]? = some (PartInfo.new [0x61] ⟨1, 0⟩ (128 * 0x100000) 0x100000) := rfl
  exact absurd (hspares 127 _ hpart (by decide)).1 (by decide)

end RamDisk

end GPT

end DiskStorage
