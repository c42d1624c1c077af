import DiskStorage.Format.Consistency
import DiskStorage.Validate.Labels

/-! Tables as their add methods build them, and how many of their entries reach the medium. -/
namespace DiskStorage
open ByteStore LittleEndian

namespace GPT
variable {b : Build}

/-- `PARTITION_BASIC_DATA_GUID` -/
def PARTITION_BASIC_DATA_GUID : Uuid := fun i =>
  [0xa2, 0xa0, 0xd0, 0xeb, 0xe5, 0xb9, 0x33, 0x44, 0x87, 0xc0, 0x68, 0xb6, 0xb7, 0x26, 0x99, 0xc7].getD i.val 0

/-- Add a new standard GPT partition definition. `dataAny` is `Partition::SubType::Data::any`. -/
def addStandard (types : PartitionTypes) (dataAny : FullType) (generated : Uuid) (table : List (PartInfo b))
    (name : List UInt8) (sysType : SysType) (offset size : Nat) (uniqueGuid typeGuid : Uuid) : List (PartInfo b) :=
  table ++ [{ PartInfo.new name (if sysType.isFat then types.dataFat else dataAny) offset size with
    systype := sysType
    typeGuid := if typeGuid.isNull then PARTITION_BASIC_DATA_GUID else typeGuid
    uniqueGuid := if uniqueGuid.isNull then generated else uniqueGuid }]

/-- Add a new GPT partition for a regular Sming filing system. -/
def addRegular (types : PartitionTypes) (generated : Uuid) (table : List (PartInfo b)) (name : List UInt8)
    (type : FullType) (offset size : Nat) (uniqueGuid : Uuid) : List (PartInfo b) :=
  table ++ [{ PartInfo.new name type offset size with
    typeGuid := if type = types.dataFat then PARTITION_BASIC_DATA_GUID else smingTypeGuid type
    uniqueGuid := if uniqueGuid.isNull then generated else uniqueGuid }]

/-- The tables that calls of add build. -/
inductive Built (types : PartitionTypes) (dataAny : FullType) : List (PartInfo b) → Prop
  | empty : Built types dataAny []
  | standard {table : List (PartInfo b)} (generated : Uuid) (name : List UInt8) (sysType : SysType) (offset size : Nat)
    (uniqueGuid typeGuid : Uuid) : Built types dataAny table →
      Built types dataAny (addStandard types dataAny generated table name sysType offset size uniqueGuid typeGuid)
  | regular {table : List (PartInfo b)} (generated : Uuid) (name : List UInt8) (type : FullType) (offset size : Nat)
    (uniqueGuid : Uuid) : Built types dataAny table →
      Built types dataAny (addRegular types generated table name type offset size uniqueGuid)

theorem smingTypeGuid_isNull (type : FullType) : (smingTypeGuid type).isNull = false :=
  decide_eq_false fun h => absurd (h 0) (show ¬ smingBaseGuid 0 = 0 by decide)

/-- No entry is added without a type GUID. -/
theorem Built.typeGuid {types : PartitionTypes} {dataAny : FullType} {table : List (PartInfo b)}
    (h : Built types dataAny table) : ∀ part ∈ table, part.typeGuid.isNull = false := by
  have hbasic : PARTITION_BASIC_DATA_GUID.isNull = false := by decide
  induction h with
  | empty => exact List.forall_mem_nil _
  | standard generated name sysType offset size uniqueGuid typeGuid _ ih =>
    refine List.forall_mem_append.mpr ⟨ih, List.forall_mem_singleton.mpr ?_⟩
    dsimp only
    split
    · exact hbasic
    · rename_i hset
      exact Bool.eq_false_iff.mpr hset
  | regular generated name type offset size uniqueGuid _ ih =>
    refine List.forall_mem_append.mpr ⟨ih, List.forall_mem_singleton.mpr ?_⟩
    dsimp only
    split
    · exact hbasic
    · exact smingTypeGuid_isNull type

/-- The number of entries in use in the array on the medium. -/
def usedEntries (f : Nat → UInt8) (sectorSize : Nat) : Nat :=
  (List.range GPT_ITEMS).countP fun i =>
    !(GptEntry.decode f (2 * sectorSize + i * GPT_ENTRY_SIZE)).partitionTypeGuid.isNull

section Count
variable {l : Layout b} {parts : List (PartInfo b)} {diskGuid : Uuid} {f : Nat → UInt8}

private theorem Partitioned.entry_used (h : Partitioned l diskGuid parts f)
    (hguid : ∀ part ∈ parts, part.typeGuid.isNull = false) {i : Nat} (hi : i < GPT_ITEMS) :
    (!(GptEntry.decode f (2 * l.sectorSize + i * GPT_ENTRY_SIZE)).partitionTypeGuid.isNull) =
      decide (i < parts.length) := by
  rcases Nat.lt_or_ge i parts.length with hlt | hge
  · rw [h.decode_entry hi (List.getElem?_eq_getElem hlt), decide_eq_true hlt, Bool.not_eq_true']
    exact hguid _ (List.getElem_mem hlt)
  · have hbytes := h.entry_bytes hi
    rw [entryBytes, List.getElem?_eq_none hge, Option.elim_none] at hbytes
    rw [GptEntry.decode_unused hbytes, decide_eq_false (Nat.not_lt.mpr hge), Bool.not_true]

theorem Partitioned.usedEntries_eq (h : Partitioned l diskGuid parts f)
    (hguid : ∀ part ∈ parts, part.typeGuid.isNull = false) :
    usedEntries f l.sectorSize = min GPT_ITEMS parts.length := by
  have hcount : ∀ n ≤ GPT_ITEMS, (List.range n).countP (fun i =>
      !(GptEntry.decode f (2 * l.sectorSize + i * GPT_ENTRY_SIZE)).partitionTypeGuid.isNull) = min n parts.length := by
    intro n hn
    induction n with
    | zero => exact (Nat.zero_min _).symm
    | succ n ih =>
      rw [List.range_succ, List.countP_append, List.countP_singleton, ih (Nat.le_of_succ_le hn), h.entry_used hguid hn]
      by_cases hlt : n < parts.length
      · rw [if_pos (decide_eq_true hlt)]
        omega
      · rw [if_neg (by simpa using hlt)]
        omega
  exact hcount GPT_ITEMS le_rfl

end Count

/-- validate accepts the table, for the sectors that formatDisk has to give. -/
def Accepts {σ : Type} [Device σ] (device : σ) (table : List (PartInfo b)) : Prop :=
  ∃ table', validate (Available.of b
    (⟨Device.getSectorSize device, b.storage (Device.getSectorCount device)⟩ : Layout b).firstAllocatableSector
    (⟨Device.getSectorSize device, b.storage (Device.getSectorCount device)⟩ : Layout b).allocatableSectors
    (Device.getSectorSize device)) table = some (.returned .success table')

/-- formatDisk returns an error before it writes anything. -/
def Refused {σ : Type} (device : σ) (result : Formatted b σ) : Prop :=
  result.err ≠ .success ∧ result.err ≠ .writeFailure ∧ result.device = device

section
variable {σ : Type} {device : σ} {env : FormatEnv} {pt table : List (PartInfo b)} {diskGuid : Uuid}
  {result : Formatted b σ}

theorem refused_badParam : Refused device (⟨.badParam, device, pt, table⟩ : Formatted b σ) := ⟨nofun, nofun, rfl⟩

theorem refused_noMem : Refused device (⟨.noMem, device, pt, table⟩ : Formatted b σ) := ⟨nofun, nofun, rfl⟩

private theorem refused_iff [Device σ] (hsize : chooseSectorSize b device = some (Device.getSectorSize device))
    (h : formatDisk env device pt table diskGuid = some result) :
    Refused device result ↔ table = [] ∨ env.buffer = none ∨ ¬ Accepts device table := by
  rw [formatDisk] at h
  by_cases hempty : table = []
  · rw [if_pos (List.isEmpty_iff.mpr hempty)] at h
    cases h
    exact iff_of_true refused_badParam (Or.inl hempty)
  · rw [if_neg (mt List.isEmpty_iff.mp hempty), hsize] at h
    dsimp only at h
    cases hbuffer : env.buffer with
    | none =>
      rw [hbuffer] at h
      cases h
      exact iff_of_true refused_noMem (Or.inr (Or.inl rfl))
    | some buffer =>
      rw [hbuffer] at h
      dsimp only at h
      split at h
      · cases h
      · cases h
      · rename_i err table' hvalidate
        split at h
        · rename_i hok
          rw [hok] at hvalidate
          have hnot : ¬ (table = [] ∨ some buffer = none ∨ ¬ Accepts device table) := by
            rintro (hnil | hnone | hrefused)
            · exact hempty hnil
            · cases hnone
            · exact hrefused ⟨table', hvalidate⟩
          split at h
          all_goals
            cases h
            refine iff_of_false (fun hrefused => ?_) hnot
          · exact hrefused.2.1 rfl
          · exact hrefused.1 rfl
        · rename_i herr
          cases h
          refine iff_of_true ⟨herr, fun hwrite => ?_, rfl⟩ (Or.inr (Or.inr ?_))
          · obtain rfl : err = .writeFailure := hwrite
            rcases (Available.validate_resolves hvalidate).2.1 with h | h | h | h | h <;> cases h
          · rintro ⟨table'', haccepts⟩
            rw [hvalidate] at haccepts
            cases haccepts
            exact herr rfl

private theorem success_counts [LawfulDevice σ] (hready : LawfulDevice.Ready device) (hdevice : Suitable b device)
    (hguid : ∀ part ∈ table, part.typeGuid.isNull = false)
    (hformat : formatDisk env device pt table diskGuid = some result) (hok : result.err = .success) :
    usedEntries (LawfulDevice.medium result.device) (Device.getSectorSize device) = min GPT_ITEMS table.length ∧
      result.partitions.length = table.length := by
  obtain ⟨hl, hvalidate, _, hparts⟩ := hdevice.formatted hready hformat hok
  have hlen := Available.validate_length hvalidate
  have hguid' := Available.validate_label_forall (P := fun label => label.2.2.1.isNull = false) hvalidate hguid
  exact ⟨by rw [hparts.usedEntries_eq hguid', hlen], hlen⟩

/-- No partition is lost between the table, the entries on the medium and the device's partitions, and
a table that is too long is refused, exactly when it is not too long or something else has it refused. -/
theorem partitions_kept_iff [LawfulDevice σ] (types : PartitionTypes) (dataAny : FullType) (env : FormatEnv)
    (device : σ)
    (pt table : List (PartInfo b)) (diskGuid : Uuid) (result : Formatted b σ) (hready : LawfulDevice.Ready device)
    (hdevice : Suitable b device) (hbuilt : Built types dataAny table)
    (hformat : formatDisk env device pt table diskGuid = some result) :
    ((result.err = .success →
        usedEntries (LawfulDevice.medium result.device) (Device.getSectorSize device) = table.length ∧
          result.partitions.length = table.length) ∧
      (GPT_ITEMS < table.length → Refused device result)) ↔
    table.length ≤ GPT_ITEMS ∨ env.buffer = none ∨ ¬ Accepts device table := by
  have hrefused := refused_iff hdevice.supported.choose hformat
  constructor
  · rintro ⟨_, hlong⟩
    by_cases hle : table.length ≤ GPT_ITEMS
    · exact Or.inl hle
    · rcases hrefused.mp (hlong (Nat.lt_of_not_le hle)) with rfl | h
      · exact absurd (Nat.zero_le _) hle
      · exact Or.inr h
  · intro h
    refine ⟨fun hok => ?_, fun hlong => hrefused.mpr (Or.inr (h.resolve_left (Nat.not_le.mpr hlong)))⟩
    rcases h with hle | h
    · have hcounts := success_counts hready hdevice hbuilt.typeGuid hformat hok
      rwa [Nat.min_eq_right hle] at hcounts
    · exact absurd hok (hrefused.mpr (Or.inr h)).1

end

/-- A table of partitions of 1 MiB, one behind the other. -/
def megabytes : Nat → List (PartInfo ⟨true, true, true, 512⟩)
  | 0 => []
  | n + 1 =>
    addRegular ⟨0xff, 1, 2, 0xff⟩ Uuid.null (megabytes n) [0x61] ⟨1, 0⟩ ((n + 1) * 0x100000) 0x100000 (fun _ => 1)

private theorem built_megabytes (n : Nat) : Built ⟨0xff, 1, 2, 0xff⟩ ⟨1, 0xff⟩ (megabytes n) := by
  induction n with
  | zero => exact .empty
  | succ n ih => exact .regular _ _ _ _ _ _ ih

private theorem megabytes_ne_nil (n : Nat) : megabytes (n + 1) ≠ [] :=
  List.append_ne_nil_of_right_ne_nil _ (List.cons_ne_nil _ _)

private theorem suitable_128_gib : Suitable ⟨true, true, true, 512⟩ (⟨fun _ => 0xff, 512, 0x10000000⟩ : RamDisk) :=
  ⟨⟨⟨⟨by decide, by decide, by decide⟩, by decide⟩, by decide, by decide +kernel⟩, by decide⟩

/-- Three partitions are kept. -/
theorem partitions_kept_iff_three : ∃ result,
    formatDisk ⟨some fun _ => 0, Uuid.null, []⟩ (⟨fun _ => 0xff, 512, 0x10000000⟩ : RamDisk) []
    (megabytes 3) Uuid.null =
        some result ∧
      (result.err = .success → usedEntries (LawfulDevice.medium result.device) 512 = 3 ∧
        result.partitions.length = 3) := by
  obtain ⟨result, hformat, _⟩ := formatDisk_of_verdict ⟨some fun _ => 0, Uuid.null, []⟩ ⟨fun _ => 0xff, 512, 0x10000000⟩
    (megabytes 3) (megabytes_ne_nil 2) rfl rfl (by decide +kernel)
  refine ⟨result, hformat, ((partitions_kept_iff ⟨0xff, 1, 2, 0xff⟩ ⟨1, 0xff⟩ _ _ _ _ _ result trivial suitable_128_gib
    (built_megabytes 3) hformat).mpr (Or.inl (by decide))).1⟩

/-- Of 129 partitions 128 reach the medium. -/
theorem partition_lost_of_129 : ∃ result,
    formatDisk ⟨some fun _ => 0, Uuid.null, []⟩ (⟨fun _ => 0xff, 512, 0x10000000⟩ : RamDisk) []
    (megabytes 129) Uuid.null =
        some result ∧
      result.err = .success ∧ (megabytes 129).length = 129 ∧ result.partitions.length = 129 ∧
      usedEntries (LawfulDevice.medium result.device) 512 = 128 := by
  obtain ⟨result, hformat, hok⟩ :=
    formatDisk_of_verdict ⟨some fun _ => 0, Uuid.null, []⟩ ⟨fun _ => 0xff, 512, 0x10000000⟩
    (megabytes 129) (megabytes_ne_nil 128) rfl rfl (by decide +kernel)
  obtain ⟨hused, hlen⟩ := success_counts trivial suitable_128_gib (built_megabytes 129).typeGuid hformat hok
  have hcount : (megabytes 129).length = 129 := by decide +kernel
  rw [hcount] at hused hlen
  exact ⟨result, hformat, hok, hcount, hlen, hused⟩

end GPT

end DiskStorage
