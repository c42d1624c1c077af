import DiskStorage.Format.Consistency
import DiskStorage.Scanner.Entries
import DiskStorage.Scanner.Results
import DiskStorage.Validate.Labels
import Mathlib.Data.List.TakeWhile

/-! A table in GPT format is found again by the scanner. -/
namespace DiskStorage
open ByteStore LittleEndian

theorem smingMatch_smingTypeGuid (types : PartitionTypes) (fullType : FullType) :
    smingMatch types (smingTypeGuid fullType) = fullType := by
  rw [smingMatch, if_pos]
  · rfl
  · intro i
    dsimp only
    split
    · rename_i hi
      have : ∀ i : Fin 16, i.val = 10 ∨ i.val = 11 → smingBaseGuid i = 0 := by decide
      exact this i hi
    · rename_i hi
      rw [smingTypeGuid, if_neg (not_or.mp hi).1, if_neg (not_or.mp hi).2]

namespace GPT
variable {b : Build}

section Names

theorem unicodeToOem_partitionName {name : List UInt8} (hnul : 0 ∉ name) (hlen : name.length ≤ 36) :
    unicodeToOem ((List.finRange 36).map (partitionName b name)) = name := by
  have hall : name.takeWhile (fun c => c != 0) = name := by
    refine List.takeWhile_eq_self_iff.mpr fun c hc => bne_iff_ne.mpr fun hzero => ?_
    exact hnul (hzero ▸ hc)
  have hchars : (List.finRange 36).map (partitionName b name) =
      name.map (widen b) ++ List.replicate (36 - name.length) 0 := by
    apply List.ext_getElem (by simp [hlen])
    intro i hi _
    rw [List.length_map, List.length_finRange] at hi
    rw [List.getElem_map, List.getElem_finRange, partitionName, hall]
    dsimp only [Fin.cast]
    rcases Nat.lt_or_ge i name.length with hlt | hge
    · rw [List.getElem?_eq_getElem hlt, Option.elim_some, List.getElem_append_left (by rwa [List.length_map]),
        List.getElem_map]
    · rw [List.getElem?_eq_none hge, Option.elim_none, List.getElem_append_right (by rwa [List.length_map]),
        List.getElem_replicate]
  have hwide : ∀ c ∈ name.map (widen b), (c != 0) = true := by
    intro c hc
    obtain ⟨x, hx, rfl⟩ := List.mem_map.mp hc
    exact bne_iff_ne.mpr (widen_ne_zero fun hzero => hnul (hzero ▸ hx))
  rw [unicodeToOem, hchars, List.takeWhile_append_of_pos hwide, List.takeWhile_replicate, if_neg (by decide),
    List.append_nil, List.map_map, Function.comp_def]
  simp only [widen_toUInt8, List.map_id']

end Names

/-- The partition that the scanner makes of an entry. Where the type is not regular it takes the volume in the
first sector, if there is one. -/
def found (types : PartitionTypes) (f : Nat → UInt8) (part : PartInfo b) : PartInfo b :=
  let fulltype := smingMatch types part.typeGuid
  let volume :=
    if types.valid fulltype then PartInfo.new [] fulltype part.offset part.size
    else (identify b types (fun i => f (part.offset + i)) part.offset).getD
      (PartInfo.new [] types.none part.offset part.size)
  { volume with
    typeGuid := part.typeGuid
    uniqueGuid := part.uniqueGuid
    name := part.name }

private theorem sectors_mul {offset size shift : Nat} (hoffset : offset < 2 ^ 64) (hsize : size < 2 ^ 64)
    (hshift : shift ≤ 64) (ho : 2 ^ shift ∣ offset) (hs : 2 ^ shift ∣ size) :
    (1 + (UInt64.ofNat (u64 (offset + size) / 2 ^ shift) - 1) - UInt64.ofNat (offset / 2 ^ shift)).toNat * 2 ^ shift %
      2 ^ 64 = size := by
  have hword : 2 ^ shift ∣ 2 ^ 64 := Nat.pow_dvd_pow 2 hshift
  have hend : 2 ^ shift ∣ u64 (offset + size) := (Nat.dvd_mod_iff hword).mpr (Nat.dvd_add ho hs)
  have hlt : u64 (offset + size) < 2 ^ 64 := Nat.mod_lt _ (Nat.two_pow_pos 64)
  have hdiv₁ : u64 (offset + size) / 2 ^ shift < 2 ^ 64 := Nat.lt_of_le_of_lt (Nat.div_le_self _ _) hlt
  have hdiv₂ : offset / 2 ^ shift < 2 ^ 64 := Nat.lt_of_le_of_lt (Nat.div_le_self _ _) hoffset
  have hsectors : 1 + (UInt64.ofNat (u64 (offset + size) / 2 ^ shift) - 1) - UInt64.ofNat (offset / 2 ^ shift) =
      UInt64.ofNat (u64 (offset + size) / 2 ^ shift) - UInt64.ofNat (offset / 2 ^ shift) := by
    rw [← UInt64.toNat_inj]
    simp only [UInt64.toNat_sub, UInt64.toNat_add, UInt64.toNat_one]
    omega
  rw [hsectors, UInt64.toNat_sub, UInt64.toNat_ofNat_of_lt' hdiv₁, UInt64.toNat_ofNat_of_lt' hdiv₂]
  have hmul₁ := Nat.div_mul_cancel hend
  have hmul₂ := Nat.div_mul_cancel ho
  rw [Nat.mod_mul_mod, Nat.add_mul, Nat.sub_mul, hmul₁, hmul₂]
  have hpos : 0 < 2 ^ shift := Nat.two_pow_pos shift
  generalize 2 ^ shift = k at hpos
  rw [u64]
  omega

theorem gptPart_entryOf {env : ScanEnv} {part : PartInfo b} {shift : Nat} {f entryBuffer : Nat → UInt8}
    (hshift : shift ≤ 64)
    (ho : 2 ^ shift ∣ part.offset) (hs : 2 ^ shift ∣ part.size) (hnul : 0 ∉ part.name) (hlen : part.name.length ≤ 36)
    (hprobe : env.types.valid (smingMatch env.types part.typeGuid) = false →
      ∀ i < 512, entryBuffer i = f (part.offset + i)) :
    gptPart env shift (entryOf shift part) entryBuffer = found env.types f part := by
  have hoffset := Build.lt_u64 part.offset_lt
  have hsize := Build.lt_u64 part.size_lt
  have hstart : (UInt64.ofNat (part.offset / 2 ^ shift)).toNat * 2 ^ shift % 2 ^ 64 = part.offset := by
    rw [UInt64.toNat_ofNat_of_lt' (Nat.lt_of_le_of_lt (Nat.div_le_self _ _) hoffset), Nat.div_mul_cancel ho,
      Nat.mod_eq_of_lt hoffset]
  rw [gptPart, found]
  simp only [entryOf, hstart, sectors_mul hoffset hsize hshift ho hs, unicodeToOem_partitionName hnul hlen,
    Build.storage_of_lt part.offset_lt, Build.storage_of_lt part.size_lt]
  split
  · rfl
  · rename_i hinvalid
    simp only [identify_congr (hprobe (Bool.eq_false_iff.mpr hinvalid)) env.types part.offset]

section Scan
variable {l : Layout b} {parts : List (PartInfo b)} {diskGuid : Uuid} {crc : UInt32} {f : Nat → UInt8} {env : ScanEnv}

theorem Listed.entry (hl : l.Roomy) (h : Listed l diskGuid crc parts f) {index : Nat}
    (hindex : index < GPT_ITEMS) :
    slice (fun i => f ((2 + index / l.entriesPerSector) * l.sectorSize + i))
      (index % l.entriesPerSector * GPT_ENTRY_SIZE) GPT_ENTRY_SIZE = entryBytes l parts index := by
  have hfit : (index + 1) * GPT_ENTRY_SIZE ≤ GPT_ITEMS * GPT_ENTRY_SIZE := Nat.mul_le_mul_right _ hindex
  rw [Nat.succ_mul] at hfit
  rw [← slice_arrayBytes, ← Nat.zero_add (index * GPT_ENTRY_SIZE), ← slice_inside h.entries hfit,
    ← hl.entry_place index]
  apply List.map_congr_left
  intro i _
  dsimp only
  rw [Nat.add_mul, Nat.add_assoc, Nat.add_assoc, Nat.add_assoc]

variable {σ : Type} [LawfulDevice σ] {d₀ d : σ}

/-- What the scanner keeps of an opened table. -/
structure OpenedTable (l : Layout b) (s₀ : Scanner) : Prop where
  state_eq : s₀.state = .gpt
  size_eq : s₀.sectorSize = l.sectorSize
  shift_eq : s₀.sectorSizeShift = l.shift
  sector_eq : s₀.sector = 2
  count_eq : s₀.numPartitionEntries = GPT_ITEMS

theorem openTable_gpt (hl : l.Roomy) (h : Listed l diskGuid crc parts f)
    (hserves : Serves (Device.getSectorSize d₀) d₀ d f)
    (hsize : Device.getSectorSize d₀ = l.sectorSize) (hcount : Device.getSectorCount d₀ = l.driveSectors)
    (hchoose : chooseSectorSize b d = some l.sectorSize) (hbuffer : env.buffer.isSome)
    (hentry : env.entryBuffer.isSome) :
    ∃ s₀ d', openTable (b := b) env Scanner.new d = .again s₀ d' ∧ Serves (Device.getSectorSize d₀) d₀ d' f ∧
      OpenedTable l s₀ ∧ s₀.partitionIndex = 0 := by
  obtain ⟨buffer, hbuffer⟩ := Option.isSome_iff_exists.mp hbuffer
  obtain ⟨entryBuffer, hentry⟩ := Option.isSome_iff_exists.mp hentry
  have hcap : Device.capacity d₀ < b.storageSize := by
    rw [Device.capacity, hsize, hcount]
    exact hl.bytes_lt
  have hroom := hl.room
  have hfirst := hl.first_le
  have hmin : 512 ≤ l.sectorSize := hl.min_le
  have hpow : 2 ^ l.shift = Device.getSectorSize d₀ := by rw [hsize, ← hl.pow]
  obtain ⟨sector₀, d₁, hread₀, hserves₁, hsector₀⟩ := hserves.readSector (b := b)
    { Scanner.new with sectorSize := l.sectorSize, sectorSizeShift := l.shift, buffer := buffer } 0 buffer hpow
      hcap (Nat.mul_le_mul_right _ (by omega))
  obtain ⟨sector₁, d₂, hread₁, hserves₂, hsector₁⟩ := hserves₁.readSector (b := b)
    { Scanner.new with sectorSize := l.sectorSize, sectorSizeShift := l.shift, buffer := sector₀ }
    GPT_PRIMARY_PARTITION_TABLE_LBA sector₀ hpow hcap
    (Nat.mul_le_mul_right _ (by rw [GPT_PRIMARY_PARTITION_TABLE_LBA]; omega))
  have hmbr : ∀ i < 512, sector₀ i = f i := by
    intro i hi
    rw [hsector₀ i (by omega), Nat.zero_mul, Nat.zero_add]
  have hheader : slice sector₁ 0 GPT_HEADER_SIZE = (sealed (primaryHeader l diskGuid crc)).encode := by
    rw [← h.primary]
    apply List.map_congr_left
    intro i hi
    rw [List.mem_range, GPT_HEADER_SIZE] at hi
    rw [Nat.zero_add, hsector₁ i (by omega), GPT_PRIMARY_PARTITION_TABLE_LBA, Nat.one_mul, hsize]
  have hverify : verifyGptHeader sector₁ = true := verifyGptHeader_sealed hheader rfl rfl rfl rfl rfl rfl
  rw [openTable, hchoose]
  dsimp only
  rw [hbuffer]
  dsimp only
  rw [show getSizeBits l.sectorSize = l.shift from rfl, hread₀]
  dsimp only
  rw [(identify_congr hmbr env.types 0).trans (identify_of_no_boot_code (fun i hi => h.boot_code hi) 0),
    mbrSignature_congr hmbr, mbrRecord_congr hmbr (by decide), h.signature, h.record]
  dsimp only
  rw [if_neg (fun hne => hne rfl), if_pos rfl, openGpt, hread₁]
  dsimp only
  rw [hverify, hentry, GptHeader.decode_of_slice hheader]
  exact ⟨_, d₂, rfl, hserves₂, ⟨rfl, rfl, rfl, rfl, rfl⟩, rfl⟩

/-- What the scan asks of a partition: a type, whole sectors, a name that fits, and a first sector on the
device where the scanner looks for a volume. -/
structure Scannable (l : Layout b) (types : PartitionTypes) (part : PartInfo b) : Prop where
  typeGuid : part.typeGuid.isNull = false
  offset_dvd : l.sectorSize ∣ part.offset
  size_dvd : l.sectorSize ∣ part.size
  no_nul : 0 ∉ part.name
  name_length : part.name.length ≤ 36
  inside : types.valid (smingMatch types part.typeGuid) = false →
    part.offset + l.sectorSize ≤ l.driveSectors * l.sectorSize

section Array
variable {s₀ sc : Scanner}
variable (hl : l.Roomy) (hsize : Device.getSectorSize d₀ = l.sectorSize)
  (hcount : Device.getSectorCount d₀ = l.driveSectors)
include hl hsize hcount

private theorem readSector_first {part : PartInfo b} (hserves : Serves (Device.getSectorSize d₀) d₀ d f)
    (hdvd : l.sectorSize ∣ part.offset) (hinside : part.offset + l.sectorSize ≤ l.driveSectors * l.sectorSize)
    (hshift : sc.sectorSizeShift = l.shift) :
    ∃ entryBuffer d', readSector b sc d sc.entryBuffer (entryOf l.shift part).startingLba.toNat =
        (some entryBuffer, d') ∧ Serves (Device.getSectorSize d₀) d₀ d' f ∧
      ∀ i < 512, entryBuffer i = f (part.offset + i) := by
  have hstart : (entryOf l.shift part).startingLba.toNat = part.offset / l.sectorSize := by
    rw [hl.pow]
    exact UInt64.toNat_ofNat_of_lt' (Nat.lt_of_le_of_lt (Nat.div_le_self _ _) (Build.lt_u64 part.offset_lt))
  have hlba : part.offset / l.sectorSize < Device.getSectorCount d₀ := by
    rw [hcount, Nat.div_lt_iff_lt_mul hl.size_pos]
    have := hl.size_pos
    omega
  obtain ⟨entryBuffer, d', hread, hserves', hbuffer⟩ := hserves.readSector (b := b) sc (part.offset / l.sectorSize)
    sc.entryBuffer (by rw [hsize, hl.pow]; exact congrArg (2 ^ ·) hshift)
    (by rw [Device.capacity, hsize, hcount]; exact hl.bytes_lt) (Nat.mul_le_mul_right _ hlba)
  refine ⟨entryBuffer, d', by rw [hstart, hread], hserves', fun i hi => ?_⟩
  have hmin : 512 ≤ l.sectorSize := hl.min_le
  rw [hbuffer i (by omega), hsize, Nat.div_mul_cancel hdvd]

variable (h : Listed l diskGuid crc parts f) (ho : OpenedTable l s₀)
  (hparts : ∀ part ∈ parts, Scannable l env.types part)
include h ho hparts

private theorem passGptEntry_eq (hserves : Serves (Device.getSectorSize d₀) d₀ d f)
    (hloaded : Loaded (fun s i => f (s * l.sectorSize + i)) s₀ sc) (hindex : sc.partitionIndex < GPT_ITEMS) :
    ∃ sc' d', AtEntry (fun s i => f (s * l.sectorSize + i)) s₀ sc' ∧ sc'.partitionIndex = sc.partitionIndex + 1 ∧
      Serves (Device.getSectorSize d₀) d₀ d' f ∧
      passGptEntry (b := b) env sc d = (parts[sc.partitionIndex]?).elim (.again sc' d') fun part =>
        .returned (some (found env.types f part)) sc' d' := by
  have hpow : s₀.sectorSize = 2 ^ s₀.sectorSizeShift := by rw [ho.size_eq, ho.shift_eq, ← hl.pow]
  have hdecode := hloaded.gptEntry_eq hpow (ho.shift_eq ▸ hl.shift_le)
  have hperSector : s₀.entriesPerSector = l.entriesPerSector := congrArg (· / GPT_ENTRY_SIZE) ho.size_eq
  have hbytes := h.entry hl hindex
  have hnext : ∀ g, AtEntry (fun s i => f (s * l.sectorSize + i)) s₀
      { sc with partitionIndex := sc.partitionIndex + 1, entryBuffer := g } := fun g =>
    hloaded.next ⟨hloaded.state, hloaded.shift_eq, hloaded.size_eq, hloaded.count⟩ rfl rfl rfl
  rw [ho.sector_eq, hperSector] at hdecode
  rw [passGptEntry]
  cases hpart : parts[sc.partitionIndex]? with
  | none =>
    rw [entryBytes, hpart, Option.elim_none] at hbytes
    rw [hdecode, if_pos (GptEntry.decode_unused hbytes)]
    exact ⟨{ sc with partitionIndex := sc.partitionIndex + 1 }, d, hnext sc.entryBuffer, rfl, hserves, rfl⟩
  | some part =>
    have hscan := hparts part (List.mem_of_getElem? hpart)
    rw [entryBytes, hpart, Option.elim_some] at hbytes
    have hentry : sc.gptEntry = entryOf l.shift part := hdecode.trans (GptEntry.decode_of_slice hbytes)
    have hshift : sc.sectorSizeShift = l.shift := hloaded.shift_eq.trans ho.shift_eq
    have hword : l.shift ≤ 64 := by
      refine (Nat.pow_lt_pow_iff_right (a := 2) (by decide)).mp ?_ |>.le
      rw [← hl.pow]
      exact Build.lt_u64 (Nat.lt_of_le_of_lt (Nat.le_mul_of_pos_left _ (by have := hl.room; omega)) hl.bytes_lt)
    have hfound : ∀ {g : Nat → UInt8}, (env.types.valid (smingMatch env.types part.typeGuid) = false →
        ∀ i < 512, g i = f (part.offset + i)) →
          gptPart env l.shift (entryOf l.shift part) g = found env.types f part :=
      gptPart_entryOf hword (hl.pow ▸ hscan.offset_dvd) (hl.pow ▸ hscan.size_dvd) hscan.no_nul hscan.name_length
    have hused : ¬ (entryOf l.shift part).partitionTypeGuid.isNull = true := Bool.eq_false_iff.mp hscan.typeGuid
    rw [hentry, if_neg hused]
    cases hvalid : env.types.valid (smingMatch env.types part.typeGuid) with
    | true =>
      have hregular : env.types.valid (smingMatch env.types (entryOf l.shift part).partitionTypeGuid) = true := hvalid
      rw [if_pos hregular]
      refine ⟨{ sc with partitionIndex := sc.partitionIndex + 1 }, d, hnext sc.entryBuffer, rfl, hserves, ?_⟩
      dsimp only
      rw [hshift, hfound fun hinvalid => absurd (hvalid.symm.trans hinvalid) Bool.noConfusion]
      rfl
    | false =>
      have hshift' : { sc with partitionIndex := sc.partitionIndex + 1 }.sectorSizeShift = l.shift := hshift
      obtain ⟨entryBuffer, d', hread, hserves', hfirst⟩ := readSector_first hl hsize hcount hserves hscan.offset_dvd
        (hscan.inside hvalid) hshift'
      have hother : ¬ env.types.valid (smingMatch env.types (entryOf l.shift part).partitionTypeGuid) = true :=
        Bool.eq_false_iff.mp hvalid
      rw [if_neg hother]
      dsimp only at hread ⊢
      rw [hread]
      refine ⟨{ sc with partitionIndex := sc.partitionIndex + 1, entryBuffer := entryBuffer }, d',
        hnext entryBuffer, rfl, hserves', ?_⟩
      dsimp only
      rw [hshift, hfound fun _ => hfirst]
      rfl

private theorem pass_eq (hserves : Serves (Device.getSectorSize d₀) d₀ d f)
    (hat : AtEntry (fun s i => f (s * l.sectorSize + i)) s₀ sc) (hindex : sc.partitionIndex < GPT_ITEMS) :
    ∃ sc' d', AtEntry (fun s i => f (s * l.sectorSize + i)) s₀ sc' ∧ sc'.partitionIndex = sc.partitionIndex + 1 ∧
      Serves (Device.getSectorSize d₀) d₀ d' f ∧
      pass (b := b) env sc d = (parts[sc.partitionIndex]?).elim (.again sc' d') fun part =>
        .returned (some (found env.types f part)) sc' d' := by
  have hperSector : s₀.entriesPerSector = l.entriesPerSector := congrArg (· / GPT_ENTRY_SIZE) ho.size_eq
  have hposition := hat.position
  rw [pass, if_pos (by rw [hat.count, ho.count_eq]; exact hindex), hat.state]
  dsimp only
  rw [passGpt, hat.entriesPerSector_eq]
  split
  · rename_i hzero
    rw [if_pos hzero, ho.sector_eq, hperSector] at hposition
    have hq : sc.partitionIndex / l.entriesPerSector ≤ l.numPartitionTableSectors := by
      rw [← hl.items_div]
      exact Nat.div_le_div_right hindex.le
    have hroom := hl.room
    have hfirst := hl.first_le
    obtain ⟨buffer, d', hread, hserves', hbuffer⟩ := hserves.readSector (b := b) sc
      (2 + sc.partitionIndex / l.entriesPerSector) sc.buffer
      (by rw [hsize, hl.pow]; exact congrArg (2 ^ ·) (hat.shift_eq.trans ho.shift_eq))
      (by rw [Device.capacity, hsize, hcount]; exact hl.bytes_lt) (Nat.mul_le_mul_right _ (by omega))
    rw [readSector_congr hposition, hread]
    dsimp only
    refine passGptEntry_eq hl hsize hcount h ho hparts hserves' (hat.load hzero fun i hi => ?_) hindex
    rw [ho.shift_eq, ← hl.pow, ← hsize] at hi
    rw [hbuffer i hi, hsize, ho.sector_eq, hperSector]
  · rename_i hne
    rw [if_neg hne] at hposition
    exact passGptEntry_eq hl hsize hcount h ho hparts hserves hposition hindex

theorem scans_array (left : Nat) (hserves : Serves (Device.getSectorSize d₀) d₀ d f)
    (hlen : parts.length ≤ GPT_ITEMS) (hat : AtEntry (fun s i => f (s * l.sectorSize + i)) s₀ sc)
    (hend : sc.partitionIndex + left = GPT_ITEMS) :
    ∃ sc' d', Scans env (left + 1) sc d ((parts.drop sc.partitionIndex).map (found env.types f)) sc' d' ∧
      sc'.state = .done := by
  induction left generalizing sc d with
  | zero =>
    have hindex : sc.partitionIndex = GPT_ITEMS := hend
    rw [hindex, List.drop_of_length_le hlen]
    refine ⟨{ sc with state := .done }, d, Scans.ends ?_, rfl⟩
    rw [pass, if_neg (by rw [hat.count, ho.count_eq, hindex]; exact Nat.lt_irrefl _)]
  | succ left ih =>
    obtain ⟨sc₁, d₁, hat₁, hindex, hserves₁, hpass⟩ := pass_eq hl hsize hcount h ho hparts hserves hat (by omega)
    obtain ⟨sc', d', hscans, hdone⟩ := ih hserves₁ hat₁ (by omega)
    refine ⟨sc', d', ?_, hdone⟩
    rw [hindex] at hscans
    cases hpart : parts[sc.partitionIndex]? with
    | none =>
      rw [hpart] at hpass
      have hle := List.getElem?_eq_none_iff.mp hpart
      rw [List.drop_of_length_le hle]
      rw [List.drop_of_length_le (by omega)] at hscans
      exact Scans.again hpass hscans
    | some part =>
      rw [hpart] at hpass
      obtain ⟨hlt, hget⟩ := List.getElem?_eq_some_iff.mp hpart
      rw [List.drop_eq_getElem_cons hlt, hget, List.map_cons]
      exact Scans.returns hpass hscans

end Array

/-- A device with the table on it is scanned: the partitions of the table are found, in table order. -/
theorem Listed.scanned (hl : l.Roomy) (h : Listed l diskGuid crc parts f)
    (hserves : Serves (Device.getSectorSize d₀) d₀ d f) (hsize : Device.getSectorSize d₀ = l.sectorSize)
    (hcount : Device.getSectorCount d₀ = l.driveSectors) (hchoose : chooseSectorSize b d = some l.sectorSize)
    (hbuffer : env.buffer.isSome) (hentry : env.entryBuffer.isSome) (hlen : parts.length ≤ GPT_ITEMS)
    (hparts : ∀ part ∈ parts, Scannable l env.types part) :
    ∃ d', ∀ fuel, 129 < fuel →
      scanPartitions env fuel d = some (some (true, d', (parts.map (found env.types f)).map env.named)) := by
  obtain ⟨s₀, d₁, hopen, hserves₁, hopened, hzero⟩ := openTable_gpt hl h hserves hsize hcount hchoose hbuffer hentry
  obtain ⟨sc', d', hscans, hdone⟩ := scans_array hl hsize hcount h hopened hparts GPT_ITEMS hserves₁ hlen
    (AtEntry.start hopened.state_eq hzero) (by rw [hzero, Nat.zero_add])
  rw [hzero, List.drop_zero] at hscans
  refine ⟨d', fun fuel hfuel => ?_⟩
  rw [hscans.scanPartitions_eq hopen (by rw [hopened.state_eq]; decide) hfuel, hdone]
  rfl

end Scan

/-- A scanned partition agrees with the one in the table. -/
structure SamePartition (types : PartitionTypes) (part scanned : PartInfo b) : Prop where
  offset_eq : scanned.offset = part.offset
  size_eq : scanned.size = part.size
  typeGuid_eq : scanned.typeGuid = part.typeGuid
  uniqueGuid_eq : scanned.uniqueGuid = part.uniqueGuid
  name_eq : scanned.name = part.name
  fullType_eq : part.typeGuid = smingTypeGuid part.fullType → types.valid part.fullType = true →
    scanned.fullType = part.fullType

/-- A scanned partition is the one of an entry. Where no regular type is known, it has the size of the volume
in its first sector, if there is one. -/
structure Refound (types : PartitionTypes) (f : Nat → UInt8) (part scanned : PartInfo b) : Prop where
  offset_eq : scanned.offset = part.offset
  size_eq : scanned.size = if types.valid (smingMatch types part.typeGuid) then part.size
    else ((identify b types (fun i => f (part.offset + i)) part.offset).map PartInfo.size).getD part.size
  typeGuid_eq : scanned.typeGuid = part.typeGuid
  uniqueGuid_eq : scanned.uniqueGuid = part.uniqueGuid
  name_eq : scanned.name = part.name
  fullType_eq : part.typeGuid = smingTypeGuid part.fullType → types.valid part.fullType = true →
    scanned.fullType = part.fullType

theorem refound (env : ScanEnv) (f : Nat → UInt8) {part : PartInfo b} (hname : part.name ≠ []) :
    Refound env.types f part (env.named (found env.types f part)) := by
  have hlen : part.name.length ≠ 0 := fun hzero => hname (List.eq_nil_of_length_eq_zero hzero)
  have hnamed : (env.named (found env.types f part)).name = part.name := by
    simp only [ScanEnv.named, found, hlen, decide_false, Bool.false_and, Bool.false_eq_true, if_false]
  refine ⟨?_, ?_, rfl, rfl, hnamed, fun hguid hvalid => ?_⟩
  · change (found env.types f part).offset = part.offset
    rw [found]
    dsimp only
    split
    · exact Build.storage_of_lt part.offset_lt
    · rcases hvolume : identify b env.types (fun i => f (part.offset + i)) part.offset with _ | volume
      · exact Build.storage_of_lt part.offset_lt
      · exact (identify_offset hvolume).trans (Build.storage_of_lt part.offset_lt)
  · change (found env.types f part).size = _
    rw [found]
    dsimp only
    split
    · exact Build.storage_of_lt part.size_lt
    · rcases identify b env.types (fun i => f (part.offset + i)) part.offset with _ | volume
      · exact Build.storage_of_lt part.size_lt
      · rfl
  · have hmatch : smingMatch env.types part.typeGuid = part.fullType := by rw [hguid, smingMatch_smingTypeGuid]
    change (found env.types f part).fullType = part.fullType
    rw [found, hmatch, if_pos hvalid]
    rfl

theorem Refound.same {types : PartitionTypes} {f : Nat → UInt8} {part scanned : PartInfo b}
    (h : Refound types f part scanned) (hnone : types.valid (smingMatch types part.typeGuid) = false →
      identify b types (fun i => f (part.offset + i)) part.offset = none) : SamePartition types part scanned := by
  refine ⟨h.offset_eq, ?_, h.typeGuid_eq, h.uniqueGuid_eq, h.name_eq, h.fullType_eq⟩
  rw [h.size_eq]
  split
  · rfl
  · rename_i hinvalid
    rw [hnone (Bool.eq_false_iff.mpr hinvalid)]
    rfl

/-- What formatDisk has written is found by scanPartitions: the partitions of the table, in table order. -/
theorem gpt_format_scan_round_trip {σ : Type} [LawfulDevice σ] (fenv : FormatEnv) (env : ScanEnv) (device : σ)
    (pt table : List (PartInfo b)) (diskGuid : Uuid) (result : Formatted b σ)
    (hready : LawfulDevice.Ready device) (hdevice : Suitable b device)
    (hcount : table.length ≤ 128)
    (htable : ∀ part ∈ table, part.typeGuid.isNull = false ∧ part.name ≠ [] ∧ 0 ∉ part.name ∧ part.name.length ≤ 36)
    (hformat : formatDisk fenv device pt table diskGuid = some result) (hok : result.err = .success)
    (haligned : ∀ part ∈ result.partitions,
      Device.getSectorSize device ∣ part.offset ∧ Device.getSectorSize device ∣ part.size)
    (hreads : Device.ReadsSucceed (Device.getSectorSize device) result.device)
    (hprobe : ∀ part ∈ result.partitions, env.types.valid (smingMatch env.types part.typeGuid) = false →
      part.offset + Device.getSectorSize device ≤ Device.capacity device ∧
        identify b env.types (fun i => LawfulDevice.content result.device (part.offset + i)) part.offset = none)
    (hbuffer : env.buffer.isSome) (hentryBuffer : env.entryBuffer.isSome) :
    result.partitions.map PartInfo.label = table.map PartInfo.label ∧
      ∃ scanned device', (∀ fuel, 129 < fuel →
          scanPartitions env fuel result.device = some (some (true, device', scanned))) ∧
        List.Forall₂ (SamePartition env.types) result.partitions scanned := by
  obtain ⟨_, hvalidate, hwrite⟩ := hdevice.written hformat hok
  have hl := hdevice.fits
  obtain ⟨f, hholds, _, hparts⟩ := writeTables_partitioned hl rfl (Holds.start hready) hwrite
  have hlabels := Available.validate_labels hvalidate
  -- what the table says about its entries holds for those that validate has placed
  have hplaced := Available.validate_label_forall
    (P := fun label => label.2.2.1.isNull = false ∧ label.1 ≠ [] ∧ 0 ∉ label.1 ∧ label.1.length ≤ 36) hvalidate htable
  have hscannable : ∀ part ∈ result.partitions, Scannable (b := b)
      ⟨Device.getSectorSize device, Device.getSectorCount device⟩ env.types part := by
    intro part hpart
    obtain ⟨hguid, _, hnul, hlen⟩ := hplaced part hpart
    exact ⟨hguid, (haligned part hpart).1, (haligned part hpart).2, hnul, hlen, fun hinvalid =>
      (hprobe part hpart hinvalid).1⟩
  have hlen : result.partitions.length ≤ GPT_ITEMS := (Available.validate_length hvalidate).trans_le hcount
  have hchoose : chooseSectorSize b result.device = some (Device.getSectorSize device) := by
    rw [← hholds.sectorSize_eq]
    exact SupportedSectorSize.choose (hholds.sectorSize_eq ▸ hdevice.supported)
  obtain ⟨d', hscan⟩ := hparts.toListed.scanned hl.toRoomy ⟨hholds, hreads⟩ rfl rfl hchoose hbuffer hentryBuffer hlen
    hscannable
  refine ⟨hlabels, (result.partitions.map (found env.types f)).map env.named, d', hscan, ?_⟩
  rw [List.map_map, List.forall₂_map_right_iff, List.forall₂_same]
  intro part hpart
  refine (refound env f (hplaced part hpart).2.1).same fun hinvalid => ?_
  rw [← hholds.content_eq]
  exact (hprobe part hpart hinvalid).2

/-- Two data partitions. -/
def twoPartitions : List (PartInfo ⟨true, true, true, 512⟩) :=
  [{ PartInfo.new [0x61] ⟨1, 0⟩ 0 40 with typeGuid := smingTypeGuid ⟨1, 0⟩ },
    { PartInfo.new [0x62] ⟨1, 1⟩ 0 30 with typeGuid := smingTypeGuid ⟨1, 1⟩ }]

end GPT

end DiskStorage
