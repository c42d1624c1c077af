import DiskStorage.Scanner.EndStates

/-! The partitions of a GPT that next returns call by call, against a decoding of the entry array. -/
namespace DiskStorage
open ByteStore LittleEndian
open Runs (Run last)

variable {b : Build} {env : ScanEnv}

/-- What is taken from an entry whatever is in its first sector. -/
def GptEntry.identity (entry : GptEntry) : Uuid × Uuid × List UInt8 :=
  (entry.partitionTypeGuid, entry.uniquePartitionGuid, unicodeToOem ((List.finRange 36).map entry.partitionName))

def PartInfo.identity (part : PartInfo b) : Uuid × Uuid × List UInt8 := (part.typeGuid, part.uniqueGuid, part.name)

/-- An entry array on a disk image, of which reads may fail: those that the image does not have as
readable, when the pattern says so of the number of reads before. `reads` have been made before the
first entry. -/
structure EntryArray where
  types : PartitionTypes
  image : Image
  fails : Nat → Bool
  shift : Nat
  lba : Nat
  count : Nat
  reads : Nat

namespace EntryArray
variable (g : EntryArray)

def entriesPerSector : Nat := 2 ^ g.shift / GPT_ENTRY_SIZE

/-- The entry at byte `i * 128` of the array. -/
def entry (i : Nat) : GptEntry := GptEntry.decode g.image.bytes (g.lba * 2 ^ g.shift + i * GPT_ENTRY_SIZE)

def inUse (i : Nat) : Bool := !(g.entry i).partitionTypeGuid.isNull

/-- The entry has the type of a regular partition, which says what it is. -/
def regular (i : Nat) : Bool := g.types.valid (smingMatch g.types (g.entry i).partitionTypeGuid)

/-- The entry is the first of a sector. -/
def opensSector (i : Nat) : Bool := i % g.entriesPerSector == 0

/-- The number of reads in front of an entry: one for each sector of the array, and one for each
first sector of a partition that is looked at. -/
def readsBefore : Nat → Nat
  | 0 => g.reads
  | i + 1 => readsBefore i + (g.opensSector i).toNat + (g.inUse i && !g.regular i).toNat

/-- A read of one sector, behind so many others. -/
def succeeds (address reads : Nat) : Bool := g.image.readable address (2 ^ g.shift) || !g.fails reads

/-- The sector of the array that starts with the entry cannot be read. -/
def sectorFails (i : Nat) : Bool :=
  g.opensSector i && !g.succeeds ((g.lba + i / g.entriesPerSector) * 2 ^ g.shift) (g.readsBefore i)

/-- The entry is in use, and its first sector can be read unless it is regular. -/
def shown (i : Nat) : Bool :=
  g.inUse i && (g.regular i ||
    g.succeeds ((g.entry i).startingLba.toNat * 2 ^ g.shift) (g.readsBefore i + (g.opensSector i).toNat))

/-- The entries from `i` on that make partitions, in front of the first sector that cannot be read. -/
def listedFrom (i n : Nat) : List Nat := ((List.range' i n).takeWhile fun j => !g.sectorFails j).filter g.shown

def listed : List Nat := g.listedFrom 0 g.count

/-- The state that the scanner stops in. -/
def finalFrom (i n : Nat) : ScanState := if (List.range' i n).any g.sectorFails then .error else .done

def final : ScanState := g.finalFrom 0 g.count

/-- The bytes of the array, and the starts of the partitions that are looked at, have addresses. -/
structure Fits (b : Build) : Prop where
  array : ∀ i < g.count, g.lba * 2 ^ g.shift + i * GPT_ENTRY_SIZE < b.storageSize
  starts : ∀ i < g.count, g.inUse i → g.regular i = false → (g.entry i).startingLba.toNat * 2 ^ g.shift < b.storageSize

end EntryArray

section Passes
variable {g : EntryArray} {s₀ : Scanner} {s : Scanner × FlakyImage}

/-- The scanner has opened the array as `s₀`. -/
structure EntryArray.Opened (g : EntryArray) (env : ScanEnv) (s₀ : Scanner) : Prop where
  types_eq : g.types = env.types
  shift_eq : s₀.sectorSizeShift = g.shift
  size_eq : s₀.sectorSize = 2 ^ g.shift
  lba_eq : s₀.sector = g.lba
  count_eq : s₀.numPartitionEntries = g.count
  shift_le : 9 ≤ g.shift

/-- The scanner is in front of an entry, with the reads made that the decoding counts. -/
structure EntryArray.At (b : Build) (g : EntryArray) (s₀ : Scanner) (s : Scanner × FlakyImage) : Prop where
  entry : AtEntry (g.image.sectorAt b g.shift) s₀ s.1
  device : s.2 = ⟨g.image, g.fails, g.readsBefore s.1.partitionIndex⟩

theorem sectorAddress_exact {shift sector : Nat} (h : sector * 2 ^ shift < b.storageSize) :
    sectorAddress b shift sector = sector * 2 ^ shift := by
  have hle := Nat.le_mul_of_pos_right sector (Nat.two_pow_pos shift)
  rw [sectorAddress, Build.storage_of_lt (n := sector) (by omega), Build.storage_of_lt h]

namespace EntryArray.Opened

theorem entriesPerSector_eq (ho : g.Opened env s₀) : s₀.entriesPerSector = g.entriesPerSector := by
  rw [Scanner.entriesPerSector, ho.size_eq, EntryArray.entriesPerSector]

theorem entriesPerSector_mul (ho : g.Opened env s₀) : g.entriesPerSector * GPT_ENTRY_SIZE = 2 ^ g.shift := by
  apply Nat.div_mul_cancel
  obtain ⟨k, hk⟩ := Nat.exists_eq_add_of_le ho.shift_le
  rw [hk, Nat.pow_add]
  exact Dvd.dvd.mul_right (by decide) _

theorem sector_add (ho : g.Opened env s₀) (i : Nat) :
    (g.lba + i / g.entriesPerSector) * 2 ^ g.shift + i % g.entriesPerSector * GPT_ENTRY_SIZE =
      g.lba * 2 ^ g.shift + i * GPT_ENTRY_SIZE := by
  rw [Nat.add_mul, ← ho.entriesPerSector_mul, ← Nat.mul_assoc (i / _), Nat.add_assoc, ← Nat.add_mul,
    Nat.mul_comm (i / _), Nat.div_add_mod]

theorem sector_fits (ho : g.Opened env s₀) (hfits : g.Fits b) {i : Nat} (hi : i < g.count) :
    (g.lba + i / g.entriesPerSector) * 2 ^ g.shift < b.storageSize := by
  have h := hfits.array i hi
  rw [← ho.sector_add] at h
  omega

theorem entry_eq (ho : g.Opened env s₀) (hfits : g.Fits b) {sc : Scanner}
    (h : Loaded (g.image.sectorAt b g.shift) s₀ sc) (hi : sc.partitionIndex < g.count) :
    sc.gptEntry = g.entry sc.partitionIndex := by
  have hentry := h.gptEntry_eq (by rw [ho.size_eq, ho.shift_eq]) (by rw [ho.shift_eq]; exact ho.shift_le)
  rw [hentry, ho.entriesPerSector_eq, ho.lba_eq, EntryArray.entry, ← ho.sector_add, ← GptEntry.decode_shift,
    ← sectorAddress_exact (ho.sector_fits hfits hi)]
  rfl

end EntryArray.Opened

private theorem readSector_counted (g : EntryArray) (sc : Scanner) (hshift : sc.sectorSizeShift = g.shift) (n : Nat)
    (buffer : Nat → UInt8) {sector : Nat} (hfits : sector * 2 ^ g.shift < b.storageSize) :
    readSector b sc (⟨g.image, g.fails, n⟩ : FlakyImage) buffer sector =
      (if g.succeeds (sector * 2 ^ g.shift) n then some (g.image.buffered b g.shift buffer sector) else none,
        ⟨g.image, g.fails, n + 1⟩) := by
  rw [readSector_flaky, hshift, EntryArray.succeeds, Image.readableAt, sectorAddress_exact hfits]

/-- What a pass does with an entry: it returns its partition, or goes on, as the decoding has it. -/
def EntryArray.Passed (b : Build) (g : EntryArray) (s₀ : Scanner) (i : Nat) (p : Pass b FlakyImage) : Prop :=
  ∃ t : Scanner × FlakyImage, g.At b s₀ t ∧ t.1.partitionIndex = i + 1 ∧
    ((g.shown i = true ∧ ∃ part, p = .returned (some part) t.1 t.2 ∧ part.identity = (g.entry i).identity) ∨
      g.shown i = false ∧ p = .again t.1 t.2)

private theorem passGptEntry_passed {sc : Scanner} {n : Nat} (ho : g.Opened env s₀) (hfits : g.Fits b)
    (h : Loaded (g.image.sectorAt b g.shift) s₀ sc) (hi : sc.partitionIndex < g.count)
    (hn : n = g.readsBefore sc.partitionIndex + (g.opensSector sc.partitionIndex).toNat) :
    g.Passed b s₀ sc.partitionIndex (passGptEntry (b := b) env sc (⟨g.image, g.fails, n⟩ : FlakyImage)) := by
  have hafter : ∀ buffer, g.At b s₀ ({ sc with partitionIndex := sc.partitionIndex + 1, entryBuffer := buffer },
      ⟨g.image, g.fails, n + (g.inUse sc.partitionIndex && !g.regular sc.partitionIndex).toNat⟩) := by
    intro buffer
    refine ⟨h.next ⟨h.state, h.shift_eq, h.size_eq, h.count⟩ rfl rfl rfl, ?_⟩
    rw [EntryArray.readsBefore, hn]
  have hshift : sc.sectorSizeShift = g.shift := h.shift_eq.trans ho.shift_eq
  have hentry := ho.entry_eq hfits h hi
  have hused : (g.entry sc.partitionIndex).partitionTypeGuid.isNull = !g.inUse sc.partitionIndex :=
    (Bool.not_not _).symm
  have hregular : env.types.valid (smingMatch env.types (g.entry sc.partitionIndex).partitionTypeGuid) =
      g.regular sc.partitionIndex := by rw [EntryArray.regular, ho.types_eq]
  rw [passGptEntry, hentry, hused, hregular]
  dsimp only
  cases huse : g.inUse sc.partitionIndex with
  | false =>
    have hshown : g.shown sc.partitionIndex = false := by rw [EntryArray.shown, huse, Bool.false_and]
    rw [huse] at hafter
    exact ⟨_, hafter sc.entryBuffer, rfl, Or.inr ⟨hshown, if_pos rfl⟩⟩
  | true =>
    rw [huse] at hafter
    rw [if_neg (by decide)]
    cases hreg : g.regular sc.partitionIndex with
    | true =>
      have hshown : g.shown sc.partitionIndex = true := by
        rw [EntryArray.shown, huse, hreg, Bool.true_or, Bool.true_and]
      rw [hreg] at hafter
      exact ⟨_, hafter sc.entryBuffer, rfl, Or.inl ⟨hshown, _, if_pos rfl, rfl⟩⟩
    | false =>
      have hread := readSector_counted (b := b) g { sc with partitionIndex := sc.partitionIndex + 1 } hshift n
        sc.entryBuffer (hfits.starts _ hi huse hreg)
      have hshown : g.shown sc.partitionIndex =
          g.succeeds ((g.entry sc.partitionIndex).startingLba.toNat * 2 ^ g.shift) n := by
        rw [EntryArray.shown, huse, hreg, Bool.false_or, Bool.true_and, hn]
      rw [← hshown] at hread
      rw [hreg] at hafter
      rw [if_neg (by decide), hread]
      cases hs : g.shown sc.partitionIndex with
      | true => exact ⟨_, hafter _, rfl, Or.inl ⟨hs, _, rfl, rfl⟩⟩
      | false => exact ⟨_, hafter sc.entryBuffer, rfl, Or.inr ⟨hs, rfl⟩⟩

/-- A pass over an entry: the scan ends with an error at a sector that cannot be read. -/
theorem EntryArray.At.pass (h : g.At b s₀ s) (ho : g.Opened env s₀) (hfits : g.Fits b)
    (hi : s.1.partitionIndex < g.count) :
    (g.sectorFails s.1.partitionIndex = true ∧ ∃ t : Scanner × FlakyImage,
        DiskStorage.pass (b := b) env s.1 s.2 = .returned none t.1 t.2 ∧ t.1.state = .error) ∨
      g.sectorFails s.1.partitionIndex = false ∧
        g.Passed b s₀ s.1.partitionIndex (DiskStorage.pass (b := b) env s.1 s.2) := by
  obtain ⟨sc, d⟩ := s
  obtain ⟨hat, hdevice⟩ := h
  dsimp only at hat hdevice hi ⊢
  subst hdevice
  have hshift : sc.sectorSizeShift = g.shift := hat.shift_eq.trans ho.shift_eq
  have hposition := hat.position
  rw [DiskStorage.pass, if_pos (by rw [hat.count, ho.count_eq]; exact hi), hat.state]
  dsimp only
  rw [passGpt, hat.entriesPerSector_eq]
  by_cases hzero : sc.partitionIndex % s₀.entriesPerSector = 0
  · have hopens : g.opensSector sc.partitionIndex = true := by
      rw [EntryArray.opensSector, ← ho.entriesPerSector_eq, hzero]
      rfl
    rw [if_pos hzero] at hposition ⊢
    rw [readSector_congr hposition, ho.lba_eq, ho.entriesPerSector_eq,
      readSector_counted g _ hshift _ _ (ho.sector_fits hfits hi)]
    have hfails : g.sectorFails sc.partitionIndex =
        !g.succeeds ((g.lba + sc.partitionIndex / g.entriesPerSector) * 2 ^ g.shift)
          (g.readsBefore sc.partitionIndex) := by
      rw [EntryArray.sectorFails, hopens, Bool.true_and]
    cases hread : g.succeeds ((g.lba + sc.partitionIndex / g.entriesPerSector) * 2 ^ g.shift)
        (g.readsBefore sc.partitionIndex) with
    | false =>
      rw [hread] at hfails
      exact Or.inl ⟨hfails, (_, _), rfl, rfl⟩
    | true =>
      rw [hread] at hfails
      refine Or.inr ⟨hfails, passGptEntry_passed ho hfits (hat.load hzero fun i hi => ?_) hi ?_⟩
      · rw [ho.shift_eq] at hi
        rw [ho.lba_eq, ho.entriesPerSector_eq]
        exact patch_slice sc.buffer g.image.bytes _ hi
      · rw [hopens]
        rfl
  · have hopens : g.opensSector sc.partitionIndex = false := by
      rw [EntryArray.opensSector, ← ho.entriesPerSector_eq]
      exact beq_eq_false_iff_ne.mpr hzero
    rw [if_neg hzero] at hposition ⊢
    refine Or.inr ⟨by rw [EntryArray.sectorFails, hopens, Bool.false_and], ?_⟩
    apply passGptEntry_passed ho hfits hposition hi
    rw [hopens]
    rfl

end Passes

section Calls
variable {σ : Type} [Device σ] {s t u : Scanner × σ} {parts parts' : List (PartInfo b)}

/-- Calls of next, one after the other, return these partitions, and then null. -/
inductive Enumerates (b : Build) (env : ScanEnv) : Scanner × σ → List (PartInfo b) → Scanner × σ → Prop
  | ends {s t : Scanner × σ} (h : Call b env s none t) : Enumerates b env s [] t
  | returns {s t u : Scanner × σ} {part : PartInfo b} {parts : List (PartInfo b)} (h : Call b env s (some part) t)
      (hrest : Enumerates b env t parts u) : Enumerates b env s (part :: parts) u

theorem Enumerates.unique (h : Enumerates b env s parts t) (h' : Enumerates b env s parts' u) :
    parts = parts' ∧ t = u := by
  induction h generalizing parts' u with
  | ends hc =>
    cases h' with
    | ends hc' => exact ⟨rfl, (hc.unique hc').2⟩
    | returns hc' _ => cases (hc.unique hc').1
  | returns hc _ ih =>
    cases h' with
    | ends hc' => cases (hc.unique hc').1
    | returns hc' hrest' =>
      obtain ⟨hpart, rfl⟩ := hc.unique hc'
      obtain ⟨rfl, htu⟩ := ih hrest'
      cases hpart
      exact ⟨rfl, htu⟩

theorem Enumerates.first (h : Enumerates b env s parts u)
    (hfirst : ∀ part v, Call b env s part v → Call b env t part v) : Enumerates b env t parts u := by
  cases h with
  | ends hc => exact .ends (hfirst _ _ hc)
  | returns hc hrest => exact .returns (hfirst _ _ hc) hrest

theorem call_again {part : Option (PartInfo b)} (hs : s.1.state ≠ .idle) (ht : t.1.state ≠ .idle)
    (hp : pass (b := b) env s.1 s.2 = .again t.1 t.2) (h : Call b env t part u) : Call b env s part u := by
  obtain ⟨fuel, hn⟩ := h
  refine ⟨fuel + 1, ?_⟩
  rw [next, if_neg ht] at hn
  rw [next, if_neg hs, nextLoop, hp]
  exact hn

theorem call_returned {part : Option (PartInfo b)} (hs : s.1.state ≠ .idle)
    (hp : pass env s.1 s.2 = .returned part t.1 t.2) : Call b env s part t := by
  refine ⟨1, ?_⟩
  rw [next, if_neg hs, nextLoop, hp]

end Calls

section Enumeration
variable {g : EntryArray} {s₀ : Scanner} {s : Scanner × FlakyImage}

namespace EntryArray

theorem listedFrom_succ (g : EntryArray) (i n : Nat) :
    g.listedFrom i (n + 1) = if g.sectorFails i then [] else
      if g.shown i then i :: g.listedFrom (i + 1) n else g.listedFrom (i + 1) n := by
  rw [listedFrom, List.range'_succ, List.takeWhile_cons]
  cases g.sectorFails i with
  | true => rfl
  | false =>
    rw [Bool.not_false, if_pos rfl, if_neg Bool.false_ne_true, List.filter_cons]
    rfl

theorem finalFrom_succ (g : EntryArray) (i n : Nat) :
    g.finalFrom i (n + 1) = if g.sectorFails i then .error else g.finalFrom (i + 1) n := by
  rw [finalFrom, List.range'_succ, List.any_cons]
  cases g.sectorFails i with
  | true => rfl
  | false =>
    rw [Bool.false_or, if_neg Bool.false_ne_true]
    rfl

theorem At.not_idle (h : g.At b s₀ s) : s.1.state ≠ .idle := by simp [h.entry.state]

theorem At.enumerates {n : Nat} (h : g.At b s₀ s) (ho : g.Opened env s₀) (hfits : g.Fits b)
    (hn : s.1.partitionIndex + n = g.count) :
    ∃ parts t, Enumerates b env s parts t ∧ t.1.state = g.finalFrom s.1.partitionIndex n ∧
      parts.map PartInfo.identity = (g.listedFrom s.1.partitionIndex n).map fun i => (g.entry i).identity := by
  induction n generalizing s with
  | zero =>
    have hp : DiskStorage.pass (b := b) env s.1 s.2 = .returned none { s.1 with state := .done } s.2 := by
      rw [DiskStorage.pass, if_neg (by rw [h.entry.count, ho.count_eq]; omega)]
    exact ⟨[], ({ s.1 with state := .done }, s.2), .ends (call_returned h.not_idle hp), rfl, rfl⟩
  | succ n ih =>
    rw [listedFrom_succ, finalFrom_succ]
    rcases h.pass ho hfits (by omega) with ⟨hfails, t, hp, herror⟩ | ⟨hfails, t, hat, hindex, hpassed⟩
    · rw [hfails, if_pos rfl, if_pos rfl]
      exact ⟨[], t, .ends (call_returned h.not_idle hp), herror, rfl⟩
    · obtain ⟨parts, u, henum, hstate, hparts⟩ := ih hat (by omega)
      rw [hindex] at hstate hparts
      rw [hfails, if_neg Bool.false_ne_true, if_neg Bool.false_ne_true]
      rcases hpassed with ⟨hshown, part, hp, hpart⟩ | ⟨hshown, hp⟩
      · refine ⟨part :: parts, u, .returns (call_returned h.not_idle hp) henum, hstate, ?_⟩
        rw [hshown, if_pos rfl, List.map_cons, List.map_cons, hpart, hparts]
      · refine ⟨parts, u, henum.first fun _ _ => call_again h.not_idle hat.not_idle hp, hstate, ?_⟩
        rw [hshown, if_neg Bool.false_ne_true, hparts]

end EntryArray

end Enumeration

section Opening
variable (b : Build) (env : ScanEnv) (d : FlakyImage) (size : Nat) (memory : Nat → UInt8)

/-- There is memory for two sectors. Sector 0 is read: it is no boot sector, but a protective boot
record. Then the header is read, and accepted. -/
structure FlakyImage.HasGpt : Prop where
  size_eq : chooseSectorSize b d = some size
  memory_eq : env.buffer = some memory
  entry_memory : env.entryBuffer.isSome
  mbr_read : (d.image.readableAt b (getSizeBits size) 0 || !d.fails d.reads) = true
  unidentified : identify b env.types (d.image.buffered b (getSizeBits size) memory 0) 0 = none
  signature : mbrSignature (d.image.buffered b (getSizeBits size) memory 0) = MSDOS_MBR_SIGNATURE
  protective : (mbrRecord (d.image.buffered b (getSizeBits size) memory 0) 0).osType = EFI_PMBR_OSTYPE_EFI_GPT
  header_read :
    (d.image.readableAt b (getSizeBits size) GPT_PRIMARY_PARTITION_TABLE_LBA || !d.fails (d.reads + 1)) = true
  header_ok : verifyGptHeader (d.image.buffered b (getSizeBits size) memory GPT_PRIMARY_PARTITION_TABLE_LBA) = true

/-- The array that the header describes. Two reads have been made in front of it. -/
def FlakyImage.entryArray : EntryArray :=
  let header := GptHeader.decode (d.image.buffered b (getSizeBits size) memory GPT_PRIMARY_PARTITION_TABLE_LBA) 0
  { types := env.types
    image := d.image
    fails := d.fails
    shift := getSizeBits size
    lba := header.partitionEntryLba.toNat
    count := header.numPartitionEntries.toNat
    reads := d.reads + 2 }

variable {b env d size memory}

private theorem verifyGptHeader_count {f : Nat → UInt8} (h : verifyGptHeader f = true) :
    (GptHeader.decode f 0).numPartitionEntries.toNat ≤ 128 := by
  rw [verifyGptHeader, Bool.and_eq_true] at h
  exact of_decide_eq_true h.2

/-- Such a disk is opened, and the scanner is in front of the first entry. -/
theorem FlakyImage.HasGpt.opens (h : d.HasGpt b env size memory) : ∃ s : Scanner × FlakyImage,
    openTable (b := b) env Scanner.new d = .again s.1 s.2 ∧ (d.entryArray b env size memory).Opened env s.1 ∧
      (d.entryArray b env size memory).At b s.1 s ∧ s.1.partitionIndex = 0 := by
  obtain ⟨entryBuffer, hentry⟩ := Option.isSome_iff_exists.mp h.entry_memory
  have hmbr := readSector_flaky (b := b) { Scanner.new with
    sectorSize := size, sectorSizeShift := getSizeBits size, buffer := memory } d memory 0
  have hheader := readSector_flaky (b := b) { Scanner.new with
    sectorSize := size, sectorSizeShift := getSizeBits size,
    buffer := d.image.buffered b (getSizeBits size) memory 0 } { d with reads := d.reads + 1 }
    (d.image.buffered b (getSizeBits size) memory 0) GPT_PRIMARY_PARTITION_TABLE_LBA
  rw [if_pos h.mbr_read] at hmbr
  rw [if_pos h.header_read] at hheader
  dsimp only at hheader
  rw [buffered_buffered] at hheader
  have hcount : (d.entryArray b env size memory).count ≤ 128 := verifyGptHeader_count h.header_ok
  refine ⟨({ Scanner.new with
    sectorSize := size, sectorSizeShift := getSizeBits size, state := .gpt, entryBuffer := entryBuffer
    buffer := d.image.buffered b (getSizeBits size) memory GPT_PRIMARY_PARTITION_TABLE_LBA
    numPartitionEntries := (d.entryArray b env size memory).count % 2 ^ 16
    sector := (d.entryArray b env size memory).lba }, { d with reads := d.reads + 2 }), ?_, ?_, ?_, rfl⟩
  · rw [openTable, h.size_eq]
    dsimp only
    rw [h.memory_eq]
    dsimp only
    rw [hmbr]
    dsimp only
    rw [h.unidentified]
    dsimp only
    rw [if_neg (not_not.mpr h.signature), if_pos h.protective, openGpt, hheader]
    dsimp only
    rw [h.header_ok, if_pos rfl, hentry]
    rfl
  · refine ⟨rfl, rfl, ?_, rfl, ?_, (chooseSectorSize_shift h.size_eq).1⟩
    · exact chooseSectorSize_pow h.size_eq
    · exact Nat.mod_eq_of_lt (by omega)
  · exact ⟨AtEntry.start rfl rfl, rfl⟩

end Opening

/-- On a disk with a GPT, call by call and whatever reads fail, next returns the entries that are in
use and whose first sector can be read unless they are regular, in the order of the array and up to
the first of its sectors that cannot be read; then it returns null, with an error in that case. -/
theorem gpt_enumeration (b : Build) (env : ScanEnv) (d : FlakyImage) (size : Nat) (memory : Nat → UInt8)
    (h : d.HasGpt b env size memory) (hfits : (d.entryArray b env size memory).Fits b) :
    ∃ parts t, Enumerates b env (Scanner.new, d) parts t ∧
      parts.map PartInfo.identity = (d.entryArray b env size memory).listed.map (fun i =>
        ((d.entryArray b env size memory).entry i).identity) ∧
      t.1.state = (d.entryArray b env size memory).final ∧
      ∀ parts' t', Enumerates b env (Scanner.new, d) parts' t' → parts' = parts ∧ t' = t := by
  obtain ⟨s, hopen, hopened, hat, hzero⟩ := h.opens
  obtain ⟨parts, t, henum, hstate, hparts⟩ := hat.enumerates hopened hfits
    (n := (d.entryArray b env size memory).count) (by rw [hzero, Nat.zero_add])
  rw [hzero] at hstate hparts
  have hfirst : Enumerates b env (Scanner.new, d) parts t := by
    apply henum.first
    rintro part v ⟨fuel, hn⟩
    refine ⟨fuel, ?_⟩
    rw [next, if_neg hat.not_idle] at hn
    dsimp only
    rw [next, if_pos (show Scanner.new.state = .idle from rfl), hopen]
    exact hn
  refine ⟨parts, t, hfirst, hparts, hstate, fun parts' t' h' => ?_⟩
  obtain ⟨rfl, rfl⟩ := h'.unique hfirst
  exact ⟨rfl, rfl⟩

/-- A disk with a GPT of five entries from sector 2 on, of which the first is in use and has its
partition in sector 4. From the fifth read on, all fail. -/
def failingDisk : FlakyImage where
  image :=
    { bytes := fun i =>
        if i < 512 then if i = 450 then 0xee else if i = 510 then 0x55 else if i = 511 then 0xaa else 0
        else if i < 1024 then
          [0x45, 0x46, 0x49, 0x20, 0x50, 0x41, 0x52, 0x54, 0, 0, 1, 0, 92, 0, 0, 0, 62, 210, 20, 55].getD (i - 512)
            (if i = 512 + 72 then 2 else if i = 512 + 80 then 5 else if i = 512 + 84 then 128 else 0)
        else if i = 1024 then 1 else if i = 1024 + 32 then 4 else if i = 1024 + 40 then 4 else 0
      readable := fun _ _ => false
      sectorSize := 512
      sectorCount := 8 }
  fails n := decide (4 ≤ n)
  reads := 0

/-- The partition in sector 4 is returned, then the second sector of the array cannot be read. -/
theorem gpt_enumeration_failing : ∃ (parts : List (PartInfo ⟨true, true, true, 512⟩)) (t : Scanner × FlakyImage),
    Enumerates ⟨true, true, true, 512⟩ ⟨⟨0xff, 1, 2, 0xff⟩, fun _ => [], some fun _ => 0, some fun _ => 0⟩
      (Scanner.new, failingDisk) parts t ∧ parts.length = 1 ∧ t.1.state = .error := by
  have hgpt : failingDisk.HasGpt ⟨true, true, true, 512⟩
      ⟨⟨0xff, 1, 2, 0xff⟩, fun _ => [], some fun _ => 0, some fun _ => 0⟩ 512 fun _ => 0 := by
    constructor
    · rfl
    · rfl
    · rfl
    · decide +kernel
    · have hnone : (identify ⟨true, true, true, 512⟩ ⟨0xff, 1, 2, 0xff⟩
          (failingDisk.image.buffered ⟨true, true, true, 512⟩ (getSizeBits 512) (fun _ => 0) 0) 0).isNone = true := by
        decide +kernel
      exact Option.isNone_iff_eq_none.mp hnone
    · decide +kernel
    · decide +kernel
    · decide +kernel
    · decide +kernel
  have hfits : (failingDisk.entryArray ⟨true, true, true, 512⟩
      ⟨⟨0xff, 1, 2, 0xff⟩, fun _ => [], some fun _ => 0, some fun _ => 0⟩ 512 fun _ => 0).Fits
        ⟨true, true, true, 512⟩ := by
    constructor
    · decide +kernel
    · decide +kernel
  obtain ⟨parts, t, henum, hparts, hstate, -⟩ := gpt_enumeration _ _ failingDisk 512 _ hgpt hfits
  refine ⟨parts, t, henum, ?_, ?_⟩
  · have hlength := congrArg List.length hparts
    rw [List.length_map, List.length_map] at hlength
    exact hlength.trans (by decide +kernel)
  · exact hstate.trans (by decide +kernel)

end DiskStorage
