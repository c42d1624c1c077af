import Mathlib.Data.Prod.Lex
import DiskStorage.Scanner.Termination
import DiskStorage.Scanner.Entries
import DiskStorage.Lib.Extents

/-! Where the partitions of a scan lie, against the sectors that the tables assign to them. -/
namespace DiskStorage
open ByteStore LittleEndian

variable {b : Build}

/-- The bytes of a partition. -/
def PartInfo.bytes (part : PartInfo b) : Set Nat := Set.Ico part.offset (part.offset + part.size)

/-- What a table entry assigns to a partition: the sectors from `first` up to `stop`. The
scanner computes with byte positions below `limit`. `volume` is the size of the volume
whose boot sector is in the first sector, where the scanner looks for one. -/
structure TableEntry where
  first : Nat
  stop : Nat
  limit : Nat
  volume : Option Nat

namespace TableEntry
variable (shift : Nat) (e : TableEntry)

def length : Nat := (e.stop - e.first) * 2 ^ shift

def bytes : Set Nat := Set.Ico (e.first * 2 ^ shift) (e.stop * 2 ^ shift)

/-- Start and length can be held as byte counts. -/
structure Representable : Prop where
  ordered : e.first ≤ e.stop
  start_lt : e.first * 2 ^ shift < e.limit
  length_lt : e.length shift < e.limit

/-- There is a boot sector of a volume that is larger than the sectors assigned. -/
def Overgrown : Prop := ∃ size, e.volume = some size ∧ e.length shift < size

end TableEntry

/-- A partition that starts where its entry says, and has the size of the volume in its first
sector or else of the sectors assigned to it. -/
structure PartInfo.Follows (part : PartInfo b) (shift : Nat) (e : TableEntry) : Prop where
  offset_eq : part.offset = e.first * 2 ^ shift
  size_eq : part.size = e.volume.getD (e.length shift)

/-- Such a partition stays inside its entry, whatever is in its first sector, unless that is
the boot sector of a larger volume. -/
theorem PartInfo.Follows.subset {part : PartInfo b} {shift : Nat} {e : TableEntry} (h : part.Follows shift e)
    (hrep : e.Representable shift) (hvolume : ¬ e.Overgrown shift) : part.bytes ⊆ e.bytes shift := by
  have hsize : part.size ≤ e.length shift := by
    rw [h.size_eq]
    cases hv : e.volume with
    | none => exact le_rfl
    | some size => exact Nat.le_of_not_lt fun hlt => hvolume ⟨size, hv, hlt⟩
  have hlen : e.first * 2 ^ shift + e.length shift = e.stop * 2 ^ shift := by
    rw [TableEntry.length, ← Nat.add_mul, Nat.add_sub_cancel' hrep.ordered]
  apply Set.Ico_subset_Ico (Nat.le_of_eq h.offset_eq.symm)
  rw [h.offset_eq, ← hlen]
  exact Nat.add_le_add_left hsize _

namespace Image
variable (b : Build) (types : PartitionTypes) (im : Image) (shift : Nat)

/-- The size of the volume whose boot sector is in a sector. -/
def volumeAt (sector : Nat) : Option Nat := (identify b types (im.sectorAt b shift sector) 0).map PartInfo.size

/-- The `i`-th of the non-empty records in the `k`-th boot record, unless it is a link. -/
def mbrEntry (k i : Nat) : Option TableEntry :=
  (im.chain b shift k).bind fun lba =>
    ((((List.range 4).map fun i => mbrRecord (im.sectorAt b shift lba.toNat) i).filter fun rec =>
      rec.startingLba != 0 && rec.sizeInLba != 0)[i]?).bind fun rec =>
      let first := lba.toNat + rec.startingLba.toNat
      if rec.osType = OSTYPE_EXTENDED then none
      else some ⟨first, first + rec.sizeInLba.toNat, 2 ^ 32, im.volumeAt b types shift first⟩

/-- The `j`-th entry of the array at `lba`, if it is in use. -/
def gptEntry (lba j : Nat) : Option TableEntry :=
  let entriesPerSector := 2 ^ shift / GPT_ENTRY_SIZE
  let entry := GptEntry.decode (im.sectorAt b shift (lba + j / entriesPerSector))
    (j % entriesPerSector * GPT_ENTRY_SIZE)
  if entry.partitionTypeGuid.isNull then none
  else some ⟨entry.startingLba.toNat, entry.endingLba.toNat + 1, b.storageSize,
    if types.valid (smingMatch types entry.partitionTypeGuid) then none
    else im.volumeAt b types shift entry.startingLba.toNat⟩

/-- The entries of an opened table, by boot record and record or by their place in the array. -/
def tableEntry (sc : Scanner) (slot : Nat × Nat) : Option TableEntry :=
  match sc.state with
  | .mbr => im.mbrEntry b types sc.sectorSizeShift slot.1 slot.2
  | .gpt =>
    if slot.1 = 0 ∧ slot.2 < sc.numPartitionEntries then im.gptEntry b types sc.sectorSizeShift sc.sector slot.2
    else none
  | .idle | .error | .done => none

end Image

/-- The place in the table of the entry in front of which the scanner stands after `n` passes: a link
leads to the first record of the next boot record, any other entry to the one behind it. -/
def slotAt (b : Build) (env : ScanEnv) (s : Scanner × Image) : Nat → Nat × Nat
  | 0 => (0, s.1.partitionIndex)
  | n + 1 =>
    match ((passes b env (n + 1) s.1 s.2).map fun p => p.1.partitionIndex).getD 0 with
    | 0 => ((slotAt b env s n).1 + 1, 0)
    | i + 1 => ((slotAt b env s n).1, i + 1)

section Follows
variable {types : PartitionTypes} {env : ScanEnv} {f : Nat → UInt8} {shift : Nat}

variable (types) in
theorem identify_setOffset (offset : Nat) :
    identify b types f offset = (identify b types f 0).map fun p => p.setOffset offset := by
  rw [identify, identify]
  split_ifs <;> rfl

variable (types) in
theorem identify_getD (offset size : Nat) (name : List UInt8) (fullType : FullType) :
    let part := (identify b types f offset).getD (PartInfo.new name fullType offset size)
    part.offset = b.storage offset ∧
      part.size = ((identify b types f 0).map PartInfo.size).getD (b.storage size) := by
  rw [identify_setOffset]
  cases identify b types f 0 with
  | none => exact ⟨rfl, rfl⟩
  | some p => exact ⟨rfl, rfl⟩

private theorem mbrPart_follows {sc : Scanner} {entry : MbrRecord} {first : Nat}
    (hfirst : first % 2 ^ 32 = entry.startingLba.toNat) (hshift : sc.sectorSizeShift = shift)
    (hrep : TableEntry.Representable shift ⟨first, first + entry.sizeInLba.toNat, 2 ^ 32,
      (identify b env.types sc.buffer 0).map PartInfo.size⟩) :
    (mbrPart (b := b) env sc entry).Follows shift ⟨first, first + entry.sizeInLba.toNat, 2 ^ 32,
      (identify b env.types sc.buffer 0).map PartInfo.size⟩ := by
  have hstart : first * 2 ^ shift < 2 ^ 32 := hrep.start_lt
  have hlength : (first + entry.sizeInLba.toNat - first) * 2 ^ shift < 2 ^ 32 := hrep.length_lt
  have hle : first ≤ first * 2 ^ shift := Nat.le_mul_of_pos_right first (Nat.two_pow_pos shift)
  rw [Nat.mod_eq_of_lt (by omega)] at hfirst
  rw [Nat.add_sub_cancel_left] at hlength
  obtain ⟨hoffset, hsize⟩ := identify_getD (b := b) (f := sc.buffer) env.types
    (b.storage (entry.startingLba.toNat * 2 ^ shift % 2 ^ 32)) (entry.sizeInLba.toNat * 2 ^ shift % 2 ^ 32) []
    env.types.none
  rw [← hfirst, Nat.mod_eq_of_lt hstart, Build.storage_of_lt_word hstart, Nat.mod_eq_of_lt hlength] at hoffset hsize
  rw [Build.storage_of_lt_word hstart] at hoffset
  rw [Build.storage_of_lt_word hlength] at hsize
  subst hshift
  constructor
  · rw [mbrPart, ← hfirst, Nat.mod_eq_of_lt hstart, Build.storage_of_lt_word hstart, Nat.mod_eq_of_lt hlength]
    exact hoffset
  · rw [mbrPart, ← hfirst, Nat.mod_eq_of_lt hstart, Build.storage_of_lt_word hstart, Nat.mod_eq_of_lt hlength]
    rw [TableEntry.length, Nat.add_sub_cancel_left]
    exact hsize

private theorem gptPart_follows {entry : GptEntry} {volume : Option Nat}
    (hvolume : volume = if env.types.valid (smingMatch env.types entry.partitionTypeGuid) then none
      else (identify b env.types f 0).map PartInfo.size)
    (hrep : TableEntry.Representable shift
      ⟨entry.startingLba.toNat, entry.endingLba.toNat + 1, b.storageSize, volume⟩) :
    (gptPart (b := b) env shift entry f).Follows shift
      ⟨entry.startingLba.toNat, entry.endingLba.toNat + 1, b.storageSize, volume⟩ := by
  have hordered : entry.startingLba.toNat ≤ entry.endingLba.toNat + 1 := hrep.ordered
  have hstart : entry.startingLba.toNat * 2 ^ shift < b.storageSize := hrep.start_lt
  have hlength : (entry.endingLba.toNat + 1 - entry.startingLba.toNat) * 2 ^ shift < b.storageSize := hrep.length_lt
  have hle : entry.endingLba.toNat + 1 - entry.startingLba.toNat ≤
      (entry.endingLba.toNat + 1 - entry.startingLba.toNat) * 2 ^ shift :=
    Nat.le_mul_of_pos_right _ (Nat.two_pow_pos shift)
  have hsectors : (1 + entry.endingLba - entry.startingLba).toNat =
      entry.endingLba.toNat + 1 - entry.startingLba.toNat := by
    have := Build.lt_u64 hlength
    have := entry.startingLba.toNat_lt
    have := entry.endingLba.toNat_lt
    rw [UInt64.toNat_sub, UInt64.toNat_add, UInt64.toNat_one]
    omega
  have hoffset : b.storage (entry.startingLba.toNat * 2 ^ shift % 2 ^ 64) = entry.startingLba.toNat * 2 ^ shift := by
    rw [Nat.mod_eq_of_lt (Build.lt_u64 hstart), Build.storage_of_lt hstart]
  have hsize : b.storage ((1 + entry.endingLba - entry.startingLba).toNat * 2 ^ shift % 2 ^ 64) =
      (entry.endingLba.toNat + 1 - entry.startingLba.toNat) * 2 ^ shift := by
    rw [hsectors, Nat.mod_eq_of_lt (Build.lt_u64 hlength), Build.storage_of_lt hlength]
  subst hvolume
  rw [gptPart, hoffset, hsize]
  split
  · exact ⟨Build.storage_of_lt hstart, Build.storage_of_lt hlength⟩
  · obtain ⟨ho, hs⟩ := identify_getD (b := b) (f := f) env.types
      (entry.startingLba.toNat * 2 ^ shift)
      ((entry.endingLba.toNat + 1 - entry.startingLba.toNat) * 2 ^ shift) [] env.types.none
    rw [Build.storage_of_lt hstart] at ho
    rw [Build.storage_of_lt hlength] at hs
    exact ⟨ho, hs⟩

end Follows

section Run
variable {env : ScanEnv} {im : Image} {sc s₀ : Scanner} {shift k : Nat} {part : PartInfo b}

/-- A pass over a record makes the partition of it, with its first sector in the buffer. -/
theorem pass_record (hstate : sc.state = .mbr) (hshift : 9 ≤ sc.sectorSizeShift)
    (hpart : (DiskStorage.pass (b := b) env sc im).part = some part) :
    ∃ (entry : MbrRecord) (sc' : Scanner), sc.mbrEntries[sc.partitionIndex]? = some entry ∧
      entry.osType ≠ OSTYPE_EXTENDED ∧ sc'.sectorSizeShift = sc.sectorSizeShift ∧
      (∀ i < 512, sc'.buffer i = im.sectorAt b sc.sectorSizeShift entry.startingLba.toNat i) ∧
      part = mbrPart env sc' entry := by
  rw [DiskStorage.pass] at hpart
  split at hpart
  · rw [hstate] at hpart
    cases hentry : sc.mbrEntries[sc.partitionIndex]? with
    | none =>
      simp only [hentry] at hpart
      cases hpart
    | some entry =>
      simp only [hentry, passMbr, readSector_image] at hpart
      split at hpart
      · cases hpart
      · rename_i hread
        split at hread
        · cases hread
          split at hpart
          · cases hpart
          · rename_i htype
            cases hpart
            refine ⟨entry, _, rfl, htype, ?_, ?_, rfl⟩
            · rfl
            · exact fun i hi => patch_sector sc.buffer hshift _ hi
        · cases hread
  · cases hpart

theorem AtChain.pass_part (h : AtChain b im shift k sc) (hshift : 9 ≤ shift)
    (hpart : (DiskStorage.pass (b := b) env sc im).part = some part) :
    ∃ e, im.mbrEntry b env.types shift k sc.partitionIndex = some e ∧
    (e.Representable shift → part.Follows shift e) := by
  have hshift' := hshift
  rw [← h.shift_eq] at hshift'
  obtain ⟨entry, sc', hentry, htype, hsc', hbuffer, rfl⟩ := pass_record h.state hshift' hpart
  rw [h.shift_eq] at hsc' hbuffer
  obtain ⟨lba, hlba, hentries⟩ := Option.map_eq_some_iff.mp h.entries
  -- the record as it stands in its boot record
  obtain ⟨rec, hrec, rfl⟩ := Option.map_eq_some_iff.mp ((List.getElem?_map ..).symm.trans
    ((congrArg (·[sc.partitionIndex]?) hentries).trans hentry))
  rw [Image.mbrEntry, hlba, Option.bind_some, hrec, Option.bind_some]
  refine ⟨_, if_neg htype, fun hrep => ?_⟩
  have hstart : (lba.toNat + rec.startingLba.toNat) * 2 ^ shift < 2 ^ 32 := hrep.start_lt
  have hle := Nat.le_mul_of_pos_right (lba.toNat + rec.startingLba.toNat) (Nat.two_pow_pos shift)
  have hfirst : (lba.toNat + rec.startingLba.toNat) % 2 ^ 32 = (rec.startingLba + lba).toNat := by
    rw [UInt32.toNat_add, Nat.add_comm]
  have hlba' : (rec.startingLba + lba).toNat = lba.toNat + rec.startingLba.toNat := by
    rw [← hfirst, Nat.mod_eq_of_lt (by omega)]
  have hvolume : im.volumeAt b env.types shift (lba.toNat + rec.startingLba.toNat) =
      (identify b env.types sc'.buffer 0).map PartInfo.size := by
    rw [Image.volumeAt, ← hlba']
    exact congrArg _ (identify_congr (fun i hi => (hbuffer i hi).symm) env.types 0)
  rw [hvolume] at hrep ⊢
  exact mbrPart_follows hfirst hsc' hrep

variable (env) in
/-- A pass over an entry has the sector of the entry in the buffer. -/
theorem AtEntry.pass_cases (h : AtEntry (im.sectorAt b s₀.sectorSizeShift) s₀ sc) :
    ((DiskStorage.pass (b := b) env sc im).proceed = none ∧ (DiskStorage.pass (b := b) env sc im).part = none) ∨
      sc.partitionIndex < s₀.numPartitionEntries ∧ ∃ sc', Loaded (im.sectorAt b s₀.sectorSizeShift) s₀ sc' ∧
        sc'.partitionIndex = sc.partitionIndex ∧ DiskStorage.pass (b := b) env sc im = passGptEntry env sc' im := by
  have hposition := h.position
  rw [DiskStorage.pass]
  split
  · rename_i hlt
    rw [h.count] at hlt
    rw [h.state]
    simp only [passGpt, h.entriesPerSector_eq, readSector_image]
    split
    · rename_i hzero
      rw [if_pos hzero] at hposition
      split
      · exact Or.inl ⟨rfl, rfl⟩
      · rename_i hread
        split at hread
        · cases hread
          refine Or.inr ⟨hlt, _, h.load hzero fun i hi => ?_, rfl, rfl⟩
          rw [h.shift_eq, patch_slice sc.buffer im.bytes _ hi, Image.sectorAt, ← sectorAddress_mod, hposition,
            sectorAddress_mod]
        · cases hread
    · rename_i hne
      rw [if_neg hne] at hposition
      exact Or.inr ⟨hlt, sc, hposition, rfl, rfl⟩
  · exact Or.inl ⟨rfl, rfl⟩

theorem Loaded.succ {p : Scanner × Image} (h : Loaded (im.sectorAt b s₀.sectorSizeShift) s₀ sc)
    (hp : (passGptEntry (b := b) env sc im).proceed = some p) :
    p.2 = im ∧ p.1.partitionIndex = sc.partitionIndex + 1 ∧ AtEntry (im.sectorAt b s₀.sectorSizeShift) s₀ p.1 := by
  have hsame : p.2 = im ∧ SameArray s₀ p.1 ∧ p.1.partitionIndex = sc.partitionIndex + 1 ∧ p.1.sector = sc.sector ∧
      p.1.buffer = sc.buffer := by
    rw [passGptEntry] at hp
    split at hp
    · cases hp
      exact ⟨rfl, ⟨h.state, h.shift_eq, h.size_eq, h.count⟩, rfl, rfl, rfl⟩
    · split at hp
      · cases hp
        exact ⟨rfl, ⟨h.state, h.shift_eq, h.size_eq, h.count⟩, rfl, rfl, rfl⟩
      · simp only [readSector_image] at hp
        split at hp
        all_goals
          rename_i hread
          cases hp
          exact ⟨(congrArg Prod.snd hread).symm, ⟨h.state, h.shift_eq, h.size_eq, h.count⟩, rfl, rfl, rfl⟩
  obtain ⟨him, harray, hindex, hsector, hbuffer⟩ := hsame
  exact ⟨him, hindex, h.next harray hindex hsector hbuffer⟩

/-- One pass over an array goes on to the next entry. -/
theorem AtEntry.pass {p : Scanner × Image} (h : AtEntry (im.sectorAt b s₀.sectorSizeShift) s₀ sc)
    (hp : (DiskStorage.pass (b := b) env sc im).proceed = some p) :
    p.2 = im ∧ p.1.partitionIndex = sc.partitionIndex + 1 ∧ AtEntry (im.sectorAt b s₀.sectorSizeShift) s₀ p.1 := by
  obtain ⟨hnone, _⟩ | ⟨_, sc', hloaded, hindex, hpass⟩ := h.pass_cases env
  · rw [hnone] at hp
    cases hp
  · rw [hpass] at hp
    rw [← hindex]
    exact hloaded.succ hp

/-- The body of the loop makes the partition of the entry in the buffer, with its first sector in
the other buffer if that is needed. -/
theorem Loaded.pass_entry (h : Loaded (im.sectorAt b s₀.sectorSizeShift) s₀ sc) (hshift : 9 ≤ s₀.sectorSizeShift)
    (hpart : (passGptEntry (b := b) env sc im).part = some part) :
    ¬ sc.gptEntry.partitionTypeGuid.isNull ∧ ∃ f : Nat → UInt8,
      (¬ env.types.valid (smingMatch env.types sc.gptEntry.partitionTypeGuid) → ∀ i < 512,
        f i = im.sectorAt b s₀.sectorSizeShift sc.gptEntry.startingLba.toNat i) ∧
      part = gptPart env s₀.sectorSizeShift sc.gptEntry f := by
  rw [passGptEntry] at hpart
  split at hpart
  · cases hpart
  · rename_i hnull
    refine ⟨hnull, ?_⟩
    split at hpart
    · rename_i hvalid
      cases hpart
      rw [h.shift_eq]
      exact ⟨_, fun hinvalid => absurd hvalid hinvalid, rfl⟩
    · simp only [readSector_image, h.shift_eq] at hpart
      split at hpart
      · cases hpart
      · rename_i hread
        split at hread
        · cases hread
          cases hpart
          exact ⟨_, fun _ i hi => patch_sector sc.entryBuffer hshift _ hi, rfl⟩
        · cases hread

/-- The body of the loop returns the partition of the entry in the buffer. -/
theorem Loaded.pass_part (h : Loaded (im.sectorAt b s₀.sectorSizeShift) s₀ sc)
    (hs₀ : s₀.sectorSize = 2 ^ s₀.sectorSizeShift)
    (hshift : 9 ≤ s₀.sectorSizeShift) (hpart : (passGptEntry (b := b) env sc im).part = some part) :
    ∃ e, im.gptEntry b env.types s₀.sectorSizeShift s₀.sector sc.partitionIndex = some e ∧
      (e.Representable s₀.sectorSizeShift → part.Follows s₀.sectorSizeShift e) := by
  obtain ⟨hnull, f, hf, rfl⟩ := h.pass_entry hshift hpart
  have hentry := h.gptEntry_eq hs₀ hshift
  rw [Scanner.entriesPerSector, hs₀] at hentry
  rw [hentry] at hnull
  rw [Image.gptEntry]
  refine ⟨_, if_neg hnull, fun hrep => ?_⟩
  rw [← hentry] at hrep ⊢
  refine gptPart_follows ?_ hrep
  by_cases hvalid : env.types.valid (smingMatch env.types sc.gptEntry.partitionTypeGuid)
  · rw [if_pos hvalid, if_pos hvalid]
  · rw [if_neg hvalid, if_neg hvalid, Image.volumeAt]
    exact congrArg _ (identify_congr (fun i hi => (hf hvalid i hi).symm) env.types 0)

/-- The scanner is in front of an entry of the table opened as `s₀`, or behind the last one: in
the `k`-th boot record, or in the array. -/
def Stands (b : Build) (im : Image) (s₀ : Scanner) (k : Nat) (sc : Scanner) : Prop :=
  match s₀.state with
  | .mbr => 9 ≤ s₀.sectorSizeShift ∧ AtChain b im s₀.sectorSizeShift k sc
  | .gpt =>
    9 ≤ s₀.sectorSizeShift ∧ s₀.sectorSize = 2 ^ s₀.sectorSizeShift ∧ k = 0 ∧
      AtEntry (im.sectorAt b s₀.sectorSizeShift) s₀ sc
  | .idle | .error | .done => sc.partitionIndex = sc.numPartitionEntries

theorem stands_start {s : Scanner × Image} (h : opened b env im = some s) :
    s.2 = im ∧ Stands b im s.1 0 s.1 := by
  obtain ⟨him, ⟨hst, hend⟩ | ⟨hst, hshift, hsize, hzero⟩ | ⟨hst, hshift, hat, _⟩⟩ := opened_cases h
  · refine ⟨him, ?_⟩
    rw [Stands, hst]
    exact hend
  · refine ⟨him, ?_⟩
    rw [Stands, hst]
    exact ⟨hshift, hsize, rfl, AtEntry.start hst hzero⟩
  · refine ⟨him, ?_⟩
    rw [Stands, hst]
    exact ⟨hshift, hat⟩

/-- A pass leads to the next entry, or to the first one of the next boot record. -/
theorem Stands.pass {p : Scanner × Image} (h : Stands b im s₀ k sc)
    (hp : (DiskStorage.pass (b := b) env sc im).proceed = some p) :
    p.2 = im ∧ (Stands b im s₀ k p.1 ∧ p.1.partitionIndex = sc.partitionIndex + 1 ∨
      Stands b im s₀ (k + 1) p.1 ∧ p.1.partitionIndex = 0) := by
  simp only [Stands] at h ⊢
  cases hst : s₀.state with
  | mbr =>
    simp only [hst] at h ⊢
    obtain ⟨hshift, hat⟩ := h
    obtain hlt | hend := Nat.lt_or_eq_of_le hat.index
    · obtain ⟨sc', hsc', hnext⟩ := hat.pass env hshift hlt
      rw [hsc'] at hp
      cases hp
      refine ⟨rfl, hnext.imp ?_ ?_⟩
      · exact fun ⟨_, hat', _, hindex⟩ => ⟨⟨hshift, hat'⟩, hindex⟩
      · exact fun ⟨_, hat', hindex⟩ => ⟨⟨hshift, hat'⟩, hindex⟩
    · rw [hat.pass_end hend] at hp
      cases hp
  | gpt =>
    simp only [hst] at h ⊢
    obtain ⟨hshift, hsize, hk, hat⟩ := h
    obtain ⟨him, hindex, hat'⟩ := hat.pass hp
    exact ⟨him, Or.inl ⟨⟨hshift, hsize, hk, hat'⟩, hindex⟩⟩
  | idle | error | done =>
    simp only [hst] at h
    rw [DiskStorage.pass, if_neg (by omega)] at hp
    cases hp

private theorem Stands.pass_part (h : Stands b im s₀ k sc)
    (hpart : (DiskStorage.pass (b := b) env sc im).part = some part) :
    ∃ e, im.tableEntry b env.types s₀ (k, sc.partitionIndex) = some e ∧
      (e.Representable s₀.sectorSizeShift → part.Follows s₀.sectorSizeShift e) := by
  rw [Stands] at h
  rw [Image.tableEntry]
  cases hst : s₀.state with
  | mbr =>
    rw [hst] at h
    exact h.2.pass_part h.1 hpart
  | gpt =>
    rw [hst] at h
    obtain ⟨hshift, hsize, rfl, hat⟩ := h
    obtain ⟨_, hnone⟩ | ⟨hlt, sc', hloaded, hindex, hpass⟩ := hat.pass_cases env
    · rw [hnone] at hpart
      cases hpart
    · rw [hpass] at hpart
      obtain ⟨e, he, hfollows⟩ := hloaded.pass_part hsize hshift hpart
      rw [hindex] at he
      exact ⟨e, (if_pos ⟨rfl, hlt⟩).trans he, hfollows⟩
  | idle | error | done =>
    rw [hst] at h
    rw [DiskStorage.pass, if_neg (by simp only at h; omega)] at hpart
    cases hpart

section Slots
variable {s : Scanner × Image} {m n : Nat}

theorem slotAt_succ (h : passes b env (n + 1) s.1 s.2 = some (sc, im)) :
    (sc.partitionIndex = 0 → slotAt b env s (n + 1) = ((slotAt b env s n).1 + 1, 0)) ∧
    (sc.partitionIndex ≠ 0 → slotAt b env s (n + 1) = ((slotAt b env s n).1, sc.partitionIndex)) := by
  rw [slotAt, h, Option.map_some, Option.getD_some]
  cases sc.partitionIndex with
  | zero => exact ⟨fun _ => rfl, fun hne => absurd rfl hne⟩
  | succ i => exact ⟨fun h => absurd h i.succ_ne_zero, fun _ => rfl⟩

private theorem stands_slot (hs : opened b env im = some s) {p : Scanner × Image}
    (hn : passes b env n s.1 s.2 = some p) :
    p.2 = im ∧ Stands b im s.1 (slotAt b env s n).1 p.1 ∧ (slotAt b env s n).2 = p.1.partitionIndex ∧
      ∀ m < n, toLex (slotAt b env s m) < toLex (slotAt b env s n) := by
  induction n generalizing p with
  | zero =>
    cases hn
    obtain ⟨him, hstart⟩ := stands_start hs
    exact ⟨him, hstart, rfl, fun m hm => absurd hm m.not_lt_zero⟩
  | succ n ih =>
    have hsplit := hn
    rw [passes_add] at hsplit
    obtain ⟨⟨sc, d⟩, hsc, hstep⟩ := Option.bind_eq_some_iff.mp hsplit
    obtain ⟨hd, hstands, hindex, hbefore⟩ := ih hsc
    obtain ⟨⟨sc', d'⟩, hpass, hp⟩ := Option.bind_eq_some_iff.mp hstep
    cases hp
    dsimp only at hd hstands hindex
    subst hd
    obtain ⟨him, hnext⟩ := hstands.pass hpass
    dsimp only at him
    subst him
    obtain ⟨hzero, hne⟩ := slotAt_succ hn
    -- it is enough to compare the slot with the one in front of it
    have hlater : toLex (slotAt b env s n) < toLex (slotAt b env s (n + 1)) →
        ∀ m < n + 1, toLex (slotAt b env s m) < toLex (slotAt b env s (n + 1)) := by
      intro hlt m hm
      obtain hm | rfl := Nat.lt_succ_iff_lt_or_eq.mp hm
      · exact (hbefore m hm).trans hlt
      · exact hlt
    rcases hnext with ⟨hat, hi⟩ | ⟨hat, hi⟩
    · have hslot := hne (by rw [hi]; exact Nat.succ_ne_zero _)
      refine ⟨rfl, ?_, ?_, hlater ?_⟩
      · rw [hslot]
        exact hat
      · rw [hslot]
      · rw [hslot, Prod.Lex.toLex_lt_toLex, hindex, hi]
        exact Or.inr ⟨rfl, Nat.lt_succ_self _⟩
    · have hslot := hzero hi
      refine ⟨rfl, ?_, ?_, hlater ?_⟩
      · rw [hslot]
        exact hat
      · rw [hslot, hi]
      · rw [hslot, Prod.Lex.toLex_lt_toLex]
        exact Or.inl (Nat.lt_succ_self _)

/-- Where the scanner stands when it returns a partition. -/
theorem stands_returned (hs : opened b env im = some s) (hret : returnedAt b env s n = some part) :
    ∃ sc, passes b env n s.1 s.2 = some (sc, im) ∧ Stands b im s.1 (slotAt b env s n).1 sc ∧
      (slotAt b env s n).2 = sc.partitionIndex ∧ (DiskStorage.pass (b := b) env sc im).part = some part := by
  obtain ⟨⟨sc, d⟩, hn, hpart⟩ := Option.bind_eq_some_iff.mp hret
  obtain ⟨him, hstands, hindex, _⟩ := stands_slot hs hn
  dsimp only at him hpart
  subst him
  exact ⟨sc, hn, hstands, hindex, hpart⟩

theorem returned_in_order (hs : opened b env im = some s) (hmn : m < n) (hret : returnedAt b env s n = some part) :
    toLex (slotAt b env s m) < toLex (slotAt b env s n) := by
  obtain ⟨_, hn, _⟩ := stands_returned hs hret
  exact (stands_slot hs hn).2.2.2 m hmn

theorem returned_entry (hs : opened b env im = some s) (hret : returnedAt b env s n = some part) :
    ∃ e, im.tableEntry b env.types s.1 (slotAt b env s n) = some e ∧
      (e.Representable s.1.sectorSizeShift → part.Follows s.1.sectorSizeShift e) := by
  obtain ⟨sc, _, hstands, hindex, hpart⟩ := stands_returned hs hret
  have hslot : slotAt b env s n = ((slotAt b env s n).1, sc.partitionIndex) := by rw [← hindex]
  rw [hslot]
  exact hstands.pass_part hpart

end Slots

end Run

/-- Each partition that next returns is that of the entry in front of which the scanner stands, and these
entries come in the order of the table. Where the entry can be represented the partition lies where the entry
says, and inside it unless the first sector is the boot sector of a larger volume. So the partitions of two
disjoint entries are disjoint, when there is no such boot sector. -/
theorem scanned_extents_follow_entries (b : Build) (env : ScanEnv) (im : Image) (s : Scanner × Image)
    (hs : opened b env im = some s) :
    (∀ n fuel sc sc' device device' part, passes b env n s.1 s.2 = some (sc, device) →
      nextLoop (b := b) env fuel sc device = some (some (some part, sc', device')) →
      ∃ m, returnedAt b env s m = some part ∧ n ≤ m) ∧
    (∀ n part, returnedAt b env s n = some part → ∃ e,
      im.tableEntry b env.types s.1 (slotAt b env s n) = some e ∧
      (e.Representable s.1.sectorSizeShift → part.Follows s.1.sectorSizeShift e ∧
        (¬ e.Overgrown s.1.sectorSizeShift → part.bytes ⊆ e.bytes s.1.sectorSizeShift))) ∧
    (∀ m n p q, m < n → returnedAt b env s m = some p → returnedAt b env s n = some q →
      toLex (slotAt b env s m) < toLex (slotAt b env s n) ∧
      ∀ e e', im.tableEntry b env.types s.1 (slotAt b env s m) = some e →
        im.tableEntry b env.types s.1 (slotAt b env s n) = some e' →
        e.Representable s.1.sectorSizeShift → e'.Representable s.1.sectorSizeShift →
        ¬ e.Overgrown s.1.sectorSizeShift → ¬ e'.Overgrown s.1.sectorSizeShift →
        Disjoint (e.bytes s.1.sectorSizeShift) (e'.bytes s.1.sectorSizeShift) → Disjoint p.bytes q.bytes) := by
  refine ⟨?_, ?_, ?_⟩
  · intro n fuel sc sc' device device' part hn hnext
    obtain ⟨m, hm, _⟩ := nextLoop_returned hnext
    refine ⟨n + m, ?_, Nat.le_add_right n m⟩
    rw [returnedAt, passes_add, hn]
    exact hm
  · intro n part hret
    obtain ⟨e, he, hfollows⟩ := returned_entry hs hret
    exact ⟨e, he, fun hrep => ⟨hfollows hrep, (hfollows hrep).subset hrep⟩⟩
  · intro m n p q hmn hp hq
    refine ⟨returned_in_order hs hmn hq, ?_⟩
    intro e e' he he' hrep hrep' hvolume hvolume' hdisjoint
    obtain ⟨_, hslot, hfollows⟩ := returned_entry hs hp
    obtain ⟨_, hslot', hfollows'⟩ := returned_entry hs hq
    cases he.symm.trans hslot
    cases he'.symm.trans hslot'
    exact hdisjoint.mono ((hfollows hrep).subset hrep hvolume) ((hfollows' hrep').subset hrep' hvolume')

/-- Two records of one sector each, for sectors 1 and 2. A FAT32 boot sector of `sectors`
sectors is in sector 1, or nothing if there are none. -/
def staleImage (sectors : UInt8) : Image where
  bytes i :=
    if i < 512 then
      if i = 510 then 0x55 else if i = 511 then 0xaa
      else if i = 450 ∨ i = 466 then 0x0c
      else if i = 454 ∨ i = 458 ∨ i = 474 then 1
      else if i = 470 then 2
      else 0
    else if i < 1024 ∧ sectors ≠ 0 then
      if i = 512 then 0xeb
      else if i = 512 + 12 then 2
      else if i = 512 + 32 then sectors
      else if 512 + 82 ≤ i ∧ i < 512 + 90 then (ascii "FAT32   ").getD (i - 594) 0
      else if i = 1022 then 0x55 else if i = 1023 then 0xaa
      else 0
    else 0
  readable _ _ := true
  sectorSize := 512
  sectorCount := 3

theorem scanned_extents_follow_entries_two_records :
    ∃ s part, opened ⟨true, true, true, 512⟩
        ⟨⟨0xff, 1, 2, 0xff⟩, fun _ => [], some fun _ => 0, some fun _ => 0⟩ (staleImage 0) = some s ∧
      returnedAt ⟨true, true, true, 512⟩
        ⟨⟨0xff, 1, 2, 0xff⟩, fun _ => [], some fun _ => 0, some fun _ => 0⟩ s 1 = some part ∧
      ∃ e, (staleImage 0).tableEntry ⟨true, true, true, 512⟩ ⟨0xff, 1, 2, 0xff⟩ s.1 (0, 1) = some e ∧
        (e.Representable s.1.sectorSizeShift → part.Follows s.1.sectorSizeShift e) := by
  have hmap : ((opened ⟨true, true, true, 512⟩
      ⟨⟨0xff, 1, 2, 0xff⟩, fun _ => [], some fun _ => 0, some fun _ => 0⟩ (staleImage 0)).map fun s =>
        (slotAt ⟨true, true, true, 512⟩
          ⟨⟨0xff, 1, 2, 0xff⟩, fun _ => [], some fun _ => 0, some fun _ => 0⟩ s 1, (returnedAt ⟨true, true, true, 512⟩
          ⟨⟨0xff, 1, 2, 0xff⟩, fun _ => [], some fun _ => 0, some fun _ => 0⟩ s 1).map fun p => (p.offset, p.size))) =
      some ((0, 1), some (1024, 512)) := by decide +kernel
  obtain ⟨s, hs, hmap⟩ := Option.map_eq_some_iff.mp hmap
  obtain ⟨hslot, hmap⟩ := Prod.mk.inj hmap
  obtain ⟨part, hpart, _⟩ := Option.map_eq_some_iff.mp hmap
  obtain ⟨e, he, hfollows⟩ := (scanned_extents_follow_entries _ _ _ s hs).2.1 1 part hpart
  rw [hslot] at he
  exact ⟨s, part, hs, hpart, e, he, fun hrep => (hfollows hrep).1⟩

/-- With a boot sector of four sectors, the partition of the first record is larger than the record. -/
theorem stale_boot_sector_reaches_over :
    ¬ ∀ s, opened ⟨true, true, true, 512⟩
        ⟨⟨0xff, 1, 2, 0xff⟩, fun _ => [], some fun _ => 0, some fun _ => 0⟩ (staleImage 4) = some s →
      (∀ n part, returnedAt ⟨true, true, true, 512⟩
          ⟨⟨0xff, 1, 2, 0xff⟩, fun _ => [], some fun _ => 0, some fun _ => 0⟩ s n = some part →
        ∃ slot e, (staleImage 4).tableEntry ⟨true, true, true, 512⟩ ⟨0xff, 1, 2, 0xff⟩ s.1 slot = some e ∧
          part.bytes ⊆ e.bytes s.1.sectorSizeShift) ∧
      ((∀ slot slot' e e', slot ≠ slot' →
          (staleImage 4).tableEntry ⟨true, true, true, 512⟩ ⟨0xff, 1, 2, 0xff⟩ s.1 slot = some e →
          (staleImage 4).tableEntry ⟨true, true, true, 512⟩ ⟨0xff, 1, 2, 0xff⟩ s.1 slot' = some e' →
          Disjoint (e.bytes s.1.sectorSizeShift) (e'.bytes s.1.sectorSizeShift)) →
        ∀ m n p q, m < n →
          returnedAt ⟨true, true, true, 512⟩
            ⟨⟨0xff, 1, 2, 0xff⟩, fun _ => [], some fun _ => 0, some fun _ => 0⟩ s m = some p →
          returnedAt ⟨true, true, true, 512⟩
            ⟨⟨0xff, 1, 2, 0xff⟩, fun _ => [], some fun _ => 0, some fun _ => 0⟩ s n = some q →
          Disjoint p.bytes q.bytes) := by
  have hmap : ((opened ⟨true, true, true, 512⟩
      ⟨⟨0xff, 1, 2, 0xff⟩, fun _ => [], some fun _ => 0, some fun _ => 0⟩ (staleImage 4)).map fun s =>
        ((s.1.state, s.1.sectorSizeShift), (returnedAt ⟨true, true, true, 512⟩
          ⟨⟨0xff, 1, 2, 0xff⟩, fun _ => [], some fun _ => 0, some fun _ => 0⟩ s 0).map fun p => (p.offset, p.size))) =
      some ((.mbr, 9), some (512, 2048)) := by decide +kernel
  obtain ⟨s, hs, heq⟩ := Option.map_eq_some_iff.mp hmap
  obtain ⟨part, hpart, hextent⟩ := Option.map_eq_some_iff.mp (congrArg Prod.snd heq)
  have hstate : s.1.state = .mbr := congrArg (fun x => x.1.1) heq
  have hshift : s.1.sectorSizeShift = 9 := congrArg (fun x => x.1.2) heq
  intro h
  obtain ⟨slot, e, he, hsub⟩ := (h s hs).1 0 part hpart
  -- the table has no other boot record than that in sector 0, and no record there goes beyond sector 3
  rw [Image.tableEntry, hstate, hshift] at he
  obtain ⟨lba, hlba, hrest⟩ := Option.bind_eq_some_iff.mp he
  obtain ⟨rec, hrec, heq'⟩ := Option.bind_eq_some_iff.mp hrest
  have hend : (staleImage 4).chain ⟨true, true, true, 512⟩ 9 1 = none := by decide +kernel
  have hzero : lba = 0 := by
    rcases hk : slot.1 with _ | k
    · rw [hk] at hlba
      exact (Option.some.inj hlba).symm
    · rw [hk, Image.chain, Walks.walk_none (Nat.succ_le_of_lt k.succ_pos) hend] at hlba
      cases hlba
  subst hzero
  have hall : ∀ rec ∈ ((List.range 4).map fun i => mbrRecord
      ((staleImage 4).sectorAt ⟨true, true, true, 512⟩ 9 (0 : UInt32).toNat) i).filter fun rec =>
      rec.startingLba != 0 && rec.sizeInLba != 0, rec.startingLba.toNat + rec.sizeInLba.toNat ≤ 3 := by decide +kernel
  have hstop := hall rec (List.mem_of_getElem? hrec)
  have hsize : part.offset + part.size = 2560 := by
    rw [show part.offset = 512 from congrArg Prod.fst hextent, show part.size = 2048 from congrArg Prod.snd hextent]
  have hmem : 2559 ∈ e.bytes s.1.sectorSizeShift := by
    refine hsub ⟨?_, ?_⟩
    · rw [show part.offset = 512 from congrArg Prod.fst hextent]
      decide
    · rw [hsize]
      decide
  split at heq'
  · cases heq'
  · cases heq'
    rw [hshift] at hmem
    have hlt : 2559 < ((0 : UInt32).toNat + rec.startingLba.toNat + rec.sizeInLba.toNat) * 2 ^ 9 := hmem.2
    rw [show (0 : UInt32).toNat = 0 from rfl] at hlt
    omega

end DiskStorage
