import DiskStorage.Format.Gpt
import Mathlib.Tactic.IntervalCases

/-! What the loop over the entries writes: the same entry array twice. -/
namespace DiskStorage
open ByteStore LittleEndian

/-- A size of sectors that a `uint16_t` can hold: a power of two, of 512 bytes at least. -/
structure SectorUnit (size : Nat) : Prop where
  pow : size = 2 ^ getSizeBits size
  min_le : DISK_MIN_SECTOR_SIZE ≤ size
  lt : size < 2 ^ 16

namespace SectorUnit
variable {size : Nat} (h : SectorUnit size)
include h

theorem bits : 9 ≤ getSizeBits size ∧ getSizeBits size < 16 := by
  have hne : size ≠ 0 := (Nat.lt_of_lt_of_le (by decide) h.min_le).ne'
  exact ⟨(Nat.le_log2 hne).mpr h.min_le, (Nat.log2_lt hne).mpr h.lt⟩

theorem pos : 0 < size := Nat.lt_of_lt_of_le (by decide) h.min_le

theorem dvd : size ∣ PARTITION_ALIGN := by
  rw [h.pow]
  exact Nat.pow_dvd_pow 2 (Nat.le_trans (Nat.le_of_lt h.bits.2) (show 16 ≤ 20 by decide))

end SectorUnit

namespace GPT
variable {b : Build}

namespace Layout

theorem backup_eq_of_le (l : Layout b) (hdrive : l.driveSectors < b.storageSize)
    (hroom : l.numPartitionTableSectors + 1 ≤ l.driveSectors) :
    l.backupPartitionTableSector = l.driveSectors - l.numPartitionTableSectors - 1 := by
  have hcommon : b.storageSize ≤ commonSize b := by
    rw [commonSize, Build.storageSize]
    cases b.size64 <;> cases b.sizeT64 <;> decide
  have hsplit : l.driveSectors + (commonSize b - l.numPartitionTableSectors - 1) =
      l.driveSectors - l.numPartitionTableSectors - 1 + commonSize b := by omega
  rw [backupPartitionTableSector, hsplit, Nat.add_mod_right, Nat.mod_eq_of_lt (by omega)]

theorem sectorAddress_eq_of_lt (l : Layout b) (hpow : l.sectorSize = 2 ^ l.shift)
    (hdrive : l.driveSectors < b.storageSize)
    (hbytes : l.driveSectors * l.sectorSize < b.storageSize) {sector : Nat} (hs : sector < l.driveSectors) :
    sectorAddress b l.shift sector = sector * l.sectorSize := by
  have hlt : sector * l.sectorSize < b.storageSize := Nat.lt_of_le_of_lt (Nat.mul_le_mul_right _ hs.le) hbytes
  rw [sectorAddress, Build.storage_of_lt (Nat.lt_trans hs hdrive), ← hpow, Build.storage_of_lt hlt]

section
variable {l : Layout b}

theorem tables_le (h : SectorUnit l.sectorSize) :
    2 + l.numPartitionTableSectors ≤ l.partAlignSectors ∧
      2 * l.sectorSize + GPT_ITEMS * GPT_ENTRY_SIZE ≤ PARTITION_ALIGN := by
  obtain ⟨hlo, hhi⟩ : 9 ≤ l.shift ∧ l.shift < 16 := h.bits
  have hpow : l.sectorSize = 2 ^ l.shift := h.pow
  rw [hpow, numPartitionTableSectors, partAlignSectors]
  generalize l.shift = s at hlo hhi
  interval_cases s <;> decide

theorem firstAllocatable_eq (h : SectorUnit l.sectorSize) : l.firstAllocatableSector = l.partAlignSectors := by
  have hroom := (tables_le h).1
  have hpos : 0 < l.partAlignSectors := by omega
  have hle : 2 + l.numPartitionTableSectors ≤ l.firstAllocatableSector := Extents.le_roundUp hpos
  refine Nat.le_antisymm (Extents.roundUp_le hpos dvd_rfl hroom) ?_
  exact Nat.le_of_dvd (by omega) (Extents.dvd_roundUp _ _)

theorem firstAllocatable_mul (h : SectorUnit l.sectorSize) :
    l.firstAllocatableSector * l.sectorSize = PARTITION_ALIGN := by
  have hpow : l.sectorSize = 2 ^ l.shift := h.pow
  rw [firstAllocatable_eq h, partAlignSectors, ← hpow]
  exact Nat.div_mul_cancel h.dvd

theorem backup_lt : l.backupPartitionTableSector < 2 ^ 64 := by
  refine Nat.lt_of_lt_of_le (Nat.mod_lt _ ?_) (?_ : commonSize b ≤ 2 ^ 64)
  all_goals
    rw [commonSize]
    split <;> decide

/-- The sector size is one that is supported, the reserved sectors are on the device, and its byte addresses
can be represented. -/
structure Roomy (l : Layout b) : Prop where
  unit : SectorUnit l.sectorSize
  room : l.firstAllocatableSector + (l.numPartitionTableSectors + 1) ≤ l.driveSectors
  bytes_lt : l.driveSectors * l.sectorSize < b.storageSize

namespace Roomy
variable (h : l.Roomy)
include h

theorem pow : l.sectorSize = 2 ^ l.shift := h.unit.pow

theorem min_le : DISK_MIN_SECTOR_SIZE ≤ l.sectorSize := h.unit.min_le

theorem shift_le : 9 ≤ l.shift := h.unit.bits.1

theorem size_pos : 0 < l.sectorSize := h.unit.pos

theorem entries_mul : l.entriesPerSector * GPT_ENTRY_SIZE = l.sectorSize := by
  apply Nat.div_mul_cancel
  rw [h.pow]
  exact Nat.pow_dvd_pow 2 (Nat.le_trans (show 7 ≤ 9 by decide) h.shift_le)

theorem entries_pos : 0 < l.entriesPerSector := by
  have hmul := h.entries_mul
  have hpos := h.size_pos
  apply Nat.pos_of_ne_zero
  intro hzero
  rw [hzero, Nat.zero_mul] at hmul
  omega

theorem items_div : GPT_ITEMS / l.entriesPerSector = l.numPartitionTableSectors := by
  rw [numPartitionTableSectors, ← h.pow, ← h.entries_mul, Nat.mul_div_mul_right _ _ (by decide)]

theorem arraySector_lt {index : Nat} (hindex : index < GPT_ITEMS)
    (hfull : index % l.entriesPerSector + 1 = l.entriesPerSector) :
    index / l.entriesPerSector < l.numPartitionTableSectors := by
  have hsplit := Nat.div_add_mod index l.entriesPerSector
  rw [← h.items_div]
  refine (Nat.le_div_iff_mul_le h.entries_pos).mpr ?_
  rw [Nat.succ_mul, Nat.mul_comm]
  omega

theorem table_zero (hnot : ¬ l.sectorSize ∣ GPT_ITEMS * GPT_ENTRY_SIZE) : l.numPartitionTableSectors = 0 := by
  have hbytes : GPT_ITEMS * GPT_ENTRY_SIZE = 2 ^ 14 := by decide
  have hpow := h.pow
  rw [hpow, hbytes, Nat.pow_dvd_pow_iff_le_right (by decide)] at hnot
  rw [numPartitionTableSectors, hbytes]
  exact Nat.div_eq_of_lt (Nat.pow_lt_pow_right (by decide) (Nat.lt_of_not_le hnot))

theorem items_mod (hdvd : l.sectorSize ∣ GPT_ITEMS * GPT_ENTRY_SIZE) : GPT_ITEMS % l.entriesPerSector = 0 := by
  rw [← h.entries_mul] at hdvd
  exact Nat.mod_eq_zero_of_dvd (Nat.dvd_of_mul_dvd_mul_right (by decide) hdvd)

theorem first_le : 2 + l.numPartitionTableSectors ≤ l.firstAllocatableSector := by
  rw [firstAllocatable_eq h.unit]
  exact (tables_le h.unit).1

theorem drive_lt : l.driveSectors < b.storageSize :=
  Nat.lt_of_le_of_lt (Nat.le_mul_of_pos_right _ h.size_pos) h.bytes_lt

theorem backup_eq : l.backupPartitionTableSector = l.driveSectors - l.numPartitionTableSectors - 1 := by
  have := h.room
  exact l.backup_eq_of_le h.drive_lt (by omega)

theorem tables_apart : 2 + l.numPartitionTableSectors ≤ l.backupPartitionTableSector := by
  have := h.backup_eq
  have := h.room
  have := h.first_le
  omega

theorem allocatable_eq : l.allocatableSectors = l.driveSectors - l.reserved := by
  have hroom := h.room
  have hbackup := h.backup_eq
  have hlt := l.backup_lt
  rw [reserved, allocatableSectors, u64]
  omega

theorem sectorAddress_eq {sector : Nat} (hs : sector < l.driveSectors) :
    sectorAddress b l.shift sector = sector * l.sectorSize :=
  l.sectorAddress_eq_of_lt h.pow h.drive_lt h.bytes_lt hs

end Roomy

end

/-- A layout with room for both tables, of which the entries fill whole sectors. -/
structure Fits (l : Layout b) : Prop extends Roomy l where
  aligned : l.sectorSize ∣ GPT_ITEMS * GPT_ENTRY_SIZE

namespace Fits
variable {l : Layout b} (h : l.Fits)
include h

theorem table_mul : l.numPartitionTableSectors * l.sectorSize = GPT_ITEMS * GPT_ENTRY_SIZE := by
  rw [numPartitionTableSectors, ← h.pow]
  exact Nat.div_mul_cancel h.aligned

theorem items : l.numPartitionTableSectors * l.entriesPerSector = GPT_ITEMS := by
  have htable := h.table_mul
  rw [← h.entries_mul, ← Nat.mul_assoc] at htable
  exact Nat.mul_right_cancel (by decide) htable

theorem table_pos : 0 < l.numPartitionTableSectors := by
  have := h.items
  apply Nat.pos_of_ne_zero
  intro hzero
  rw [hzero, GPT_ITEMS] at this
  omega

end Fits

end Layout

variable (l : Layout b) (parts : List (PartInfo b))

/-- The bytes of the `j`-th entry. -/
def entryBytes (j : Nat) : List UInt8 :=
  (parts[j]?).elim (List.replicate GPT_ENTRY_SIZE 0) fun part => (entryOf l.shift part).encode

/-- The entry array, byte by byte. -/
def arrayBytes (x : Nat) : UInt8 := (entryBytes l parts (x / GPT_ENTRY_SIZE)).getD (x % GPT_ENTRY_SIZE) 0

/-- The checksum of the entry array. -/
def arrayCrc : UInt32 := crc32 0 (slice (arrayBytes l parts) 0 (GPT_ITEMS * GPT_ENTRY_SIZE))

/-- A device with the first `q` sectors of both tables written. -/
def tablesWritten (f : Nat → UInt8) (q : Nat) : Nat → UInt8 :=
  patch (patch f (2 * l.sectorSize) (slice (arrayBytes l parts) 0 (q * l.sectorSize)))
    (l.backupPartitionTableSector * l.sectorSize) (slice (arrayBytes l parts) 0 (q * l.sectorSize))

@[simp] theorem length_entryBytes (j : Nat) : (entryBytes l parts j).length = GPT_ENTRY_SIZE := by
  rw [entryBytes]
  cases parts[j]? with
  | none => exact List.length_replicate
  | some part => exact GptEntry.length_encode _

theorem arrayBytes_entry (j : Nat) {y : Nat} (hy : y < GPT_ENTRY_SIZE) :
    arrayBytes l parts (j * GPT_ENTRY_SIZE + y) = (entryBytes l parts j).getD y 0 := by
  rw [GPT_ENTRY_SIZE] at hy
  have hdiv : (j * GPT_ENTRY_SIZE + y) / GPT_ENTRY_SIZE = j := by
    rw [GPT_ENTRY_SIZE]
    omega
  have hmod : (j * GPT_ENTRY_SIZE + y) % GPT_ENTRY_SIZE = y := by
    rw [GPT_ENTRY_SIZE]
    omega
  rw [arrayBytes, hdiv, hmod]

theorem slice_arrayBytes (j : Nat) :
    slice (arrayBytes l parts) (j * GPT_ENTRY_SIZE) GPT_ENTRY_SIZE = entryBytes l parts j := by
  apply List.ext_getElem (by rw [slice_length, length_entryBytes])
  intro i hi hi'
  rw [slice_length] at hi
  rw [getElem_slice, arrayBytes_entry l parts j hi]
  exact (List.getElem_eq_getD 0).symm

theorem arrayBytes_behind {parts : List (PartInfo b)} {n x : Nat} (hlen : parts.length ≤ n)
    (hx : n * GPT_ENTRY_SIZE ≤ x) : arrayBytes l parts x = 0 := by
  have hbehind : parts.length ≤ x / GPT_ENTRY_SIZE := hlen.trans ((Nat.le_div_iff_mul_le (by decide)).mpr hx)
  rw [arrayBytes, entryBytes, List.getElem?_eq_none hbehind, Option.elim_none, List.getD_eq_getElem?_getD,
    List.getElem?_replicate]
  split
  · rfl
  · rfl

section Names

theorem widen_toUInt8 (c : UInt8) : (widen b c).toUInt8 = c := by
  have hc := c.toNat_lt
  rw [← UInt8.toNat_inj, UInt16.toNat_toUInt8, widen, UInt16.toNat_add, UInt8.toNat_toUInt16]
  split
  · rw [show (0xff00 : UInt16).toNat = 0xff00 from rfl]
    omega
  · rw [UInt16.toNat_zero]
    omega

theorem widen_ne_zero {c : UInt8} (h : c ≠ 0) : widen b c ≠ 0 := by
  intro hzero
  have hc := widen_toUInt8 (b := b) c
  rw [hzero] at hc
  exact h hc.symm

end Names

/-- The locals of the loop in front of an entry: what has been taken into the checksum, and what
of the present sector is in the buffer. -/
structure LoopState (index : Nat) (st : EntryLoop b) : Prop where
  part_eq : st.part = parts.drop index
  bcc_eq : st.bcc = crc32 0 (slice (arrayBytes l parts) 0 (index * GPT_ENTRY_SIZE))
  buffer_eq : index % l.entriesPerSector ≠ 0 → ∀ x < l.sectorSize, st.buffer x =
    if x < index % l.entriesPerSector * GPT_ENTRY_SIZE then
      arrayBytes l parts (index / l.entriesPerSector * l.sectorSize + x)
    else 0

variable {l parts} {index : Nat} {st : EntryLoop b}

theorem LoopState.start {buffer : Nat → UInt8} : LoopState l parts 0 ⟨buffer, 0, parts⟩ := by
  refine ⟨List.drop_zero.symm, ?_, fun hne => absurd (Nat.zero_mod _) hne⟩
  rw [Nat.zero_mul, slice_zero, crc32_nil]

theorem Layout.Roomy.entry_place (hl : l.Roomy) (index : Nat) :
    index / l.entriesPerSector * l.sectorSize + index % l.entriesPerSector * GPT_ENTRY_SIZE =
      index * GPT_ENTRY_SIZE := by
  rw [← hl.entries_mul, ← Nat.mul_assoc, ← Nat.add_mul, Nat.mul_comm _ l.entriesPerSector, Nat.div_add_mod]

theorem Layout.Roomy.entry_fits (hl : l.Roomy) (index : Nat) :
    (index % l.entriesPerSector + 1) * GPT_ENTRY_SIZE ≤ l.sectorSize := by
  rw [← hl.entries_mul]
  exact Nat.mul_le_mul_right _ (Nat.mod_lt index hl.entries_pos)

private theorem LoopState.cleared (h : LoopState l parts index st) {x : Nat} (hx : x < l.sectorSize) :
    (if index % l.entriesPerSector = 0 then patch st.buffer 0 (List.replicate l.sectorSize 0) else st.buffer) x =
      if x < index % l.entriesPerSector * GPT_ENTRY_SIZE then
        arrayBytes l parts (index / l.entriesPerSector * l.sectorSize + x)
      else 0 := by
  split
  · rename_i hzero
    have hcell := patch_inside st.buffer 0 (List.replicate l.sectorSize (0 : UInt8)) (i := x)
      (by rwa [List.length_replicate])
    rw [Nat.zero_add, List.getElem_replicate] at hcell
    rw [hcell, hzero, Nat.zero_mul, if_neg (Nat.not_lt_zero x)]
  · rename_i hne
    exact h.buffer_eq hne x hx

private theorem LoopState.added (hl : l.Roomy) (h : LoopState l parts index st) {x : Nat} (hx : x < l.sectorSize) :
    (addEntry l index st).buffer x =
      if x < (index % l.entriesPerSector + 1) * GPT_ENTRY_SIZE then
        arrayBytes l parts (index / l.entriesPerSector * l.sectorSize + x)
      else 0 := by
  rw [Nat.succ_mul]
  -- the bytes of the entry itself
  have hin : ∀ y < GPT_ENTRY_SIZE, x = index % l.entriesPerSector * GPT_ENTRY_SIZE + y →
      arrayBytes l parts (index / l.entriesPerSector * l.sectorSize + x) = (entryBytes l parts index).getD y 0 := by
    intro y hy hxy
    rw [hxy, ← Nat.add_assoc, hl.entry_place]
    exact arrayBytes_entry l parts index hy
  cases hpart : parts[index]? with
  | none =>
    have hempty : st.part = [] := by
      rw [h.part_eq]
      exact List.drop_of_length_le (List.getElem?_eq_none_iff.mp hpart)
    simp only [GPT.addEntry, hempty]
    rw [h.cleared hx]
    split
    · rw [if_pos (by omega)]
    · split
      · rename_i hge hlt
        rw [hin (x - index % l.entriesPerSector * GPT_ENTRY_SIZE) (by omega) (by omega), entryBytes, hpart,
          Option.elim_none, ← List.getElem_eq_getD (h := by rw [List.length_replicate]; omega) 0,
          List.getElem_replicate]
      · rfl
  | some part =>
    obtain ⟨hlt, hget⟩ := List.getElem?_eq_some_iff.mp hpart
    have hcons : st.part = part :: parts.drop (index + 1) := by
      rw [h.part_eq, List.drop_eq_getElem_cons hlt, hget]
    simp only [GPT.addEntry, hcons]
    have hlen : (entryOf l.shift part).encode.length = GPT_ENTRY_SIZE := GptEntry.length_encode _
    rcases Nat.lt_or_ge x (index % l.entriesPerSector * GPT_ENTRY_SIZE) with hbelow | habove
    · rw [patch_below _ _ hbelow, h.cleared hx, if_pos hbelow, if_pos (by omega)]
    · obtain ⟨y, rfl⟩ := Nat.exists_eq_add_of_le habove
      rcases Nat.lt_or_ge y GPT_ENTRY_SIZE with hy | hy
      · rw [patch_inside _ _ _ (by rwa [hlen]), if_pos (by omega), hin y hy rfl, entryBytes, hpart]
        exact List.getElem_eq_getD 0
      · rw [patch_above _ _ (by rw [hlen]; omega), h.cleared hx, if_neg (by omega), if_neg (by omega)]

theorem LoopState.addEntry (hl : l.Roomy) (h : LoopState l parts index st) :
    (addEntry l index st).part = parts.drop (index + 1) ∧
      (addEntry l index st).bcc = crc32 0 (slice (arrayBytes l parts) 0 ((index + 1) * GPT_ENTRY_SIZE)) ∧
      ∀ x < l.sectorSize, (addEntry l index st).buffer x =
        if x < (index % l.entriesPerSector + 1) * GPT_ENTRY_SIZE then
          arrayBytes l parts (index / l.entriesPerSector * l.sectorSize + x)
        else 0 := by
  refine ⟨?_, ?_, fun x hx => h.added hl hx⟩
  · rw [← List.tail_drop, ← h.part_eq]
    rfl
  · have hentry : slice (GPT.addEntry l index st).buffer (index % l.entriesPerSector * GPT_ENTRY_SIZE) GPT_ENTRY_SIZE =
        slice (arrayBytes l parts) (index * GPT_ENTRY_SIZE) GPT_ENTRY_SIZE := by
      apply List.map_congr_left
      intro i hi
      have hfit := hl.entry_fits index
      rw [List.mem_range] at hi
      rw [Nat.succ_mul] at hfit
      rw [h.added hl (by omega), if_pos (by rw [Nat.succ_mul]; omega), ← Nat.add_assoc, hl.entry_place]
    rw [Nat.succ_mul, slice_add, crc32_append, ← h.bcc_eq, Nat.zero_add, ← hentry]
    rfl

theorem next_index (hl : l.Roomy) (hlt : index % l.entriesPerSector + 1 < l.entriesPerSector) :
    (index + 1) / l.entriesPerSector = index / l.entriesPerSector ∧
      (index + 1) % l.entriesPerSector = index % l.entriesPerSector + 1 := by
  have hsplit := Nat.div_add_mod index l.entriesPerSector
  constructor
  · rw [← hsplit, Nat.add_assoc, Nat.mul_add_div hl.entries_pos, Nat.div_eq_of_lt hlt, hsplit, Nat.add_zero]
  · rw [Nat.add_mod_eq_add_mod_right 1 (Nat.mod_mod index l.entriesPerSector).symm, Nat.mod_eq_of_lt hlt]

theorem next_sector (hl : l.Roomy) (hfull : index % l.entriesPerSector + 1 = l.entriesPerSector) :
    (index + 1) / l.entriesPerSector = index / l.entriesPerSector + 1 ∧ (index + 1) % l.entriesPerSector = 0 := by
  have hsplit := Nat.div_add_mod index l.entriesPerSector
  have hsucc : index + 1 = l.entriesPerSector * (index / l.entriesPerSector + 1) := by
    rw [Nat.mul_succ]
    omega
  constructor
  · rw [hsucc, Nat.mul_div_cancel_left _ hl.entries_pos]
  · rw [hsucc, Nat.mul_mod_right]

theorem LoopState.next (hl : l.Roomy) (h : LoopState l parts index st) :
    LoopState l parts (index + 1) (GPT.addEntry l index st) := by
  obtain ⟨hpart, hbcc, hbuffer⟩ := h.addEntry hl
  refine ⟨hpart, hbcc, fun hne x hx => ?_⟩
  have hmod := Nat.mod_lt index hl.entries_pos
  have hlt : index % l.entriesPerSector + 1 < l.entriesPerSector :=
    Nat.lt_of_le_of_ne hmod fun hfull => hne (next_sector hl hfull).2
  obtain ⟨hdiv, hmod'⟩ := next_index hl hlt
  rw [hbuffer x hx, hdiv, hmod']

theorem tablesWritten_succ (hl : l.Roomy) (f : Nat → UInt8) {q : Nat} (hq : q < l.numPartitionTableSectors) :
    patch (patch (tablesWritten l parts f q) ((2 + q) * l.sectorSize)
        (slice (arrayBytes l parts) (q * l.sectorSize) l.sectorSize))
      ((l.backupPartitionTableSector + q) * l.sectorSize)
        (slice (arrayBytes l parts) (q * l.sectorSize) l.sectorSize) =
      tablesWritten l parts f (q + 1) := by
  have hapart := hl.tables_apart
  have hsectors : (2 + q + 1) * l.sectorSize ≤ l.backupPartitionTableSector * l.sectorSize :=
    Nat.mul_le_mul_right _ (by omega)
  rw [Nat.succ_mul] at hsectors
  rw [tablesWritten, tablesWritten, patch_comm (patch f (2 * l.sectorSize) _), Nat.succ_mul q, slice_add, patch_append,
    patch_append, slice_length, Nat.zero_add, Nat.add_mul 2 q, Nat.add_mul _ q]
  right
  rw [slice_length]
  exact hsectors

section Loop
variable {σ : Type} [Device σ] {d d' : σ} {st' : EntryLoop b} {left : Nat}

theorem entryLoop_keeps {I : Nat → EntryLoop b → σ → Prop} (h : I index st d)
    (hpass : ∀ {i st d st' d'}, i < index + left → I i st d → passEntry l i st d = (some st', d') → I (i + 1) st' d')
    (hrun : entryLoop l left index st d = (some st', d')) : I (index + left) st' d' := by
  induction left generalizing index st d with
  | zero =>
    cases hrun
    exact h
  | succ left ih =>
    rw [entryLoop] at hrun
    rw [Nat.add_succ, ← Nat.succ_add] at hpass ⊢
    split at hrun
    · cases hrun
    · rename_i st₁ d₁ hp
      exact ih (hpass (by omega) h hp) hpass hrun

/-- The loop comes to its end when each pass goes on. -/
theorem entryLoop_goes {I : σ → Prop} (h : I d)
    (hpass : ∀ {i d} (st : EntryLoop b), i < index + left → I d → ∃ st' d', passEntry l i st d = (some st', d') ∧ I d')
    (st : EntryLoop b) : ∃ st' d', entryLoop l left index st d = (some st', d') ∧ I d' := by
  induction left generalizing index st d with
  | zero => exact ⟨st, d, rfl, h⟩
  | succ left ih =>
    rw [Nat.add_succ, ← Nat.succ_add] at hpass
    obtain ⟨st₁, d₁, hp, h₁⟩ := hpass (i := index) st (by omega) h
    rw [entryLoop, hp]
    exact ih h₁ hpass st₁

private theorem passEntry_some (hp : passEntry l index st d = (some st', d')) : st' = GPT.addEntry l index st := by
  rw [passEntry] at hp
  split at hp
  · dsimp only at hp
    split at hp
    · cases hp
    · split at hp
      · cases hp
      · cases hp
        rfl
  · cases hp
    rfl

/-- Behind the loop, the buffer still has the last sector of the array, or all of the array where this
fills no sector. -/
theorem entryLoop_last_sector (hl : l.Roomy) (hlen : parts.length ≤ GPT_ITEMS) {buffer : Nat → UInt8}
    (hrun : entryLoop l GPT_ITEMS 0 ⟨buffer, 0, parts⟩ d = (some st', d')) {x : Nat} (hx : x < l.sectorSize) :
    st'.buffer x = arrayBytes l parts ((l.numPartitionTableSectors - 1) * l.sectorSize + x) := by
  have hkeeps := entryLoop_keeps (I := fun i st _ => LoopState l parts i st ∧
    (i ≠ 0 → i % l.entriesPerSector = 0 →
      st.buffer x = arrayBytes l parts ((i / l.entriesPerSector - 1) * l.sectorSize + x)))
    ⟨LoopState.start, fun hne => absurd rfl hne⟩ ?_ hrun
  · obtain ⟨hstate, hlast⟩ := hkeeps
    rw [Nat.zero_add] at hstate hlast
    rw [hl.items_div] at hlast
    by_cases hwhole : GPT_ITEMS % l.entriesPerSector = 0
    · exact hlast (by decide) hwhole
    · have hzero := hl.table_zero fun hdvd => hwhole (hl.items_mod hdvd)
      have hpart := hstate.buffer_eq hwhole x hx
      rw [hl.items_div, hzero, Nat.zero_mul, Nat.zero_add] at hpart
      rw [hpart, hzero, Nat.zero_sub, Nat.zero_mul, Nat.zero_add]
      split
      · rfl
      · rename_i hge
        have hmod : GPT_ITEMS % l.entriesPerSector = GPT_ITEMS := by
          have hsplit := Nat.div_add_mod GPT_ITEMS l.entriesPerSector
          rwa [hl.items_div, hzero, Nat.mul_zero, Nat.zero_add] at hsplit
        rw [hmod, Nat.not_lt] at hge
        exact (arrayBytes_behind l hlen hge).symm
  · intro i st d st' d' _ hi hp
    obtain rfl := passEntry_some hp
    refine ⟨hi.1.next hl, fun _ hmod => ?_⟩
    -- a sector ends behind this entry
    have hfull : i % l.entriesPerSector + 1 = l.entriesPerSector := by
      by_contra hne
      have hnext := (next_index hl (Nat.lt_of_le_of_ne (Nat.mod_lt i hl.entries_pos) hne)).2
      omega
    rw [(hi.1.addEntry hl).2.2 x hx, hfull, hl.entries_mul, if_pos hx, (next_sector hl hfull).1, Nat.add_sub_cancel]

end Loop

section Device
variable {σ : Type} [LawfulDevice σ] {d₀ d d' : σ} {f : Nat → UInt8}

theorem writeSector_holds (hl : l.Roomy) (hcap : Device.capacity d₀ = l.driveSectors * l.sectorSize) (h : Holds d₀ d f)
    {sector : Nat} {buffer : Nat → UInt8} (hs : sector < l.driveSectors)
    (hw : writeSector b l.shift d sector buffer = (true, d')) :
    Holds d₀ d' (patch f (sector * l.sectorSize) (slice buffer 0 l.sectorSize)) := by
  rw [writeSector, hl.sectorAddress_eq hs, ← hl.pow] at hw
  refine h.write ?_ hw
  rw [slice_length, hcap, ← Nat.succ_mul]
  exact Nat.mul_le_mul_right _ hs

/-- One pass of the loop. A sector that is full goes to both tables. -/
theorem LoopState.pass (hl : l.Roomy) (hcap : Device.capacity d₀ = l.driveSectors * l.sectorSize) {st' : EntryLoop b}
    (hstate : LoopState l parts index st) (hindex : index < GPT_ITEMS)
    (h : Holds d₀ d (tablesWritten l parts f (index / l.entriesPerSector)))
    (hp : passEntry l index st d = (some st', d')) :
    LoopState l parts (index + 1) st' ∧
      Holds d₀ d' (tablesWritten l parts f ((index + 1) / l.entriesPerSector)) := by
  have hnext := hstate.next hl
  obtain ⟨_, _, hbuffer⟩ := hstate.addEntry hl
  have hmod := Nat.mod_lt index hl.entries_pos
  rw [passEntry] at hp
  split at hp
  · rename_i hfull
    have hq := hl.arraySector_lt hindex hfull
    have hdrive := hl.drive_lt
    have hbackup := hl.backup_eq
    have hroom := hl.room
    have hapart := hl.tables_apart
    -- the buffer is the sector of the array
    have hsector : slice (GPT.addEntry l index st).buffer 0 l.sectorSize =
        slice (arrayBytes l parts) (index / l.entriesPerSector * l.sectorSize) l.sectorSize := by
      apply List.map_congr_left
      intro x hx
      rw [List.mem_range] at hx
      rw [Nat.zero_add, hbuffer x hx, hfull, hl.entries_mul, if_pos hx]
    dsimp only at hp
    split at hp
    · cases hp
    · rename_i d₁ hw₁
      split at hp
      · cases hp
      · rename_i d₂ hw₂
        cases hp
        have h₁ := writeSector_holds hl hcap h (by omega) hw₁
        rw [u64_of_lt (Build.lt_u64 (b := b) (by omega))] at hw₂
        have h₂ := writeSector_holds hl hcap h₁ (by omega) hw₂
        rw [hsector, tablesWritten_succ hl f hq] at h₂
        rw [(next_sector hl hfull).1]
        exact ⟨hnext, h₂⟩
  · rename_i hnot
    cases hp
    rw [(next_index hl (by omega)).1]
    exact ⟨hnext, h⟩

/-- The whole loop writes the entry array to both tables, and takes its checksum. -/
theorem entryLoop_holds (hl : l.Roomy) (hcap : Device.capacity d₀ = l.driveSectors * l.sectorSize) {st' : EntryLoop b}
    {buffer : Nat → UInt8} (h : Holds d₀ d f) (hrun : entryLoop l GPT_ITEMS 0 ⟨buffer, 0, parts⟩ d = (some st', d')) :
    st'.bcc = arrayCrc l parts ∧ Holds d₀ d' (tablesWritten l parts f l.numPartitionTableSectors) := by
  have hstart : Holds d₀ d (tablesWritten l parts f (0 / l.entriesPerSector)) := by
    rw [Nat.zero_div, tablesWritten, Nat.zero_mul, slice_zero, patch_nil, patch_nil]
    exact h
  obtain ⟨hstate, hholds⟩ := entryLoop_keeps
    (I := fun i st d => LoopState l parts i st ∧ Holds d₀ d (tablesWritten l parts f (i / l.entriesPerSector)))
    ⟨LoopState.start, hstart⟩ (fun hi hkept hp => hkept.1.pass hl hcap (by omega) hkept.2 hp) hrun
  rw [Nat.zero_add] at hstate hholds
  refine ⟨hstate.bcc_eq, ?_⟩
  rwa [hl.items_div] at hholds

end Device

end GPT

end DiskStorage
