import DiskStorage.Scanner.Sectors

/-! Where the scan of an entry array stands, given what is in the sectors. -/
namespace DiskStorage
open ByteStore

variable {sectors : Nat → Nat → UInt8} {s₀ sc sc' : Scanner}

/-- The scan is still over the entry array that it has started with as `s₀`. -/
structure SameArray (s₀ sc : Scanner) : Prop where
  state : sc.state = .gpt
  shift_eq : sc.sectorSizeShift = s₀.sectorSizeShift
  size_eq : sc.sectorSize = s₀.sectorSize
  count : sc.numPartitionEntries = s₀.numPartitionEntries

/-- The sector of the entry at `partitionIndex` is in the buffer, and the one behind it is read next. -/
structure Loaded (sectors : Nat → Nat → UInt8) (s₀ sc : Scanner) : Prop extends SameArray s₀ sc where
  sector_eq : sc.sector % 2 ^ 64 = (s₀.sector + sc.partitionIndex / s₀.entriesPerSector + 1) % 2 ^ 64
  buffer_eq : ∀ i < 2 ^ s₀.sectorSizeShift,
    sc.buffer i = sectors (s₀.sector + sc.partitionIndex / s₀.entriesPerSector) i

/-- Where the scan of an entry array stands in front of a pass. -/
structure AtEntry (sectors : Nat → Nat → UInt8) (s₀ sc : Scanner) : Prop extends SameArray s₀ sc where
  position : if sc.partitionIndex % s₀.entriesPerSector = 0 then
      sc.sector % 2 ^ 64 = (s₀.sector + sc.partitionIndex / s₀.entriesPerSector) % 2 ^ 64
    else Loaded sectors s₀ sc

theorem SameArray.entriesPerSector_eq (h : SameArray s₀ sc) : sc.entriesPerSector = s₀.entriesPerSector :=
  congrArg (· / GPT_ENTRY_SIZE) h.size_eq

theorem AtEntry.start (hstate : s₀.state = .gpt) (hzero : s₀.partitionIndex = 0) : AtEntry sectors s₀ s₀ := by
  refine ⟨⟨hstate, rfl, rfl, rfl⟩, ?_⟩
  rw [hzero, Nat.zero_mod, if_pos rfl, Nat.zero_div, Nat.add_zero]

theorem AtEntry.load (h : AtEntry sectors s₀ sc) (hzero : sc.partitionIndex % s₀.entriesPerSector = 0)
    {buffer : Nat → UInt8}
    (hbuffer : ∀ i < 2 ^ s₀.sectorSizeShift,
      buffer i = sectors (s₀.sector + sc.partitionIndex / s₀.entriesPerSector) i) :
    Loaded sectors s₀ { sc with sector := (sc.sector + 1) % 2 ^ 64, buffer := buffer } := by
  have hposition := h.position
  rw [if_pos hzero] at hposition
  refine ⟨⟨h.state, h.shift_eq, h.size_eq, h.count⟩, ?_, hbuffer⟩
  dsimp only
  rw [Nat.mod_mod, Nat.add_mod, hposition, ← Nat.add_mod]

theorem Loaded.next (h : Loaded sectors s₀ sc) (harray : SameArray s₀ sc')
    (hindex : sc'.partitionIndex = sc.partitionIndex + 1) (hsector : sc'.sector = sc.sector)
    (hbuffer : sc'.buffer = sc.buffer) : AtEntry sectors s₀ sc' := by
  refine ⟨harray, ?_⟩
  have hdiv := Nat.succ_div (a := sc.partitionIndex) (b := s₀.entriesPerSector)
  rw [← hindex] at hdiv
  split
  · rename_i hzero
    rw [if_pos (Nat.dvd_of_mod_eq_zero hzero)] at hdiv
    rw [hsector, h.sector_eq, hdiv, Nat.add_assoc]
  · rename_i hne
    rw [if_neg fun hdvd => hne (Nat.mod_eq_zero_of_dvd hdvd), Nat.add_zero] at hdiv
    exact ⟨harray, by rw [hsector, hdiv, h.sector_eq], by rw [hbuffer, hdiv]; exact h.buffer_eq⟩

/-- The entry in the buffer is the one of the array. -/
theorem Loaded.gptEntry_eq (h : Loaded sectors s₀ sc) (hs₀ : s₀.sectorSize = 2 ^ s₀.sectorSizeShift)
    (hshift : 9 ≤ s₀.sectorSizeShift) :
    sc.gptEntry = GptEntry.decode (sectors (s₀.sector + sc.partitionIndex / s₀.entriesPerSector))
      (sc.partitionIndex % s₀.entriesPerSector * GPT_ENTRY_SIZE) := by
  have hpow := Nat.pow_le_pow_right (n := 2) (by decide) hshift
  have hpos : 0 < s₀.entriesPerSector := by
    rw [Scanner.entriesPerSector, hs₀]
    exact Nat.div_pos (by rw [GPT_ENTRY_SIZE]; omega) (by decide)
  have hmod := Nat.mod_lt sc.partitionIndex hpos
  have hfit : s₀.entriesPerSector * GPT_ENTRY_SIZE ≤ 2 ^ s₀.sectorSizeShift := by
    rw [Scanner.entriesPerSector, hs₀]
    exact Nat.div_mul_le_self _ _
  rw [Scanner.gptEntry, h.entriesPerSector_eq]
  apply GptEntry.decode_congr
  intro i hi
  apply h.buffer_eq _
  have := Nat.mul_le_mul_right GPT_ENTRY_SIZE hmod
  rw [Nat.succ_mul] at this
  omega

end DiskStorage
