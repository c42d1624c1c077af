import DiskStorage.Scanner.Chain
import DiskStorage.Scanner.Entries
import DiskStorage.Lib.Runs

/-! Calls of next one after the other, and whether the scanner keeps to its end. -/
namespace DiskStorage
open ByteStore
open Runs (Reach)

variable {b : Build} {env : ScanEnv}

section Calls
variable {σ : Type} [Device σ]

/-- A call of next returns this. -/
def Call (b : Build) (env : ScanEnv) (s : Scanner × σ) (part : Option (PartInfo b)) (t : Scanner × σ) : Prop :=
  ∃ fuel, next env fuel s.1 s.2 = some (some (part, t.1, t.2))

/-- An assert fails in a call of next. -/
def Aborts (b : Build) (env : ScanEnv) (s : Scanner × σ) : Prop := ∃ fuel, next (b := b) env fuel s.1 s.2 = some none

/-- Once a call has returned null, all calls do, with the same status; and no assert fails. -/
structure EndsStably (b : Build) (env : ScanEnv) (device : σ) : Prop where
  null : ∀ s t u v part, Reach (Call b env) (Scanner.new, device) s → Call b env s none t → Reach (Call b env) t u →
    Call b env u part v → part = none
  status : ∀ s t u, Reach (Call b env) (Scanner.new, device) s → Call b env s none t → Reach (Call b env) t u →
    (u.1.state = .error ↔ t.1.state = .error)
  no_assert : ∀ s, Reach (Call b env) (Scanner.new, device) s → ¬ Aborts b env s

variable {s t t' : Scanner × σ} {part part' : Option (PartInfo b)}

theorem next_add {fuel k : Nat} {sc : Scanner} {device : σ} {r : Option (Option (PartInfo b) × Scanner × σ)}
    (h : next env fuel sc device = some r) : next env (fuel + k) sc device = some r := by
  rw [next] at h ⊢
  split
  · rename_i hidle
    rw [if_pos hidle] at h
    cases hopen : openTable (b := b) env sc device with
    | returned part sc' device' =>
      rw [hopen] at h
      exact h
    | again sc' device' =>
      rw [hopen] at h
      exact (nextLoop_fueled b env).mono (s := (sc', device')) h (Nat.le_add_right _ _)
    | aborted =>
      rw [hopen] at h
      exact h
  · rename_i hidle
    rw [if_neg hidle] at h
    exact (nextLoop_fueled b env).mono (s := (sc, device)) h (Nat.le_add_right _ _)

theorem Call.unique (h : Call b env s part t) (h' : Call b env s part' t') : part = part' ∧ t = t' := by
  obtain ⟨fuel, hn⟩ := h
  obtain ⟨fuel', hn'⟩ := h'
  have hadd := next_add (k := fuel') hn
  rw [Nat.add_comm, next_add hn'] at hadd
  have heq := Option.some.inj (Option.some.inj hadd)
  exact ⟨(congrArg Prod.fst heq).symm, (congrArg Prod.snd heq).symm⟩

end Calls

namespace Image
variable (b : Build) (env : ScanEnv) (im : Image) (shift : Nat) (memory : Nat → UInt8)

/-- A sector in a buffer, with the memory behind it. -/
def buffered (sector : Nat) : Nat → UInt8 := patch memory 0 (slice im.bytes (sectorAddress b shift sector) (2 ^ shift))

/-- There are sectors of the entry array at `lba` that are always read. -/
def ArrayReadable (lba count entriesPerSector : Nat) : Prop :=
  ∀ j < count, j % entriesPerSector = 0 → im.readableAt b shift (lba + j / entriesPerSector) = true

/-- The scanner takes sector 0 neither for a volume nor for a boot record. -/
def Unrecognised : Prop :=
  identify b env.types (im.buffered b shift memory 0) 0 = none ∧
    mbrSignature (im.buffered b shift memory 0) ≠ MSDOS_MBR_SIGNATURE

/-- There is no table to scan, or no memory for it. -/
def Bare : Prop :=
  ∀ memory, env.buffer = some memory → ∀ size, chooseSectorSize b im = some size →
    im.Unrecognised b env (getSizeBits size) memory

/-- Behind a protective MBR there are a header and an entry array, which are always read. -/
def GptReadable : Prop :=
  identify b env.types (im.buffered b shift memory 0) 0 = none →
  mbrSignature (im.buffered b shift memory 0) = MSDOS_MBR_SIGNATURE →
  (mbrRecord (im.buffered b shift memory 0) 0).osType = EFI_PMBR_OSTYPE_EFI_GPT →
  im.readableAt b shift GPT_PRIMARY_PARTITION_TABLE_LBA = true ∧
    verifyGptHeader (im.buffered b shift memory GPT_PRIMARY_PARTITION_TABLE_LBA) = true ∧ env.entryBuffer.isSome ∧
    let header := GptHeader.decode (im.buffered b shift memory GPT_PRIMARY_PARTITION_TABLE_LBA) 0
    im.ArrayReadable b shift header.partitionEntryLba.toNat (header.numPartitionEntries.toNat % 2 ^ 16)
      (2 ^ shift / GPT_ENTRY_SIZE)

/-- The sector size is supported, and what the scanner cannot do without can be read at all times. -/
def Dependable : Prop :=
  ∃ size, chooseSectorSize b im = some size ∧
    ∀ memory, env.buffer = some memory →
      im.readableAt b (getSizeBits size) 0 = true ∧ im.GptReadable b env (getSizeBits size) memory

end Image

/-- The image, and when its reads may fail. -/
def FlakyImage.Shows (d : FlakyImage) (im : Image) (fails : Nat → Bool) : Prop := d.image = im ∧ d.fails = fails

/-- What a piece of next does on an image that stays the same: where it goes on, and where it
returns null. -/
def Pass.Keeps (im : Image) (fails : Nat → Bool) (onward ended : Scanner → Prop) : Pass b FlakyImage → Prop
  | .returned none sc device => ended sc ∧ device.Shows im fails
  | .returned (some _) sc device | .again sc device => onward sc ∧ device.Shows im fails
  | .aborted => False

section Underway
variable (b) (im : Image)

/-- Behind the last entry of a table. -/
def Scanner.Finished (sc : Scanner) : Prop := sc.state = .done ∧ sc.numPartitionEntries ≤ sc.partitionIndex

/-- Before a table has been opened. -/
def Scanner.Unopened (sc : Scanner) : Prop :=
  sc.state = .idle ∧ sc.partitionIndex = 0 ∧ sc.numPartitionEntries = 0

/-- The scanner has a table open, and nothing that it will need to read can fail. -/
inductive Underway (sc : Scanner) : Prop
  | mbr (hstate : sc.state = .mbr) (hcount : sc.numPartitionEntries = sc.mbrEntries.length) : Underway sc
  | gpt (s₀ : Scanner) (hat : AtEntry (im.sectorAt b s₀.sectorSizeShift) s₀ sc)
    (hread : im.ArrayReadable b s₀.sectorSizeShift s₀.sector s₀.numPartitionEntries s₀.entriesPerSector) : Underway sc
  | finished (h : sc.Finished) : Underway sc

end Underway

section Flaky
variable {im : Image} {fails : Nat → Bool} {d : FlakyImage} {sc : Scanner}

/-- A read fails only where the image is not readable, and there at the times of the pattern. -/
theorem readSector_flaky (sc : Scanner) (d : FlakyImage) (buffer : Nat → UInt8) (sector : Nat) :
    readSector b sc d buffer sector =
      (if d.image.readableAt b sc.sectorSizeShift sector || !d.fails d.reads then
        some (d.image.buffered b sc.sectorSizeShift buffer sector) else none, { d with reads := d.reads + 1 }) := by
  have hread : Device.read d (sectorAddress b sc.sectorSizeShift sector) (2 ^ sc.sectorSizeShift) =
      (if d.image.readableAt b sc.sectorSizeShift sector || !d.fails d.reads then
        some (slice d.image.bytes (sectorAddress b sc.sectorSizeShift sector) (2 ^ sc.sectorSizeShift)) else none,
        { d with reads := d.reads + 1 }) := rfl
  cases hok : d.image.readableAt b sc.sectorSizeShift sector || !d.fails d.reads with
  | true =>
    simp only [readSector, hread, hok, if_true]
    rfl
  | false => simp only [readSector, hread, hok, Bool.false_eq_true, if_false]

theorem readSector_cases (hd : d.Shows im fails) (sc : Scanner) (buffer : Nat → UInt8) (sector : Nat) :
    ∃ x d', readSector b sc d buffer sector = (x, d') ∧ d'.Shows im fails ∧
      ∀ g, x = some g → g = im.buffered b sc.sectorSizeShift buffer sector := by
  obtain ⟨rfl, rfl⟩ := hd
  refine ⟨_, _, readSector_flaky sc d buffer sector, ⟨rfl, rfl⟩, fun g hg => ?_⟩
  split at hg
  · exact (Option.some.inj hg).symm
  · cases hg

theorem readSector_readable (hd : d.Shows im fails) (sc : Scanner) (buffer : Nat → UInt8) (sector : Nat)
    (h : im.readableAt b sc.sectorSizeShift sector = true) :
    ∃ d', readSector b sc d buffer sector = (some (im.buffered b sc.sectorSizeShift buffer sector), d') ∧
      d'.Shows im fails := by
  obtain ⟨rfl, rfl⟩ := hd
  refine ⟨{ d with reads := d.reads + 1 }, ?_, ⟨rfl, rfl⟩⟩
  rw [readSector_flaky, h, Bool.true_or, if_pos rfl]

theorem readSector_unreadable (hd : d.Shows im fun _ => true) (sc : Scanner) (buffer : Nat → UInt8) (sector : Nat)
    (h : im.readableAt b sc.sectorSizeShift sector = false) :
    ∃ d', readSector b sc d buffer sector = (none, d') ∧ d'.Shows im fun _ => true := by
  obtain ⟨rfl, hfails⟩ := hd
  refine ⟨{ d with reads := d.reads + 1 }, ?_, ⟨rfl, hfails⟩⟩
  rw [readSector_flaky, h, hfails, Bool.not_true, Bool.or_false, if_neg Bool.false_ne_true]

private theorem passMbr_keeps (hd : d.Shows im fails) (hstate : sc.state = .mbr)
    (hcount : sc.numPartitionEntries = sc.mbrEntries.length) (entry : MbrRecord) :
    (passMbr (b := b) env sc d entry).Keeps im fails (Underway b im) Scanner.Finished := by
  obtain ⟨x, d', hread, hd', _⟩ :=
    readSector_cases (b := b) hd { sc with partitionIndex := sc.partitionIndex + 1 } sc.buffer
    entry.startingLba.toNat
  rw [passMbr, hread]
  cases x with
  | none => exact ⟨.mbr hstate hcount, hd'⟩
  | some buffer =>
    dsimp only
    split
    · exact ⟨.mbr hstate rfl, hd'⟩
    · exact ⟨.mbr hstate hcount, hd'⟩

variable {s₀ : Scanner}

private theorem passGptEntry_keeps (hd : d.Shows im fails) (h : Loaded (im.sectorAt b s₀.sectorSizeShift) s₀ sc) :
    (passGptEntry (b := b) env sc d).Keeps im fails (fun sc' =>
      AtEntry (im.sectorAt b s₀.sectorSizeShift) s₀ sc' ∧ sc'.partitionIndex = sc.partitionIndex + 1)
      fun _ => False := by
  have hnext : ∀ g, AtEntry (im.sectorAt b s₀.sectorSizeShift) s₀
      { sc with partitionIndex := sc.partitionIndex + 1, entryBuffer := g } := fun g =>
    h.next ⟨h.state, h.shift_eq, h.size_eq, h.count⟩ rfl rfl rfl
  rw [passGptEntry]
  split
  · exact ⟨⟨hnext sc.entryBuffer, rfl⟩, hd⟩
  · split
    · exact ⟨⟨hnext sc.entryBuffer, rfl⟩, hd⟩
    · obtain ⟨x, d', hprobe, hd', _⟩ := readSector_cases (b := b) hd { sc with partitionIndex := sc.partitionIndex + 1 }
        sc.entryBuffer sc.gptEntry.startingLba.toNat
      rw [hprobe]
      cases x with
      | none => exact ⟨⟨hnext sc.entryBuffer, rfl⟩, hd'⟩
      | some entryBuffer => exact ⟨⟨hnext entryBuffer, rfl⟩, hd'⟩

variable (env) in
private theorem passGpt_keeps (hd : d.Shows im fails) (h : AtEntry (im.sectorAt b s₀.sectorSizeShift) s₀ sc)
    (hread : sc.partitionIndex % s₀.entriesPerSector = 0 →
      im.readableAt b s₀.sectorSizeShift (s₀.sector + sc.partitionIndex / s₀.entriesPerSector) = true) :
    (passGpt (b := b) env sc d).Keeps im fails (fun sc' =>
      AtEntry (im.sectorAt b s₀.sectorSizeShift) s₀ sc' ∧ sc'.partitionIndex = sc.partitionIndex + 1)
      fun _ => False := by
  have hposition := h.position
  rw [passGpt, h.entriesPerSector_eq]
  split
  · rename_i hzero
    rw [if_pos hzero] at hposition
    obtain ⟨d', hsector, hd'⟩ := readSector_readable (b := b) hd sc sc.buffer
      (s₀.sector + sc.partitionIndex / s₀.entriesPerSector) (by rw [h.shift_eq]; exact hread hzero)
    rw [readSector_congr hposition, hsector]
    refine passGptEntry_keeps hd' (h.load hzero fun i hi => ?_)
    rw [h.shift_eq]
    exact patch_slice _ _ _ hi
  · rename_i hne
    rw [if_neg hne] at hposition
    exact passGptEntry_keeps hd hposition

theorem Pass.Keeps.imp {onward onward' ended ended' : Scanner → Prop} {p : Pass b FlakyImage}
    (h : p.Keeps im fails onward ended) (ho : ∀ sc, onward sc → onward' sc) (he : ∀ sc, ended sc → ended' sc) :
    p.Keeps im fails onward' ended' := by
  cases p with
  | returned part sc device =>
    cases part with
    | none => exact ⟨he _ h.1, h.2⟩
    | some part => exact ⟨ho _ h.1, h.2⟩
  | again sc device => exact ⟨ho _ h.1, h.2⟩
  | aborted => exact h.elim

/-- A pass goes on, or comes to the end of the table. -/
theorem Underway.pass (env : ScanEnv) (h : Underway b im sc) (hd : d.Shows im fails) :
    (DiskStorage.pass (b := b) env sc d).Keeps im fails (Underway b im) Scanner.Finished := by
  by_cases hlt : sc.partitionIndex < sc.numPartitionEntries
  · rw [DiskStorage.pass, if_pos hlt]
    cases h with
    | mbr hstate hcount =>
      rw [hstate]
      dsimp only
      rw [List.getElem?_eq_getElem (hcount ▸ hlt)]
      exact passMbr_keeps hd hstate hcount _
    | gpt s₀ hat hread =>
      rw [hat.state]
      have hkeeps := passGpt_keeps env hd hat fun hzero => hread _ (hat.count ▸ hlt) hzero
      exact hkeeps.imp (fun sc' h => .gpt s₀ h.1 hread) fun _ h => h.elim
    | finished hfinished => exact absurd hlt (Nat.not_lt.mpr hfinished.2)
  · rw [DiskStorage.pass, if_neg hlt]
    exact ⟨⟨rfl, Nat.le_of_not_lt hlt⟩, hd⟩

/-- The loop of next, as far as it is given passes. -/
theorem Underway.nextLoop (env : ScanEnv) {fuel : Nat} (h : Underway b im sc) (hd : d.Shows im fails) :
    DiskStorage.nextLoop (b := b) env fuel sc d ≠ some none ∧ ∀ part sc' d',
      DiskStorage.nextLoop (b := b) env fuel sc d = some (some (part, sc', d')) →
        Underway b im sc' ∧ d'.Shows im fails ∧ (part = none → sc'.Finished) := by
  have hreached : ∀ {r}, DiskStorage.nextLoop env fuel sc d = some r → ∃ t : Scanner × FlakyImage,
      (DiskStorage.pass (b := b) env t.1 t.2).Keeps im fails (Underway b im) Scanner.Finished ∧ LoopEnds b env t r := by
    intro r heq
    obtain ⟨t, hreach, hends⟩ := (nextLoop_fueled b env).reach (s := (sc, d)) heq
    obtain ⟨hu, hshows⟩ : Underway b im t.1 ∧ t.2.Shows im fails := by
      refine hreach.invariant (I := fun t => Underway b im t.1 ∧ t.2.Shows im fails)
        ⟨h, hd⟩ fun t l u _ hkept hgoes => ?_
      have hkeeps := hkept.1.pass env hkept.2
      rw [hgoes] at hkeeps
      exact hkeeps
    exact ⟨t, hu.pass env hshows, hends⟩
  constructor
  · intro heq
    obtain ⟨t, hkeeps, hends⟩ := hreached heq
    cases hends with
    | aborted hp =>
      rw [hp] at hkeeps
      exact hkeeps
  · intro part sc' d' heq
    obtain ⟨t, hkeeps, hends⟩ := hreached heq
    cases hends with
    | returned hp =>
      rw [hp] at hkeeps
      cases part with
      | none => exact ⟨.finished hkeeps.1, hkeeps.2, fun _ => hkeeps.1⟩
      | some part => exact ⟨hkeeps.1, hkeeps.2, by simp⟩

theorem buffered_buffered (shift : Nat) (memory : Nat → UInt8) (sector sector' : Nat) :
    im.buffered b shift (im.buffered b shift memory sector) sector' = im.buffered b shift memory sector' :=
  patch_patch _ _ (by rw [slice_length, slice_length])

private theorem openTable_keeps (hd : d.Shows im fails) (hdep : im.Dependable b env) (hsc : sc.Unopened) :
    (openTable (b := b) env sc d).Keeps im fails (Underway b im) fun sc' => sc'.Unopened ∧ im.Bare b env := by
  obtain ⟨size, hsize, hdepend⟩ := hdep
  have hsize' : chooseSectorSize b d = some size := by
    rw [← hsize, ← hd.1]
    rfl
  obtain ⟨hidle, hindex, hcount⟩ := hsc
  rw [openTable, hsize']
  dsimp only
  cases hbuffer : env.buffer with
  | none => exact ⟨⟨⟨hidle, hindex, hcount⟩, fun memory hm => by rw [hbuffer] at hm; cases hm⟩, hd⟩
  | some memory =>
    obtain ⟨hzero, hgpt⟩ := hdepend memory hbuffer
    dsimp only
    obtain ⟨d₁, hread, hd₁⟩ := readSector_readable (b := b) hd
      { sc with sectorSize := size, sectorSizeShift := getSizeBits size, buffer := memory } memory 0 hzero
    rw [hread]
    dsimp only
    cases hident : identify b env.types (im.buffered b (getSizeBits size) memory 0) 0 with
    | some part => exact ⟨.finished ⟨rfl, by simp only [hindex, hcount]; exact le_rfl⟩, hd₁⟩
    | none =>
      dsimp only
      split
      · rename_i hsignature
        refine ⟨⟨⟨hidle, hindex, hcount⟩, fun memory' hm size' hs => ?_⟩, hd₁⟩
        rw [hbuffer] at hm
        rw [hsize] at hs
        cases hm
        cases hs
        exact ⟨hident, hsignature⟩
      · rename_i hsignature
        split
        · rename_i htype
          -- the header, its array, and the buffer for the sectors of partitions
          obtain ⟨hone, hverify, hentry, harray⟩ := hgpt hident (of_not_not hsignature) htype
          obtain ⟨entryBuffer, hentry⟩ := Option.isSome_iff_exists.mp hentry
          obtain ⟨d₂, hread', hd₂⟩ := readSector_readable (b := b) hd₁
            { sc with sectorSize := size, sectorSizeShift := getSizeBits size,
                      buffer := im.buffered b (getSizeBits size) memory 0 }
            (im.buffered b (getSizeBits size) memory 0) GPT_PRIMARY_PARTITION_TABLE_LBA hone
          rw [openGpt, hread']
          dsimp only
          rw [buffered_buffered, hverify, hentry]
          refine ⟨.gpt _ (AtEntry.start rfl rfl) ?_, hd₂⟩
          rw [← chooseSectorSize_pow hsize] at harray
          exact harray
        · exact ⟨.mbr rfl rfl, hd₁⟩

private theorem openTable_bare (hd : d.Shows im fails) (hdep : im.Dependable b env) (hbare : im.Bare b env)
    (hsc : sc.Unopened) :
    ∃ sc' d', openTable (b := b) env sc d = .returned none sc' d' ∧ sc'.Unopened ∧ d'.Shows im fails := by
  obtain ⟨size, hsize, hdepend⟩ := hdep
  have hsize' : chooseSectorSize b d = some size := by
    rw [← hsize, ← hd.1]
    rfl
  rw [openTable, hsize']
  dsimp only
  cases hbuffer : env.buffer with
  | none => exact ⟨_, d, rfl, hsc, hd⟩
  | some memory =>
    obtain ⟨hident, hsignature⟩ := hbare memory hbuffer size hsize
    dsimp only
    obtain ⟨d₁, hread, hd₁⟩ := readSector_readable (b := b) hd
      { sc with sectorSize := size, sectorSizeShift := getSizeBits size, buffer := memory } memory 0
      (hdepend memory hbuffer).1
    rw [hread]
    dsimp only
    rw [hident]
    dsimp only
    rw [if_pos hsignature]
    exact ⟨_, d₁, rfl, hsc, hd₁⟩

theorem Underway.not_idle (h : Underway b im sc) : sc.state ≠ .idle := by
  cases h with
  | mbr hstate => simp [hstate]
  | gpt s₀ hat => simp [hat.state]
  | finished hfinished => simp [hfinished.1]

section
variable (b) (env) (im) (fails)

/-- Between two calls on a dependable image. -/
def Between (s : Scanner × FlakyImage) : Prop := (Underway b im s.1 ∨ s.1.Unopened) ∧ s.2.Shows im fails

/-- After a call that has returned null. -/
def Quiet (s : Scanner × FlakyImage) : Prop :=
  (s.1.Finished ∨ s.1.Unopened ∧ im.Bare b env) ∧ s.2.Shows im fails

end

variable {s t : Scanner × FlakyImage} {part : Option (PartInfo b)}

theorem Between.call (hdep : im.Dependable b env) (h : Between b im fails s) :
    ¬ Aborts b env s ∧
      ∀ part t, Call b env s part t → Between b im fails t ∧ (part = none → Quiet b env im fails t) := by
  obtain ⟨h, hd⟩ := h
  cases h with
  | inl h =>
    have hloop : ∀ fuel, next (b := b) env fuel s.1 s.2 = nextLoop env fuel s.1 s.2 := fun fuel => if_neg h.not_idle
    constructor
    · rintro ⟨fuel, hn⟩
      rw [hloop] at hn
      exact (h.nextLoop env hd).1 hn
    · rintro part t ⟨fuel, hn⟩
      rw [hloop] at hn
      obtain ⟨hu, hd', hend⟩ := (h.nextLoop env hd).2 _ _ _ hn
      exact ⟨⟨.inl hu, hd'⟩, fun hnone => ⟨.inl (hend hnone), hd'⟩⟩
  | inr h =>
    have hkeeps := openTable_keeps hd hdep h
    cases hp : openTable (b := b) env s.1 s.2 with
    | returned part sc₁ d₁ =>
      rw [hp] at hkeeps
      have hnext : ∀ fuel, next (b := b) env fuel s.1 s.2 = some (some (part, sc₁, d₁)) := fun fuel => by
        rw [next, if_pos h.1, hp]
      constructor
      · rintro ⟨fuel, hn⟩
        rw [hnext] at hn
        cases hn
      · rintro part' ⟨sc', d'⟩ ⟨fuel, hn⟩
        rw [hnext] at hn
        cases hn
        cases part with
        | none => exact ⟨⟨.inr hkeeps.1.1, hkeeps.2⟩, fun _ => ⟨.inr hkeeps.1, hkeeps.2⟩⟩
        | some part => exact ⟨⟨.inl hkeeps.1, hkeeps.2⟩, by simp⟩
    | again sc₁ d₁ =>
      rw [hp] at hkeeps
      obtain ⟨hu, hd₁⟩ := hkeeps
      have hnext : ∀ fuel, next (b := b) env fuel s.1 s.2 = nextLoop env fuel sc₁ d₁ := fun fuel => by
        rw [next, if_pos h.1, hp]
      constructor
      · rintro ⟨fuel, hn⟩
        rw [hnext] at hn
        exact (hu.nextLoop env hd₁).1 hn
      · rintro part t ⟨fuel, hn⟩
        rw [hnext] at hn
        obtain ⟨hu', hd', hend⟩ := (hu.nextLoop env hd₁).2 _ _ _ hn
        exact ⟨⟨.inl hu', hd'⟩, fun hnone => ⟨.inl (hend hnone), hd'⟩⟩
    | aborted =>
      rw [hp] at hkeeps
      exact hkeeps.elim

/-- A call after null returns null, and everything stays as it is. -/
theorem Quiet.call (hdep : im.Dependable b env) (h : Quiet b env im fails s) (hc : Call b env s part t) :
    part = none ∧ Quiet b env im fails t ∧ t.1.state = s.1.state := by
  obtain ⟨sc', d'⟩ := t
  obtain ⟨h, hd⟩ := h
  obtain ⟨fuel, hn⟩ := hc
  rcases h with h | ⟨h, hbare⟩
  · rw [next, if_neg (by simp [h.1])] at hn
    cases fuel with
    | zero => cases hn
    | succ fuel =>
      rw [nextLoop, pass, if_neg (Nat.not_lt.mpr h.2)] at hn
      cases hn
      exact ⟨rfl, ⟨.inl ⟨rfl, h.2⟩, hd⟩, h.1.symm⟩
  · obtain ⟨sc₁, d₁, hopen, hsc₁, hd₁⟩ := openTable_bare (b := b) hd hdep hbare h
    rw [next, if_pos h.1, hopen] at hn
    cases hn
    exact ⟨rfl, ⟨.inr ⟨hsc₁, hbare⟩, hd₁⟩, hsc₁.1.trans h.1.symm⟩

private theorem endsStably_of_dependable (hdep : im.Dependable b env) (fails : Nat → Bool) :
    EndsStably b env (⟨im, fails, 0⟩ : FlakyImage) := by
  have hbetween : ∀ s, Reach (Call b env) (Scanner.new, (⟨im, fails, 0⟩ : FlakyImage)) s → Between b im fails s := by
    intro s hs
    apply hs.invariant (I := Between b im fails)
    · exact ⟨.inr ⟨rfl, rfl, rfl⟩, rfl, rfl⟩
    · intro t part u _ ht hc
      exact ((ht.call hdep).2 part u hc).1
  have hquiet : ∀ s t u, Reach (Call b env) (Scanner.new, (⟨im, fails, 0⟩ : FlakyImage)) s → Call b env s none t →
      Reach (Call b env) t u → Quiet b env im fails u ∧ u.1.state = t.1.state := by
    intro s t u hs hc hu
    have ht := (((hbetween s hs).call hdep).2 none t hc).2 rfl
    apply hu.invariant (I := fun u => Quiet b env im fails u ∧ u.1.state = t.1.state)
    · exact ⟨ht, rfl⟩
    · rintro u part v _ ⟨hq, hstate⟩ hc
      obtain ⟨-, hq', hstate'⟩ := hq.call hdep hc
      exact ⟨hq', hstate'.trans hstate⟩
  constructor
  · intro s t u v part hs hc hu hc'
    exact ((hquiet s t u hs hc hu).1.call hdep hc').1
  · intro s t u hs hc hu
    rw [(hquiet s t u hs hc hu).2]
  · intro s hs
    exact ((hbetween s hs).call hdep).1

private theorem error_unstable {d : FlakyImage} (hs : Reach (Call b env) (Scanner.new, d) s)
    (hc : Call b env s none t) (herror : t.1.state = .error) : ¬ EndsStably b env d := by
  intro hstable
  have hidle : t.1.state ≠ .idle := by simp [herror]
  by_cases hlt : t.1.partitionIndex < t.1.numPartitionEntries
  · apply hstable.no_assert t (hs.tail hc)
    refine ⟨1, ?_⟩
    rw [next, if_neg hidle, nextLoop, pass, if_pos hlt, herror]
  · have hdone : Call b env t none ({ t.1 with state := .done }, t.2) := by
      refine ⟨1, ?_⟩
      rw [next, if_neg hidle, nextLoop, pass, if_neg hlt]
    have hiff := hstable.status s t _ hs hc ((Reach.refl t).tail hdone)
    cases hiff.mpr herror

/-- An image on which reads fail where they can. -/
private def failing (im : Image) : FlakyImage := ⟨im, fun _ => true, 0⟩

private theorem openTable_no_error (hstable : EndsStably b env (failing im)) {sc' : Scanner} {d' : FlakyImage}
    (hopen : openTable (b := b) env Scanner.new (failing im) = .returned none sc' d') : sc'.state ≠ .error := by
  intro herror
  refine error_unstable (t := (sc', d')) (.refl _) ⟨0, ?_⟩ herror hstable
  dsimp only
  rw [next, if_pos (show Scanner.new.state = .idle from rfl), hopen]

variable (env) in
private theorem gpt_fails {s₀ : Scanner} {j : Nat} (hj : j < s₀.numPartitionEntries)
    (hzero : j % s₀.entriesPerSector = 0)
    (hun : im.readableAt b s₀.sectorSizeShift (s₀.sector + j / s₀.entriesPerSector) = false)
    (hfirst : ∀ i < j, i % s₀.entriesPerSector = 0 →
      im.readableAt b s₀.sectorSizeShift (s₀.sector + i / s₀.entriesPerSector) = true)
    (hd : d.Shows im fun _ => true) (h : AtEntry (im.sectorAt b s₀.sectorSizeShift) s₀ sc)
    (hle : sc.partitionIndex ≤ j) : ∃ fuel part t, nextLoop (b := b) env fuel sc d = some (some (part, t)) ∧
      ∃ u, (part = none ∧ u = t ∨ ∃ s, Reach (Call b env) t s ∧ Call b env s none u) ∧ u.1.state = .error := by
  induction hn : j - sc.partitionIndex generalizing sc d with
  | zero =>
    obtain rfl : sc.partitionIndex = j := by omega
    obtain ⟨d', hread, _⟩ := readSector_unreadable (b := b) hd sc sc.buffer
      (s₀.sector + sc.partitionIndex / s₀.entriesPerSector)
      (by rw [h.shift_eq]; exact hun)
    have hposition := h.position
    rw [if_pos hzero] at hposition
    have hpass : pass (b := b) env sc d =
      .returned none { sc with sector := (sc.sector + 1) % 2 ^ 64, state := .error } d' := by
      rw [pass, if_pos (h.count ▸ hj), h.state]
      dsimp only
      rw [passGpt, h.entriesPerSector_eq, if_pos hzero, readSector_congr hposition, hread]
    refine ⟨1, none, ({ sc with sector := (sc.sector + 1) % 2 ^ 64, state := .error }, d'), ?_, _, .inl ⟨rfl, rfl⟩, rfl⟩
    rw [nextLoop, hpass]
  | succ n ih =>
    have hlt : sc.partitionIndex < j := by omega
    have hkeeps := passGpt_keeps env hd h (hfirst _ hlt)
    have hpass : pass (b := b) env sc d = passGpt env sc d := by
      rw [pass, if_pos (h.count ▸ hlt.trans hj), h.state]
    cases hp : passGpt (b := b) env sc d with
    | returned part sc' d' =>
      rw [hp] at hkeeps hpass
      have hloop : nextLoop (b := b) env 1 sc d = some (some (part, sc', d')) := by rw [nextLoop, hpass]
      cases part with
      | none => exact hkeeps.1.elim
      | some part =>
        obtain ⟨⟨hat, hindex⟩, hd'⟩ := hkeeps
        obtain ⟨fuel, part', t, hnext, u, hu, herror⟩ := ih hd' hat (by omega) (by omega)
        have hcall : Call b env (sc', d') part' t := by
          refine ⟨fuel, ?_⟩
          rw [next, if_neg (by simp [hat.state]), hnext]
        refine ⟨1, some part, _, hloop, u, .inr ?_, herror⟩
        rcases hu with ⟨rfl, rfl⟩ | ⟨s, hs, hc⟩
        · exact ⟨_, .refl _, hcall⟩
        · exact ⟨s, hs.head hcall, hc⟩
    | again sc' d' =>
      rw [hp] at hkeeps hpass
      obtain ⟨⟨hat, hindex⟩, hd'⟩ := hkeeps
      obtain ⟨fuel, part, t, hnext, hu⟩ := ih hd' hat (by omega) (by omega)
      refine ⟨fuel + 1, part, t, ?_, hu⟩
      rw [nextLoop, hpass]
      exact hnext
    | aborted =>
      rw [hp] at hkeeps
      exact hkeeps.elim

private theorem arrayReadable_of_stable {s₀ : Scanner} (hstable : EndsStably b env (failing im))
    (hopen : openTable (b := b) env Scanner.new (failing im) = .again s₀ d) (hd : d.Shows im fun _ => true)
    (hstate : s₀.state = .gpt) (hindex : s₀.partitionIndex = 0) :
    im.ArrayReadable b s₀.sectorSizeShift s₀.sector s₀.numPartitionEntries s₀.entriesPerSector := by
  classical
  by_contra hnot
  have hex : ∃ j, j < s₀.numPartitionEntries ∧ j % s₀.entriesPerSector = 0 ∧
      im.readableAt b s₀.sectorSizeShift (s₀.sector + j / s₀.entriesPerSector) = false := by
    simpa only [Image.ArrayReadable, not_forall, Bool.not_eq_true, exists_prop] using hnot
  obtain ⟨hj, hzero, hun⟩ := Nat.find_spec hex
  have hfirst : ∀ i < Nat.find hex, i % s₀.entriesPerSector = 0 →
      im.readableAt b s₀.sectorSizeShift (s₀.sector + i / s₀.entriesPerSector) = true := by
    intro i hi hmod
    by_contra hread
    exact Nat.find_min hex hi ⟨hi.trans hj, hmod, Bool.eq_false_of_not_eq_true hread⟩
  obtain ⟨fuel, part, t, hloop, u, hu, herror⟩ :=
    gpt_fails env hj hzero hun hfirst hd (AtEntry.start hstate hindex) (by omega)
  have hcall : Call b env (Scanner.new, failing im) part t := by
    refine ⟨fuel, ?_⟩
    dsimp only
    rw [next, if_pos (show Scanner.new.state = .idle from rfl), hopen]
    exact hloop
  rcases hu with ⟨rfl, rfl⟩ | ⟨s, hs, hc⟩
  · exact error_unstable (.refl _) hcall herror hstable
  · exact error_unstable (hs.head hcall) hc herror hstable

private theorem dependable_of_endsStably (hstable : EndsStably b env (failing im)) : im.Dependable b env := by
  have hd : (failing im).Shows im fun _ => true := ⟨rfl, rfl⟩
  have hchoose : chooseSectorSize b (failing im) = chooseSectorSize b im := rfl
  cases hsize : chooseSectorSize b im with
  | none =>
    have hopen : openTable (b := b) env Scanner.new (failing im) =
        .returned none { Scanner.new with sectorSize := im.sectorSize % 2 ^ 16, state := .error } (failing im) := by
      rw [openTable, hchoose, hsize]
      rfl
    exact (openTable_no_error hstable hopen rfl).elim
  | some size =>
    refine ⟨size, hsize, fun memory hbuffer => ?_⟩
    let sc : Scanner := { Scanner.new with sectorSize := size, sectorSizeShift := getSizeBits size, buffer := memory }
    have hzero : im.readableAt b (getSizeBits size) 0 = true := by
      by_contra hun
      obtain ⟨d', hread, _⟩ := readSector_unreadable (b := b) hd sc memory 0 (Bool.eq_false_of_not_eq_true hun)
      have hopen : openTable (b := b) env Scanner.new (failing im) = .returned none { sc with state := .error } d' := by
        rw [openTable, hchoose, hsize, hbuffer]
        dsimp only
        rw [hread]
      exact openTable_no_error hstable hopen rfl
    refine ⟨hzero, fun hident hsignature htype => ?_⟩
    obtain ⟨d₁, hread, hd₁⟩ := readSector_readable (b := b) hd sc memory 0 hzero
    let sc₁ : Scanner := { sc with buffer := im.buffered b (getSizeBits size) memory 0 }
    have hopen : openTable (b := b) env Scanner.new (failing im) = openGpt env sc₁ d₁ := by
      rw [openTable, hchoose, hsize, hbuffer]
      dsimp only
      rw [hread]
      dsimp only
      rw [hident]
      dsimp only
      rw [if_neg (not_not_intro hsignature), if_pos htype]
    have hone : im.readableAt b (getSizeBits size) GPT_PRIMARY_PARTITION_TABLE_LBA = true := by
      by_contra hun
      obtain ⟨d', hread', _⟩ := readSector_unreadable (b := b) hd₁ sc₁ sc₁.buffer GPT_PRIMARY_PARTITION_TABLE_LBA
        (Bool.eq_false_of_not_eq_true hun)
      rw [openGpt, hread'] at hopen
      exact openTable_no_error hstable hopen rfl
    obtain ⟨d₂, hread', hd₂⟩ := readSector_readable (b := b) hd₁ sc₁ sc₁.buffer GPT_PRIMARY_PARTITION_TABLE_LBA hone
    rw [openGpt, hread'] at hopen
    dsimp only at hopen
    rw [show im.buffered b sc₁.sectorSizeShift sc₁.buffer GPT_PRIMARY_PARTITION_TABLE_LBA =
      im.buffered b (getSizeBits size) memory GPT_PRIMARY_PARTITION_TABLE_LBA from buffered_buffered _ _ _ _] at hopen
    have hverify : verifyGptHeader (im.buffered b (getSizeBits size) memory GPT_PRIMARY_PARTITION_TABLE_LBA) =
      true := by
      by_contra hbad
      rw [if_neg hbad] at hopen
      exact openTable_no_error hstable hopen rfl
    rw [if_pos hverify] at hopen
    cases hentry : env.entryBuffer with
    | none =>
      rw [hentry] at hopen
      exact (openTable_no_error hstable hopen rfl).elim
    | some entryBuffer =>
      rw [hentry] at hopen
      have harray := arrayReadable_of_stable hstable hopen hd₂ rfl rfl
      refine ⟨hone, hverify, rfl, ?_⟩
      dsimp only
      rw [← chooseSectorSize_pow hsize]
      exact harray

end Flaky

/-- Whatever reads of an image fail, next keeps to its end, if and only if the sector size is
supported and, where there is memory, sector 0 and behind a protective MBR a valid header and the
entry array can always be read. -/
theorem ends_stably_iff (b : Build) (env : ScanEnv) (im : Image) :
    (∀ fails, EndsStably b env (⟨im, fails, 0⟩ : FlakyImage)) ↔ im.Dependable b env :=
  ⟨fun h => dependable_of_endsStably (h _), fun h fails => endsStably_of_dependable h fails⟩

/-- Sector 0 cannot be read: the first call of next returns null with an error, the second one null as if all
had been scanned. -/
theorem read_error_forgotten :
    ¬ EndsStably ⟨true, true, true, 512⟩ ⟨⟨0xff, 1, 2, 0xff⟩, fun _ => [], some fun _ => 0, some fun _ => 0⟩
      (⟨⟨fun _ => 0, fun _ _ => false, 512, 2⟩, fun _ => true, 0⟩ : FlakyImage) := by
  intro hstable
  exact openTable_no_error hstable rfl rfl

end DiskStorage
