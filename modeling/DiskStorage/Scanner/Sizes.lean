import DiskStorage.Scanner.EndStates
import DiskStorage.Scanner.Extents
import DiskStorage.Scanner.BootSectors

/-! Offsets and sizes in bytes, against sectors times their size: the products have 32 bits, in 64-bit builds too. -/
namespace DiskStorage
open ByteStore LittleEndian BootSector
open Runs (Reach)

variable {b : Build} {env : ScanEnv} {im : Image}

section Calls
variable {σ : Type} [Device σ] {sc sc' : Scanner} {device device' : σ} {part : Option (PartInfo b)}

theorem pass_null (h : pass (b := b) env sc device = .returned none sc' device') :
    sc'.state = .error ∨ sc'.state = .done := by
  have hentry : ∀ {sc₁ : Scanner} {d : σ}, passGptEntry (b := b) env sc₁ d ≠ .returned none sc' device' := by
    intro sc₁ d heq
    rw [passGptEntry] at heq
    split at heq
    · cases heq
    · split at heq
      · cases heq
      · split at heq <;> cases heq
  rw [pass] at h
  split at h
  · split at h
    · split at h
      · rw [passMbr] at h
        split at h
        · cases h
        · split at h <;> cases h
      · cases h
    · rw [passGpt] at h
      split at h
      · split at h
        · cases h
          exact Or.inl rfl
        · exact absurd h hentry
      · exact absurd h hentry
    all_goals cases h
  · cases h
    exact Or.inr rfl

theorem nextLoop_null {fuel : Nat} (h : nextLoop (b := b) env fuel sc device = some (some (none, sc', device'))) :
    sc'.state = .error ∨ sc'.state = .done := by
  obtain ⟨t, _, hends⟩ := (nextLoop_fueled b env).reach (s := (sc, device)) h
  cases hends with
  | returned hp => exact pass_null hp

theorem next_ended {fuel : Nat} (h : sc.state = .error ∨ sc.state = .done)
    (hn : next (b := b) env fuel sc device = some (some (part, sc', device'))) : part = none ∧ sc'.state = .done := by
  have hidle : sc.state ≠ .idle := by rcases h with h | h <;> simp [h]
  rw [next, if_neg hidle] at hn
  cases fuel with
  | zero => cases hn
  | succ fuel =>
    rw [nextLoop, pass] at hn
    by_cases hlt : sc.partitionIndex < sc.numPartitionEntries
    · rw [if_pos hlt] at hn
      rcases h with h | h
      all_goals
        rw [h] at hn
        cases hn
    · rw [if_neg hlt] at hn
      cases hn
      exact ⟨rfl, rfl⟩

end Calls

/-- Where a scan of an image is between two calls of next. -/
inductive Progress (b : Build) (env : ScanEnv) (im : Image) : Scanner × Image → Prop
  /-- No table has been opened; the next call does what the first one did. -/
  | fresh (sc : Scanner) (hidle : sc.state = .idle)
      (hopen : openTable (b := b) env sc im = openTable env Scanner.new im) : Progress b env im (sc, im)
  | scanning (s₀ s : Scanner × Image) (n : Nat) (hs₀ : opened b env im = some s₀)
      (hs : passes b env n s₀.1 s₀.2 = some s) : Progress b env im s
  | ended (s : Scanner × Image) (h : s.1.state = .error ∨ s.1.state = .done) : Progress b env im s

private theorem openGpt_null {σ : Type} [Device σ] {sc sc' : Scanner} {device device' : σ}
    (h : openGpt (b := b) env sc device = .returned none sc' device') : sc'.state = .error := by
  rw [openGpt] at h
  split at h
  · cases h
    rfl
  · split at h
    · split at h
      · cases h
        rfl
      · cases h
    · cases h
      rfl

private theorem openTable_again {sc sc' : Scanner} {im' : Image} (hidle : sc.state = .idle)
    (h : openTable (b := b) env sc im = .returned none sc' im') (herror : sc'.state ≠ .error) :
    im' = im ∧ sc'.state = .idle ∧ openTable (b := b) env sc' im = openTable env sc im := by
  cases hsize : chooseSectorSize b im with
  | none =>
    rw [openTable, hsize] at h
    cases h
    exact absurd rfl herror
  | some size =>
    cases hbuffer : env.buffer with
    | none =>
      rw [openTable, hsize] at h
      simp only [hbuffer] at h
      cases h
      refine ⟨rfl, hidle, ?_⟩
      rw [openTable, openTable, hsize]
    | some memory =>
      rw [openTable, hsize] at h
      simp only [hbuffer, readSector_image] at h
      split at h
      · cases h
        exact absurd rfl herror
      · rename_i hread
        split at hread
        · cases hread
          split at h
          · cases h
          · split at h
            · cases h
              refine ⟨rfl, hidle, ?_⟩
              rw [openTable, openTable, hsize]
              simp only [hbuffer, readSector_image]
            · split at h
              · exact absurd (openGpt_null h) herror
              · cases h
        · cases hread

/-- A call goes on with the scan, and a partition it returns is the volume on the whole disk or
comes from an entry of the table. -/
theorem Progress.call {s t : Scanner × Image} {part : Option (PartInfo b)} (h : Progress b env im s)
    (hc : Call b env s part t) :
    Progress b env im t ∧ ∀ p, part = some p →
      openTable (b := b) env Scanner.new im = .returned (some p) t.1 im ∨
        ∃ s₀ n, opened b env im = some s₀ ∧ returnedAt b env s₀ n = some p := by
  obtain ⟨fuel, hn⟩ := hc
  cases h with
  | fresh sc hidle hopen =>
    dsimp only at hn
    rw [next, if_pos hidle, hopen] at hn
    cases ho : openTable (b := b) env Scanner.new im with
    | returned part' sc' im' =>
      rw [ho] at hn
      cases hn
      cases part with
      | none =>
        refine ⟨?_, by simp⟩
        by_cases herror : t.1.state = .error
        · exact .ended t (Or.inl herror)
        · obtain ⟨him, hidle', hagain⟩ := openTable_again hidle (hopen.trans ho) herror
          obtain ⟨sc', im'⟩ := t
          dsimp only at him hidle' hagain
          subst him
          exact .fresh sc' hidle' (hagain.trans hopen)
      | some p =>
        have hopened : opened b env im = some t := by
          rw [opened, ho]
          rfl
        have him : t.2 = im := (opened_cases hopened).1
        refine ⟨.scanning t t 0 hopened rfl, fun q hq => Or.inl ?_⟩
        cases hq
        rw [← him]
    | again sc' im' =>
      rw [ho] at hn
      have hopened : opened b env im = some (sc', im') := by
        rw [opened, ho]
        rfl
      cases part with
      | none => exact ⟨.ended t (nextLoop_null hn), by simp⟩
      | some p =>
        obtain ⟨m, hret, hm⟩ := nextLoop_returned hn
        refine ⟨.scanning (sc', im') t (m + 1) hopened hm, fun q hq => Or.inr ⟨(sc', im'), m, hopened, ?_⟩⟩
        cases hq
        exact hret
    | aborted =>
      rw [ho] at hn
      cases hn
  | scanning s₀ s n hs₀ hs =>
    have hidle : s.1.state ≠ .idle := by
      rw [passes_state hs]
      exact opened_not_idle hs₀
    rw [next, if_neg hidle] at hn
    cases part with
    | none => exact ⟨.ended t (nextLoop_null hn), by simp⟩
    | some p =>
      obtain ⟨m, hret, hm⟩ := nextLoop_returned hn
      refine ⟨.scanning s₀ t (n + (m + 1)) hs₀ (by rw [passes_add, hs]; exact hm), fun q hq =>
        Or.inr ⟨s₀, n + m, hs₀, ?_⟩⟩
      cases hq
      rw [returnedAt, passes_add, hs]
      exact hret
  | ended s h =>
    obtain ⟨hnone, hdone⟩ := next_ended h hn
    subst hnone
    exact ⟨.ended t (Or.inr hdone), by simp⟩

/-- What next returns on an image, whatever it has returned before. -/
theorem returned_cases {s t : Scanner × Image} {part : PartInfo b}
    (hs : Reach (Call b env) (Scanner.new, im) s) (hc : Call b env s (some part) t) :
    openTable (b := b) env Scanner.new im = .returned (some part) t.1 im ∨
      ∃ s₀ n, opened b env im = some s₀ ∧ returnedAt b env s₀ n = some part := by
  have hprogress : Progress b env im s := by
    apply hs.invariant (I := Progress b env im)
    · exact .fresh Scanner.new rfl rfl
    · exact fun _ _ _ _ h hc => (h.call hc).1
  exact (hprogress.call hc).2 part rfl

/-- What the tables and the boot sectors say of a partition: the byte that it starts at, which the
scanner computes modulo `limit`, and its size, if they determine it. -/
structure Origin where
  start : Nat
  limit : Nat
  size : Option Nat

/-- Offset and size are exact. -/
def PartInfo.Exact (part : PartInfo b) (o : Origin) : Prop :=
  part.offset = o.start ∧ ∀ size, o.size = some size → part.size = size

/-- Start and size are products that have no more bits than those of the code. -/
def Origin.Small (o : Origin) : Prop := o.start < o.limit ∧ ∀ size, o.size = some size → size < 2 ^ 32

section Origins
variable (b) (types : PartitionTypes) (f : Nat → UInt8) (shift : Nat)

/-- The size of the FAT volume that a boot sector describes, if it fits into `room` bytes. -/
def fatVolume (room : Nat) : Option Nat :=
  if ((identify b types f 0).any fun p => p.systype != .exfat) ∧ sectorCount f * sectorSize f ≤ room then
    some (sectorCount f * sectorSize f)
  else none

/-- A volume on the whole disk of `room` bytes. -/
def diskOrigin (room : Nat) : Origin := ⟨0, 2 ^ 32, fatVolume b types f room⟩

/-- The record `rec` of the boot record at `lba`, with `f` as the first sector of its partition. -/
def recordOrigin (lba : UInt32) (rec : MbrRecord) : Origin where
  start := (lba.toNat + rec.startingLba.toNat) * 2 ^ shift
  limit := 2 ^ 32
  size :=
    let room := rec.sizeInLba.toNat * 2 ^ shift
    if (identify b types f 0).isSome then fatVolume b types f room else some room

/-- An entry of a GPT. Its size counts if it is that of a FAT volume. -/
def entryOrigin (entry : GptEntry) : Origin where
  start := entry.startingLba.toNat * 2 ^ shift
  limit := 2 ^ 64
  size :=
    if types.valid (smingMatch types entry.partitionTypeGuid) then none
    else fatVolume b types f ((entry.endingLba.toNat + 1 - entry.startingLba.toNat) * 2 ^ shift)

end Origins

/-- Where a partition comes from that a scan of an image returns. -/
inductive Source (b : Build) (env : ScanEnv) (im : Image) (part : PartInfo b) : Origin → Prop
  | disk (size : Nat) (sc : Scanner) (hsize : chooseSectorSize b im = some size)
      (hopen : openTable env Scanner.new im = .returned (some part) sc im) :
      Source b env im part (diskOrigin b env.types (im.sectorAt b (getSizeBits size) 0) (Device.capacity im))
  | record (s₀ sc : Scanner) (n k : Nat) (lba : UInt32) (rec : MbrRecord) (hs₀ : opened b env im = some (s₀, im))
      (hstate : s₀.state = .mbr) (hn : passes b env n s₀ im = some (sc, im)) (hpart : (pass env sc im).part = some part)
      (hlba : im.chain b s₀.sectorSizeShift k = some lba)
      (hentries : sc.mbrEntries = im.bootRecords b s₀.sectorSizeShift lba)
      (hrec : (((List.range 4).map fun i => mbrRecord (im.sectorAt b s₀.sectorSizeShift lba.toNat) i).filter fun rec =>
        rec.startingLba != 0 && rec.sizeInLba != 0)[sc.partitionIndex]? = some rec) :
      Source b env im part (recordOrigin b env.types
        (im.sectorAt b s₀.sectorSizeShift (rec.startingLba + lba).toNat) s₀.sectorSizeShift lba rec)
  | entry (s₀ sc : Scanner) (n : Nat) (entry : GptEntry) (hs₀ : opened b env im = some (s₀, im))
      (hstate : s₀.state = .gpt) (hn : passes b env n s₀ im = some (sc, im)) (hpart : (pass env sc im).part = some part)
      (hentry : entry = GptEntry.decode
        (im.sectorAt b s₀.sectorSizeShift (s₀.sector + sc.partitionIndex / s₀.entriesPerSector))
        (sc.partitionIndex % s₀.entriesPerSector * GPT_ENTRY_SIZE)) :
      Source b env im part (entryOrigin b env.types
        (im.sectorAt b s₀.sectorSizeShift entry.startingLba.toNat) s₀.sectorSizeShift entry)

section Exact
variable {part : PartInfo b} {o : Origin} {types : PartitionTypes} {f : Nat → UInt8} {room : Nat}

theorem exact_iff_small (hlimit : 0 < o.limit) (hoffset : part.offset = o.start % o.limit)
    (hsize : ∀ size, o.size = some size → part.size = size % 2 ^ 32) : part.Exact o ↔ o.Small := by
  rw [PartInfo.Exact, Origin.Small, hoffset, Nat.mod_eq_iff_lt hlimit.ne']
  refine and_congr_right fun _ => forall₂_congr fun size h => ?_
  rw [hsize size h, Nat.mod_eq_iff_lt (by decide)]

private theorem storage_word (n : Nat) : b.storage (n % 2 ^ 32) = n % 2 ^ 32 :=
  Build.storage_of_lt_word (Nat.mod_lt _ (by decide))

theorem identify_fat_size {offset : Nat} (h : identify b types f offset = some part) (hfat : part.systype ≠ .exfat) :
    part.size = sectorCount f * sectorSize f % 2 ^ 32 := by
  rw [identify] at h
  split_ifs at h
  all_goals
    cases h
  · exact absurd rfl hfat
  · exact storage_word _
  · exact storage_word _

theorem fatVolume_size {size : Nat} (h : fatVolume b types f room = some size) :
    ∃ p : PartInfo b, identify b types f 0 = some p ∧ p.size = size % 2 ^ 32 := by
  rw [fatVolume] at h
  split at h
  · rename_i hfits
    cases h
    obtain ⟨p, hp, hfat⟩ := (Option.any_eq_true ..).mp hfits.1
    exact ⟨p, hp, identify_fat_size hp (by simpa using hfat)⟩
  · cases h

private theorem storage_wide (h64 : b.size64 = true) (n : Nat) : b.storage n = n % 2 ^ 64 := by
  rw [Build.storage, Build.storageSize, if_pos h64]

theorem diskOrigin_exact_iff (h : identify b types f 0 = some part) :
    part.Exact (diskOrigin b types f room) ↔ (diskOrigin b types f room).Small := by
  have hoffset : part.offset = 0 := by
    have hmoved := identify_setOffset (b := b) (f := f) types 0
    rw [h] at hmoved
    exact congrArg PartInfo.offset (Option.some.inj hmoved)
  apply exact_iff_small (Nat.two_pow_pos 32) hoffset
  intro size hsize
  obtain ⟨p, hp, heq⟩ := fatVolume_size hsize
  cases h.symm.trans hp
  exact heq

variable {env : ScanEnv} {shift : Nat}

theorem recordOrigin_exact_iff {sc : Scanner} {lba : UInt32} {rec : MbrRecord} (hshift : sc.sectorSizeShift = shift)
    (hf : ∀ i < 512, sc.buffer i = f i) :
    (mbrPart (b := b) env sc { rec with startingLba := rec.startingLba + lba }).Exact
        (recordOrigin b env.types f shift lba rec) ↔ (recordOrigin b env.types f shift lba rec).Small := by
  obtain ⟨hoffset, hsize⟩ := identify_getD (b := b) (f := sc.buffer) env.types
    ((rec.startingLba + lba).toNat * 2 ^ shift % 2 ^ 32) (rec.sizeInLba.toNat * 2 ^ shift % 2 ^ 32) []
    env.types.none
  subst hshift
  rw [storage_word] at hoffset
  rw [storage_word, identify_congr hf env.types 0] at hsize
  have hstart : (rec.startingLba + lba).toNat * 2 ^ sc.sectorSizeShift % 2 ^ 32 =
      (lba.toNat + rec.startingLba.toNat) * 2 ^ sc.sectorSizeShift % 2 ^ 32 := by
    rw [UInt32.toNat_add, Nat.mod_mul_mod, Nat.add_comm]
  refine exact_iff_small (Nat.two_pow_pos 32) ?_ fun size h => ?_
  · rw [mbrPart, storage_word]
    exact hoffset.trans hstart
  · rw [mbrPart, storage_word]
    apply hsize.trans
    rw [recordOrigin] at h
    dsimp only at h
    split at h
    · obtain ⟨p, hp, heq⟩ := fatVolume_size h
      rw [hp]
      exact heq
    · rename_i hnone
      cases h
      rw [Option.not_isSome_iff_eq_none.mp hnone]
      rfl

theorem entryOrigin_exact_iff (h64 : b.size64 = true) {entry : GptEntry} {g : Nat → UInt8}
    (hf : ¬ env.types.valid (smingMatch env.types entry.partitionTypeGuid) → ∀ i < 512, g i = f i) :
    (gptPart (b := b) env shift entry g).Exact (entryOrigin b env.types f shift entry) ↔
      (entryOrigin b env.types f shift entry).Small := by
  have hmod : b.storage (entry.startingLba.toNat * 2 ^ shift % 2 ^ 64) =
    entry.startingLba.toNat * 2 ^ shift % 2 ^ 64 := by
    rw [storage_wide h64, Nat.mod_mod]
  have hagain : b.storage (entry.startingLba.toNat * 2 ^ shift % 2 ^ 64) % b.storageSize =
      entry.startingLba.toNat * 2 ^ shift % 2 ^ 64 := by
    rw [hmod, Build.storageSize, if_pos h64, Nat.mod_mod]
  by_cases hvalid : env.types.valid (smingMatch env.types entry.partitionTypeGuid)
  · refine exact_iff_small (Nat.two_pow_pos 64) ?_ fun size h => ?_
    · rw [gptPart, if_pos hvalid]
      exact hagain
    · rw [entryOrigin, if_pos hvalid] at h
      cases h
  · obtain ⟨hoffset, hsize⟩ := identify_getD (b := b) (f := g) env.types
      (b.storage (entry.startingLba.toNat * 2 ^ shift % 2 ^ 64))
      (b.storage ((1 + entry.endingLba - entry.startingLba).toNat * 2 ^ shift % 2 ^ 64)) [] env.types.none
    refine exact_iff_small (Nat.two_pow_pos 64) ?_ fun size h => ?_
    · rw [gptPart, if_neg hvalid]
      exact hoffset.trans hagain
    · rw [gptPart, if_neg hvalid]
      apply hsize.trans
      rw [entryOrigin, if_neg hvalid] at h
      obtain ⟨p, hp, heq⟩ := fatVolume_size h
      rw [identify_congr (hf hvalid) env.types 0, hp]
      exact heq

end Exact

section Sources
variable {part : PartInfo b} {o : Origin}

private theorem openTable_volume {sc : Scanner} {size : Nat} (hsize : chooseSectorSize b im = some size)
    (h : openTable (b := b) env Scanner.new im = .returned (some part) sc im) :
    identify b env.types (im.sectorAt b (getSizeBits size) 0) 0 = some part := by
  rw [openTable, hsize] at h
  simp only [readSector_image] at h
  split at h
  · cases h
  · rename_i memory _
    split at h
    · cases h
    · rename_i hread
      split at hread
      · cases hread
        split at h
        · rename_i hpart
          cases h
          rw [← hpart]
          have hshift := (chooseSectorSize_shift hsize).1
          exact identify_congr (fun i hi => (patch_sector memory hshift 0 hi).symm) env.types 0
        · split at h
          · cases h
          · split at h
            · rw [openGpt] at h
              split at h
              · cases h
              · split at h
                · split at h <;> cases h
                · cases h
            · cases h
      · cases hread

private theorem returned_stands {s₀ sc : Scanner} {n : Nat} (hs₀ : opened b env im = some (s₀, im))
    (hn : passes b env n s₀ im = some (sc, im)) (hpart : (pass env sc im).part = some part) :
    ∃ k, Stands b im s₀ k sc := by
  have hret : returnedAt b env (s₀, im) n = some part := by
    rw [returnedAt, hn]
    exact hpart
  obtain ⟨sc', hn', hk, _⟩ := stands_returned hs₀ hret
  cases hn.symm.trans hn'
  exact ⟨_, hk⟩

private theorem pass_array {s₀ sc : Scanner} {k : Nat} (hk : Stands b im s₀ k sc) (hstate : s₀.state = .gpt)
    (hpart : (pass env sc im).part = some part) :
    ∃ f : Nat → UInt8, ∃ entry, entry = GptEntry.decode
        (im.sectorAt b s₀.sectorSizeShift (s₀.sector + sc.partitionIndex / s₀.entriesPerSector))
        (sc.partitionIndex % s₀.entriesPerSector * GPT_ENTRY_SIZE) ∧
      (¬ env.types.valid (smingMatch env.types entry.partitionTypeGuid) → ∀ i < 512,
        f i = im.sectorAt b s₀.sectorSizeShift entry.startingLba.toNat i) ∧
      part = gptPart env s₀.sectorSizeShift entry f := by
  rw [Stands, hstate] at hk
  obtain ⟨hshift, hsize, -, hat⟩ := hk
  obtain ⟨_, hnone⟩ | ⟨_, sc', hloaded, hindex, hpass⟩ := hat.pass_cases env
  · rw [hnone] at hpart
    cases hpart
  · rw [hpass] at hpart
    obtain ⟨-, f, hf, heq⟩ := hloaded.pass_entry hshift hpart
    have hentry := hloaded.gptEntry_eq hsize hshift
    rw [hindex] at hentry
    exact ⟨f, _, hentry, hf, heq⟩

theorem source_of_call {s t : Scanner × Image} (hs : Reach (Call b env) (Scanner.new, im) s)
    (hc : Call b env s (some part) t) : ∃ o, Source b env im part o := by
  rcases returned_cases hs hc with hopen | ⟨⟨s₀, im'⟩, n, hs₀, hret⟩
  · cases hsize : chooseSectorSize b im with
    | none =>
      rw [openTable, hsize] at hopen
      cases hopen
    | some size => exact ⟨_, .disk size t.1 hsize hopen⟩
  · obtain ⟨him, _⟩ := stands_start hs₀
    dsimp only at him
    subst him
    obtain ⟨sc, hn, hk, -, hpart⟩ := stands_returned hs₀ hret
    cases hstate : s₀.state with
    | mbr =>
      have hat := hk
      rw [Stands, hstate] at hat
      have hshift : 9 ≤ sc.sectorSizeShift := by
        rw [hat.2.shift_eq]
        exact hat.1
      obtain ⟨lba, hlba, hentries⟩ := Option.map_eq_some_iff.mp hat.2.entries
      obtain ⟨entry, _, hentry, -⟩ := pass_record hat.2.state hshift hpart
      obtain ⟨rec, hrec, -⟩ := Option.map_eq_some_iff.mp ((List.getElem?_map ..).symm.trans
        ((congrArg (·[sc.partitionIndex]?) hentries).trans hentry))
      exact ⟨_, .record s₀ sc n _ lba rec hs₀ hstate hn hpart hlba hentries.symm hrec⟩
    | gpt =>
      obtain ⟨_, entry, hentry, -⟩ := pass_array hk hstate hpart
      exact ⟨_, .entry s₀ sc n entry hs₀ hstate hn hpart hentry⟩
    | idle | error | done =>
      rw [Stands, hstate] at hk
      rw [pass, if_neg (by simp only at hk; omega)] at hpart
      cases hpart

theorem Source.exact_iff (h64 : b.size64 = true) (h : Source b env im part o) : part.Exact o ↔ o.Small := by
  cases h with
  | disk size sc hsize hopen => exact diskOrigin_exact_iff (openTable_volume hsize hopen)
  | record s₀ sc n k lba rec hs₀ hstate hn hpart hlba hentries hrec =>
    obtain ⟨k', hat⟩ := returned_stands hs₀ hn hpart
    rw [Stands, hstate] at hat
    have hshift : 9 ≤ sc.sectorSizeShift := by
      rw [hat.2.shift_eq]
      exact hat.1
    obtain ⟨entry, sc', hentry, -, hsc', hf, rfl⟩ := pass_record hat.2.state hshift hpart
    rw [hentries, Image.bootRecords, scanMbrEntries, List.getElem?_map, hrec] at hentry
    cases hentry
    rw [hat.2.shift_eq] at hsc' hf
    exact recordOrigin_exact_iff hsc' hf
  | entry s₀ sc n entry hs₀ hstate hn hpart hentry =>
    obtain ⟨k, hk⟩ := returned_stands hs₀ hn hpart
    obtain ⟨f, entry', hentry', hf, rfl⟩ := pass_array hk hstate hpart
    rw [← hentry] at hentry'
    subst hentry'
    exact entryOrigin_exact_iff h64 hf

end Sources

/-- Each partition that next returns from an image has a source, and offset and size are exact
products of sectors exactly when they are small. -/
theorem byte_extents_exact_iff (b : Build) (env : ScanEnv) (im : Image) (h64 : b.size64 = true)
    (s t : Scanner × Image) (part : PartInfo b) (hs : Reach (Call b env) (Scanner.new, im) s)
    (hc : Call b env s (some part) t) :
    (∃ o, Source b env im part o) ∧ ∀ o, Source b env im part o → (part.Exact o ↔ o.Small) :=
  ⟨source_of_call hs hc, fun _ h => h.exact_iff h64⟩

theorem call_of_first_pass {s₀ : Scanner × Image} {part : PartInfo b} (hs₀ : opened b env im = some s₀)
    (htable : (openTable (b := b) env Scanner.new im).part = none) (hpart : (pass env s₀.1 s₀.2).part = some part) :
    ∃ t, Call b env (Scanner.new, im) (some part) t := by
  rw [opened] at hs₀
  cases ho : openTable (b := b) env Scanner.new im with
  | returned part' sc device =>
    rw [ho] at htable hs₀
    rw [Pass.part] at htable
    subst htable
    cases hs₀
  | again sc device =>
    rw [ho] at hs₀
    cases hs₀
    cases hp : pass (b := b) env sc device with
    | returned part' sc' device' =>
      rw [hp, Pass.part] at hpart
      subst hpart
      refine ⟨(sc', device'), 1, ?_⟩
      dsimp only
      rw [next, if_pos (show Scanner.new.state = .idle from rfl), ho]
      dsimp only
      rw [nextLoop, hp]
    | again sc' device' =>
      rw [hp] at hpart
      cases hpart
    | aborted =>
      rw [hp] at hpart
      cases hpart
  | aborted =>
    rw [ho] at hs₀
    cases hs₀

/-- A disk with one record, of one sector, which starts at sector `low + 65536 * high`. -/
def farImage (low high : UInt8) : Image where
  bytes i :=
    if i = 450 then 0x0c
    else if i = 454 then low
    else if i = 456 then high
    else if i = 458 then 1
    else if i = 510 then 0x55
    else if i = 511 then 0xaa
    else 0
  readable _ _ := true
  sectorSize := 512
  sectorCount := 0x1000000

/-- The partition in sector 1. -/
theorem byte_extents_exact_near : ∃ t part, Call ⟨true, true, true, 512⟩
      ⟨⟨0xff, 1, 2, 0xff⟩, fun _ => [], some fun _ => 0, some fun _ => 0⟩ (Scanner.new, farImage 1 0) (some part) t ∧
    ∃ o, Source ⟨true, true, true, 512⟩
        ⟨⟨0xff, 1, 2, 0xff⟩, fun _ => [], some fun _ => 0, some fun _ => 0⟩ (farImage 1 0) part o ∧
      (part.Exact o ↔ o.Small) := by
  have hmap : ((next (b := ⟨true, true, true, 512⟩)
      ⟨⟨0xff, 1, 2, 0xff⟩, fun _ => [], some fun _ => 0, some fun _ => 0⟩ 1 Scanner.new (farImage 1 0)).bind fun r =>
        r.bind Prod.fst).isSome = true := by decide +kernel
  obtain ⟨part, hpart⟩ := Option.isSome_iff_exists.mp hmap
  obtain ⟨r, hr, hpart⟩ := Option.bind_eq_some_iff.mp hpart
  obtain ⟨⟨part', t⟩, rfl, hpart⟩ := Option.bind_eq_some_iff.mp hpart
  cases hpart
  have hcall : Call ⟨true, true, true, 512⟩
      ⟨⟨0xff, 1, 2, 0xff⟩, fun _ => [], some fun _ => 0, some fun _ => 0⟩ (Scanner.new, farImage 1 0) (some part) t :=
    ⟨1, hr⟩
  obtain ⟨⟨o, ho⟩, hexact⟩ := byte_extents_exact_iff _ _ (farImage 1 0) rfl _ _ _ (.refl _) hcall
  exact ⟨t, part, hcall, o, ho, hexact o ho⟩

/-- A partition that starts at 4 GiB is reported at the start of the disk. -/
theorem start_of_far_partition_lost : ∃ t part o, Call ⟨true, true, true, 512⟩
      ⟨⟨0xff, 1, 2, 0xff⟩, fun _ => [], some fun _ => 0, some fun _ => 0⟩ (Scanner.new, farImage 0 0x80) (some part) t ∧
    Source ⟨true, true, true, 512⟩
      ⟨⟨0xff, 1, 2, 0xff⟩, fun _ => [], some fun _ => 0, some fun _ => 0⟩ (farImage 0 0x80) part o ∧
    ¬ part.Exact o := by
  have hmap : ((opened ⟨true, true, true, 512⟩
      ⟨⟨0xff, 1, 2, 0xff⟩, fun _ => [], some fun _ => 0, some fun _ => 0⟩ (farImage 0 0x80)).map fun s =>
        ((s.1.state, s.1.sectorSizeShift, s.1.partitionIndex), (pass (b := ⟨true, true, true, 512⟩)
          ⟨⟨0xff, 1, 2, 0xff⟩, fun _ => [], some fun _ => 0, some fun _ => 0⟩ s.1 s.2).part.map PartInfo.offset)) =
      some ((.mbr, 9, 0), some 0) := by decide +kernel
  have htable : ((openTable (b := ⟨true, true, true, 512⟩)
      ⟨⟨0xff, 1, 2, 0xff⟩, fun _ => [], some fun _ => 0, some fun _ => 0⟩ Scanner.new (farImage 0 0x80)).part).isNone =
        true := by decide +kernel
  have hrecord : ((((List.range 4).map fun i => mbrRecord
      ((farImage 0 0x80).sectorAt ⟨true, true, true, 512⟩ 9 (0 : UInt32).toNat) i).filter fun rec =>
        rec.startingLba != 0 && rec.sizeInLba != 0)[0]?).map (fun rec => rec.startingLba.toNat) = some 0x800000 := by
    decide +kernel
  obtain ⟨⟨s₀, im⟩, hs₀, heq⟩ := Option.map_eq_some_iff.mp hmap
  obtain ⟨part, hpart, hoffset⟩ := Option.map_eq_some_iff.mp (congrArg Prod.snd heq)
  obtain ⟨rec, hrec, hlba⟩ := Option.map_eq_some_iff.mp hrecord
  have hstate : s₀.state = .mbr := congrArg (fun x => x.1.1) heq
  have hshift : s₀.sectorSizeShift = 9 := congrArg (fun x => x.1.2.1) heq
  have hindex : s₀.partitionIndex = 0 := congrArg (fun x => x.1.2.2) heq
  obtain ⟨him, hstart⟩ := stands_start hs₀
  dsimp only at him hstart hpart
  subst him
  rw [Stands, hstate, hshift] at hstart
  have hentries := hstart.2.entries
  obtain ⟨t, hcall⟩ := call_of_first_pass hs₀ (Option.isNone_iff_eq_none.mp htable) hpart
  refine ⟨t, part, _, hcall, .record s₀ s₀ 0 0 0 rec hs₀ hstate rfl hpart rfl ?_ ?_, ?_⟩
  · rw [hshift]
    exact (Option.some.inj hentries).symm
  · rw [hshift, hindex]
    exact hrec
  · rintro ⟨hexact, -⟩
    rw [hoffset, recordOrigin, hlba, hshift] at hexact
    dsimp only at hexact
    exact absurd hexact (by decide)

end DiskStorage
