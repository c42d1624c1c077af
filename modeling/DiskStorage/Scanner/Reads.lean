import DiskStorage.Scanner.Chain
import DiskStorage.Lib.Readers

/-! The scanner as a program that only reads: for every device it is one and the same tree of
queries, so that what it finds depends on the answers to its reads alone. -/
namespace DiskStorage
open ByteStore Readers

variable {b : Build} {env : ScanEnv}

/-- What the scanner asks a device. -/
inductive DeviceQuery where
  | getSectorSize
  | read (address size : Nat)

abbrev DeviceQuery.Answer : DeviceQuery → Type
  | .getSectorSize => Nat
  | .read _ _ => Option (List UInt8)

/-- The device answers. -/
def serve {σ : Type} [Device σ] (d : σ) : (q : DeviceQuery) → q.Answer × σ
  | .getSectorSize => (Device.getSectorSize d, d)
  | .read address size => Device.read d address size

/-- The reads of READ_SECTORS. -/
def SectorQuery (b : Build) : DeviceQuery → Prop
  | .getSectorSize => True
  | .read address size => ∃ shift < 16, ∃ sector, address = sectorAddress b shift sector ∧ size = 2 ^ shift

section Reads
variable {R R' : Type} {X Y : Type → Type} {put : ∀ σ, R → σ → X σ} {put' : ∀ σ, R' → σ → Y σ} {Post : R → Prop}
  {Post' : R' → Prop} {F : ∀ (σ : Type) [Device σ], σ → X σ}

/-- A function of any device that only reads: some queries lead to a result and to a device. -/
def Reads (b : Build) (put : ∀ σ, R → σ → X σ) (Post : R → Prop) (F : ∀ (σ : Type) [Device σ], σ → X σ) : Prop :=
  ∃ p : Reader DeviceQuery DeviceQuery.Answer R, p.Within (SectorQuery b) Post ∧
    ∀ (σ : Type) [Device σ] (d : σ), F σ d = put σ (p.run serve d).1 (p.run serve d).2

theorem Reads.done {r : R} (hr : Post r) (h : ∀ (σ : Type) [Device σ] (d : σ), F σ d = put σ r d) :
    Reads b put Post F := ⟨.done r, hr, h⟩

/-- One function decides what is done behind it. -/
theorem Reads.bind [Nonempty R'] {H : ∀ (σ : Type) [Device σ], σ → Y σ}
    {G : R → ∀ (σ : Type) [Device σ], σ → Y σ} (hF : Reads b put Post F)
    (hG : ∀ r, Post r → Reads b put' Post' (G r))
    (h : ∀ (σ : Type) [Device σ] (d : σ) (r : R) (d' : σ), F σ d = put σ r d' → H σ d = G r σ d') :
    Reads b put' Post' H := by
  classical
  obtain ⟨p, hp, hrun⟩ := hF
  have hall : ∀ r, ∃ q : Reader DeviceQuery DeviceQuery.Answer R', Post r → q.Within (SectorQuery b) Post' ∧
      ∀ (σ : Type) [Device σ] (d : σ), G r σ d = put' σ (q.run serve d).1 (q.run serve d).2 := by
    intro r
    by_cases hr : Post r
    · obtain ⟨q, hq⟩ := hG r hr
      exact ⟨q, fun _ => hq⟩
    · exact ⟨.done (Classical.choice ‹_›), fun h => absurd h hr⟩
  choose next hnext using hall
  refine ⟨p.bind next, hp.bind fun r hr => (hnext r hr).1, fun σ _ d => ?_⟩
  rw [Reader.run_bind, h σ d _ _ (hrun σ d)]
  exact (hnext _ hp.run).2 σ _

theorem Reads.sector [Nonempty R] (sc : Scanner) (hshift : sc.sectorSizeShift < 16) (buffer : Nat → UInt8) (s : Nat)
    {N : ∀ (σ : Type) [Device σ], σ → X σ} {G : (Nat → UInt8) → ∀ (σ : Type) [Device σ], σ → X σ}
    (h : ∀ (σ : Type) [Device σ] (d : σ), F σ d = match readSector b sc d buffer s with
      | (none, d) => N σ d
      | (some buffer, d) => G buffer σ d)
    (hN : Reads b put Post N) (hG : ∀ buffer, Reads b put Post (G buffer)) : Reads b put Post F := by
  obtain ⟨p, hp, hrunN⟩ := hN
  choose next hnext hrun using hG
  let q : DeviceQuery := .read (sectorAddress b sc.sectorSizeShift s) (2 ^ sc.sectorSizeShift)
  refine ⟨.ask q fun dst : Option (List UInt8) => (dst.map fun bytes => next (patch buffer 0 bytes)).getD p,
    ⟨⟨_, hshift, s, rfl, rfl⟩, fun dst => ?_⟩, fun σ _ d => ?_⟩
  · cases dst with
    | none => exact hp
    | some bytes => exact hnext _
  · rw [h σ d, readSector, Reader.run, show serve d q = Device.read d _ _ from rfl]
    rcases Device.read d (sectorAddress b sc.sectorSizeShift s) (2 ^ sc.sectorSizeShift) with ⟨_ | bytes, d'⟩
    · exact hrunN σ d'
    · exact hrun _ σ d'

theorem Reads.sized (h : ∀ n, ∃ G : ∀ (σ : Type) [Device σ], σ → X σ,
    (∀ (σ : Type) [Device σ] (d : σ), Device.getSectorSize d = n → F σ d = G σ d) ∧ Reads b put Post G) :
    Reads b put Post F := by
  choose G hG hreads using h
  choose next hnext hrun using hreads
  refine ⟨.ask .getSectorSize fun n : Nat => next n, ⟨trivial, hnext⟩, fun σ _ d => ?_⟩
  rw [hG _ σ d rfl]
  exact hrun _ σ d

end Reads

/-- The outcome of a piece of next, on the device behind it. -/
def Pass.onto (σ : Type) : Pass b Unit → σ → Pass b σ
  | .returned part sc _, d => .returned part sc d
  | .again sc _, d => .again sc d
  | .aborted, _ => .aborted

/-- The scanner of an outcome has the shift of a supported sector size. -/
def Pass.Shifted : Pass b Unit → Prop
  | .returned _ sc _ | .again sc _ => sc.sectorSizeShift < 16
  | .aborted => True

instance : Nonempty (Pass b Unit) := ⟨.aborted⟩

/-- A piece of next that only reads. -/
abbrev PassReads (F : ∀ (σ : Type) [Device σ], σ → Pass b σ) : Prop := Reads b Pass.onto Pass.Shifted F

theorem chooseSectorSize_congr {σ τ : Type} [Device σ] [Device τ] {d : σ} {e : τ}
    (h : Device.getSectorSize d = Device.getSectorSize e) : chooseSectorSize b d = chooseSectorSize b e := by
  rw [chooseSectorSize, chooseSectorSize, h]

section Pieces
variable (b env) {sc : Scanner} (hshift : sc.sectorSizeShift < 16)

theorem reads_returned (sc : Scanner) (part : Option (PartInfo b)) (hshift : sc.sectorSizeShift < 16) :
    PassReads fun _ _ d => .returned part sc d := Reads.done (r := .returned part sc ()) hshift fun _ _ _ => rfl

theorem reads_again (sc : Scanner) (hshift : sc.sectorSizeShift < 16) : PassReads (b := b) fun _ _ d => .again sc d :=
  Reads.done (r := .again sc ()) hshift fun _ _ _ => rfl

include hshift

theorem reads_passMbr (entry : MbrRecord) : PassReads (b := b) fun _ _ d => passMbr env sc d entry := by
  apply Reads.sector { sc with partitionIndex := sc.partitionIndex + 1 } hshift sc.buffer
    entry.startingLba.toNat (fun _ _ _ => rfl)
  · exact reads_again b _ hshift
  · intro buffer
    by_cases hext : entry.osType = OSTYPE_EXTENDED
    · simp only [hext, if_true]
      apply reads_again
      exact hshift
    · simp only [hext, if_false]
      apply reads_returned
      exact hshift

theorem reads_passGptEntry : PassReads (b := b) fun _ _ d => passGptEntry env sc d := by
  unfold passGptEntry
  by_cases hnull : sc.gptEntry.partitionTypeGuid.isNull = true
  · simp only [hnull, if_true]
    apply reads_again
    exact hshift
  · by_cases hvalid : env.types.valid (smingMatch env.types sc.gptEntry.partitionTypeGuid) = true
    · simp only [hnull, hvalid, if_true]
      apply reads_returned
      exact hshift
    · simp only [hnull, hvalid]
      apply Reads.sector { sc with partitionIndex := sc.partitionIndex + 1 } hshift sc.entryBuffer
        sc.gptEntry.startingLba.toNat (fun _ _ _ => rfl)
      · apply reads_again
        exact hshift
      · intro entryBuffer
        apply reads_returned
        exact hshift

theorem reads_passGpt : PassReads (b := b) fun _ _ d => passGpt env sc d := by
  unfold passGpt
  by_cases hfirst : sc.partitionIndex % sc.entriesPerSector = 0
  · simp only [hfirst, if_true]
    apply Reads.sector sc hshift sc.buffer sc.sector (fun _ _ _ => rfl)
    · apply reads_returned
      exact hshift
    · intro buffer
      apply reads_passGptEntry
      exact hshift
  · simp only [hfirst, if_false]
    exact reads_passGptEntry b env hshift

theorem reads_pass : PassReads (b := b) fun _ _ d => pass env sc d := by
  have haborted : PassReads (b := b) fun _ _ _ => .aborted := Reads.done (r := .aborted) trivial fun _ _ _ => rfl
  unfold pass
  by_cases hmore : sc.partitionIndex < sc.numPartitionEntries
  · simp only [hmore, if_true]
    cases hstate : sc.state with
    | mbr =>
      cases hentry : sc.mbrEntries[sc.partitionIndex]? with
      | none => exact haborted
      | some entry => exact reads_passMbr b env hshift entry
    | gpt => exact reads_passGpt b env hshift
    | idle => exact haborted
    | error => exact haborted
    | done => exact haborted
  · simp only [hmore, if_false]
    apply reads_returned
    exact hshift

theorem reads_openGpt : PassReads (b := b) fun _ _ d => openGpt env sc d := by
  apply Reads.sector sc hshift sc.buffer GPT_PRIMARY_PARTITION_TABLE_LBA (fun _ _ _ => rfl)
  · apply reads_returned
    exact hshift
  · intro buffer
    by_cases hvalid : verifyGptHeader buffer = true
    · simp only [hvalid, if_true]
      cases env.entryBuffer with
      | none =>
        apply reads_returned
        exact hshift
      | some entryBuffer =>
        apply reads_again
        exact hshift
    · simp only [hvalid]
      apply reads_returned
      exact hshift

omit hshift in
theorem reads_openTable (sc : Scanner) (hshift : sc.sectorSizeShift < 16) :
    PassReads (b := b) fun _ _ d => openTable env sc d := by
  apply Reads.sized
  intro n
  have hchosen : ∀ (σ : Type) [Device σ] (d : σ), Device.getSectorSize d = n →
      chooseSectorSize b d = chooseSectorSize b (⟨fun _ => 0, n, 0⟩ : RamDisk) := fun _ _ _ hd =>
    chooseSectorSize_congr hd
  cases hsize : chooseSectorSize b (⟨fun _ => 0, n, 0⟩ : RamDisk) with
  | none =>
    refine ⟨fun _ _ d => .returned none { sc with sectorSize := n % 2 ^ 16, state := .error } d, ?_,
      reads_returned b { sc with sectorSize := n % 2 ^ 16, state := .error } none hshift⟩
    intro σ _ d hd
    rw [openTable, hchosen σ d hd, hsize, hd]
  | some sectorSize =>
    have hsmall := chooseSectorSize_lt hsize
    cases hbuffer : env.buffer with
    | none =>
      refine ⟨fun _ _ d => .returned none { sc with sectorSize, sectorSizeShift := getSizeBits sectorSize } d, ?_,
        reads_returned b { sc with sectorSize, sectorSizeShift := getSizeBits sectorSize } none hsmall⟩
      intro σ _ d hd
      rw [openTable, hchosen σ d hd, hsize, hbuffer]
    | some buffer =>
      refine ⟨?_, ?_, ?_⟩
      case refine_2 =>
        intro σ _ d hd
        rw [openTable, hchosen σ d hd, hsize, hbuffer]
      case refine_3 =>
        apply Reads.sector { sc with sectorSize, sectorSizeShift := getSizeBits sectorSize, buffer } hsmall buffer 0
          (fun _ _ _ => rfl)
        · apply reads_returned
          exact hsmall
        · intro buffer
          cases identify b env.types buffer 0 with
          | some part =>
            apply reads_returned
            exact hsmall
          | none =>
            by_cases hsignature : mbrSignature buffer = MSDOS_MBR_SIGNATURE
            · simp only [hsignature, ne_eq, not_true_eq_false, if_false]
              by_cases hgpt : (mbrRecord buffer 0).osType = EFI_PMBR_OSTYPE_EFI_GPT
              · simp only [hgpt, if_true]
                apply reads_openGpt
                exact hsmall
              · simp only [hgpt, if_false]
                apply reads_again
                exact hsmall
            · simp only [hsignature, ne_eq, not_false_eq_true, if_true]
              apply reads_returned
              exact hsmall

end Pieces

/-- What a call of next comes to, on the device behind it. -/
def Scanner.onto (σ : Type) : Option (Option (Option (PartInfo b) × Scanner)) → σ →
    Option (Option (Option (PartInfo b) × Scanner × σ))
  | none, _ => none
  | some none, _ => some none
  | some (some (part, sc)), d => some (some (part, sc, d))

/-- What a scan comes to, on the device behind it. -/
def scanOnto (σ : Type) : Option (Option (Bool × List (PartInfo b))) → σ →
    Option (Option (Bool × σ × List (PartInfo b)))
  | none, _ => none
  | some none, _ => some none
  | some (some (ok, pt)), d => some (some (ok, d, pt))

section Loops
variable (b env)

/-- A scanner that next leaves has the shift of a supported sector size. -/
def NextShifted (r : Option (Option (Option (PartInfo b) × Scanner))) : Prop :=
  ∀ part sc, r = some (some (part, sc)) → sc.sectorSizeShift < 16

theorem reads_nextLoop (fuel : Nat) {sc : Scanner} (hshift : sc.sectorSizeShift < 16) :
    Reads b Scanner.onto (NextShifted b) fun _ _ d => nextLoop (b := b) env fuel sc d := by
  induction fuel generalizing sc with
  | zero => exact Reads.done (r := none) (fun _ _ h => by cases h) fun _ _ _ => rfl
  | succ fuel ih =>
    apply Reads.bind (reads_pass b env hshift) (G := fun r σ _ d => match r with
      | .returned part sc _ => some (some (part, sc, d))
      | .again sc _ => nextLoop env fuel sc d
      | .aborted => some none)
    · intro r hr
      cases r with
      | returned part sc u =>
        refine Reads.done (r := some (some (part, sc))) (fun _ _ h => ?_) fun _ _ _ => rfl
        cases h
        exact hr
      | again sc u => exact ih hr
      | aborted => exact Reads.done (r := some none) (fun _ _ h => by cases h) fun _ _ _ => rfl
    · intro σ _ d r d' hpass
      rw [nextLoop, hpass]
      cases r <;> rfl

theorem reads_next (fuel : Nat) {sc : Scanner} (hshift : sc.sectorSizeShift < 16) :
    Reads b Scanner.onto (NextShifted b) fun _ _ d => next (b := b) env fuel sc d := by
  by_cases hidle : sc.state = .idle
  · apply Reads.bind (reads_openTable b env sc hshift) (G := fun r σ _ d => match r with
      | .returned part sc _ => some (some (part, sc, d))
      | .again sc _ => nextLoop env fuel sc d
      | .aborted => some none)
    · intro r hr
      cases r with
      | returned part sc u =>
        refine Reads.done (r := some (some (part, sc))) (fun _ _ h => ?_) fun _ _ _ => rfl
        cases h
        exact hr
      | again sc u => exact reads_nextLoop b env fuel hr
      | aborted => exact Reads.done (r := some none) (fun _ _ h => by cases h) fun _ _ _ => rfl
    · intro σ _ d r d' hopen
      rw [next, if_pos hidle, hopen]
      cases r <;> rfl
  · obtain ⟨p, hp, hrun⟩ := reads_nextLoop b env fuel hshift
    refine ⟨p, hp, fun σ _ d => ?_⟩
    change next env fuel sc d = _
    rw [next, if_neg hidle]
    exact hrun σ d

theorem reads_scanLoop (fuel : Nat) {sc : Scanner} (hshift : sc.sectorSizeShift < 16) (pt : List (PartInfo b)) :
    Reads b scanOnto (fun _ => True) fun _ _ d => scanLoop env fuel sc d pt := by
  induction fuel generalizing sc pt with
  | zero => exact Reads.done (r := none) trivial fun _ _ _ => rfl
  | succ fuel ih =>
    apply Reads.bind (reads_next b env fuel hshift) (G := fun r σ _ d => match r with
      | none => none
      | some none => some none
      | some (some (none, sc)) => some (some (sc.state != .error, d, pt))
      | some (some (some part, sc)) => scanLoop env fuel sc d
        (pt ++ [{ part with name :=
          if part.name.length = 0 && !part.uniqueGuid.isNull then env.guidName part.uniqueGuid else part.name }]))
    · intro r hr
      rcases r with _ | _ | ⟨_ | part, sc⟩
      · exact Reads.done (r := none) trivial fun _ _ _ => rfl
      · exact Reads.done (r := some none) trivial fun _ _ _ => rfl
      · exact Reads.done (r := some (some (sc.state != .error, pt))) trivial fun _ _ _ => rfl
      · exact ih (hr _ _ rfl) _
    · intro σ _ d r d' hnext
      rw [scanLoop, hnext]
      rcases r with _ | _ | ⟨_ | part, sc⟩ <;> rfl

/-- A scan is a tree of reads, the same for every device. -/
theorem reads_scanPartitions (fuel : Nat) :
    Reads b scanOnto (fun _ => True) fun _ _ d => scanPartitions (b := b) env fuel d :=
  reads_scanLoop b env fuel (by decide) []

end Loops

end DiskStorage
