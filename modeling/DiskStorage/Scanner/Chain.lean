import DiskStorage.Scanner.Sectors
import DiskStorage.Lib.Walks
import DiskStorage.Lib.Runs

/-! The scan of a disk image pass by pass, and the chain of extended boot records it follows. -/
namespace DiskStorage
open ByteStore LittleEndian
open Walks (walk NoRepeat)

variable {b : Build} {σ : Type} [Device σ] (env : ScanEnv)

namespace Pass

/-- Where the scan goes on: it calls next again as long as next returns a partition. -/
def proceed : Pass b σ → Option (Scanner × σ)
  | .returned (some _) sc device => some (sc, device)
  | .returned none _ _ => none
  | .again sc device => some (sc, device)
  | .aborted => none

/-- The partition that it returns. -/
def part : Pass b σ → Option (PartInfo b)
  | .returned part _ _ => part
  | .again _ _ | .aborted => none

end Pass

/-- A pass with which the loop of next goes on. -/
def GoesOn (b : Build) (env : ScanEnv) (s : Scanner × σ) (_ : Unit) (t : Scanner × σ) : Prop :=
  pass (b := b) env s.1 s.2 = .again t.1 t.2

/-- A pass with which the loop of next ends: it returns, or an assert fails. -/
inductive LoopEnds (b : Build) (env : ScanEnv) (s : Scanner × σ) :
    Option (Option (PartInfo b) × Scanner × σ) → Prop where
  | returned {part : Option (PartInfo b)} {sc : Scanner} {device : σ} :
    pass env s.1 s.2 = .returned part sc device → LoopEnds b env s (some (part, sc, device))
  | aborted : pass (b := b) env s.1 s.2 = .aborted → LoopEnds b env s none

/-- The scanner after so many passes, as long as the scan goes on. -/
def passes (b : Build) (env : ScanEnv) : Nat → Scanner → σ → Option (Scanner × σ)
  | 0, sc, device => some (sc, device)
  | n + 1, sc, device => (pass (b := b) env sc device).proceed.bind fun s => passes b env n s.1 s.2

/-- The partition that next returns with the pass behind `n` others. -/
def returnedAt (b : Build) (env : ScanEnv) (s : Scanner × σ) (n : Nat) : Option (PartInfo b) :=
  (passes b env n s.1 s.2).bind fun s => (pass (b := b) env s.1 s.2).part

/-- The scanner after the table of a device is opened, if the scan goes on from there. -/
def opened (b : Build) (env : ScanEnv) (device : σ) : Option (Scanner × σ) :=
  (openTable (b := b) env Scanner.new device).proceed

section Passes
variable {env} {sc sc' : Scanner} {device device' : σ} {part : Option (PartInfo b)} {m n fuel : Nat}

theorem passes_add (m n : Nat) (sc : Scanner) (device : σ) :
    passes b env (m + n) sc device = (passes b env m sc device).bind fun s => passes b env n s.1 s.2 := by
  induction m generalizing sc device with
  | zero =>
    rw [Nat.zero_add]
    rfl
  | succ m ih =>
    rw [Nat.succ_add, passes, passes]
    cases (pass (b := b) env sc device).proceed with
    | none => rfl
    | some s => exact ih s.1 s.2

theorem passes_none (hmn : m ≤ n) (h : passes b env m sc device = none) : passes b env n sc device = none := by
  obtain ⟨k, rfl⟩ := Nat.exists_eq_add_of_le hmn
  rw [passes_add, h]
  rfl

variable (b env) in
theorem nextLoop_fueled : Runs.Fueled (GoesOn (σ := σ) b env)
    (LoopEnds b env) fun fuel s => nextLoop env fuel s.1 s.2 where
  zero := fun _ => rfl
  stop := by
    intro s r hends fuel
    cases hends with
    | returned hp => rw [nextLoop, hp]
    | aborted hp => rw [nextLoop, hp]
  go := by
    intro s l t hp fuel
    rw [nextLoop, hp]
  progress := by
    intro s
    cases hp : pass (b := b) env s.1 s.2 with
    | returned part sc device => exact Or.inl ⟨_, .returned hp⟩
    | again sc device => exact Or.inr ⟨(), (sc, device), hp⟩
    | aborted => exact Or.inl ⟨_, .aborted hp⟩

/-- A call of next that returns a partition does so with the last of its passes. -/
theorem nextLoop_returned {part : PartInfo b}
    (h : nextLoop env fuel sc device = some (some (some part, sc', device'))) :
    ∃ m, returnedAt b env (sc, device) m = some part ∧ passes b env (m + 1) sc device = some (sc', device') := by
  induction fuel generalizing sc device with
  | zero => cases h
  | succ fuel ih =>
    rw [nextLoop] at h
    cases hp : pass (b := b) env sc device with
    | returned part' sc₁ device₁ =>
      rw [hp] at h
      cases h
      refine ⟨0, ?_, ?_⟩
      · rw [returnedAt, passes, Option.bind_some, hp]
        rfl
      · rw [passes, hp]
        rfl
    | again sc₁ device₁ =>
      rw [hp] at h
      obtain ⟨m, hret, hm⟩ := ih h
      refine ⟨m + 1, ?_, ?_⟩
      · rw [returnedAt, passes, hp]
        exact hret
      · rw [passes, hp]
        exact hm
    | aborted =>
      rw [hp] at h
      cases h

/-- A call of next comes to an end, if the scan does. -/
theorem nextLoop_ends (h : passes b env n sc device = none) (hfuel : n ≤ fuel) :
    nextLoop (b := b) env fuel sc device ≠ none := by
  induction fuel generalizing n sc device with
  | zero =>
    obtain rfl := Nat.le_zero.mp hfuel
    cases h
  | succ fuel ih =>
    rw [nextLoop]
    cases hp : pass (b := b) env sc device with
    | returned part sc₁ device₁ => exact Option.some_ne_none _
    | aborted => exact Option.some_ne_none _
    | again sc₁ device₁ =>
      rcases n with _ | n
      · cases h
      · rw [passes, hp] at h
        exact ih (n := n) h (Nat.le_of_succ_le_succ hfuel)

/-- While the scan goes on, a pass keeps to the kind of table. -/
theorem pass_state {p : Scanner × σ} (h : (pass (b := b) env sc device).proceed = some p) : p.1.state = sc.state := by
  have hentry : ∀ {sc₁ : Scanner} {d : σ}, (passGptEntry (b := b) env sc₁ d).proceed = some p →
      p.1.state = sc₁.state := by
    intro sc₁ d h
    rw [passGptEntry] at h
    split at h
    · cases h
      rfl
    · split at h
      · cases h
        rfl
      · split at h
        all_goals
          cases h
          rfl
  rw [pass] at h
  split at h
  · split at h
    · split at h
      · rw [passMbr] at h
        split at h
        · cases h
          rfl
        · split at h
          all_goals
            cases h
            rfl
      · cases h
    · rw [passGpt] at h
      split at h
      · split at h
        · cases h
        · exact (hentry h).trans rfl
      · exact hentry h
    all_goals cases h
  · cases h

theorem passes_state {s : Scanner × σ} (h : passes b env n sc device = some s) : s.1.state = sc.state := by
  induction n generalizing sc device with
  | zero =>
    cases h
    rfl
  | succ n ih =>
    obtain ⟨p, hp, hrest⟩ := Option.bind_eq_some_iff.mp h
    exact (ih hrest).trans (pass_state hp)

/-- The scan of a device comes to an end when its passes do. -/
theorem scanLoop_ends (hs : sc.state ≠ .idle) (h : passes b env n sc device = none) (hfuel : n ≤ fuel)
    (pt : List (PartInfo b)) : scanLoop env (fuel + 1) sc device pt ≠ none := by
  induction n using Nat.strong_induction_on generalizing fuel sc device pt with
  | _ n ih =>
    have hnext : next (b := b) env fuel sc device = nextLoop env fuel sc device := if_neg hs
    rw [scanLoop, hnext]
    have hends := nextLoop_ends h hfuel
    rcases hl : nextLoop (b := b) env fuel sc device with _ | _ | ⟨_ | part, sc', device'⟩
    · exact absurd hl hends
    · exact Option.some_ne_none _
    · exact Option.some_ne_none _
    · obtain ⟨m, _, hm⟩ := nextLoop_returned hl
      -- the passes after this call are fewer
      have hlt : m + 1 < n := by
        apply Nat.lt_of_not_le
        intro hle
        rw [passes_none hle h] at hm
        cases hm
      have hs' : sc'.state ≠ .idle := fun hidle => hs ((passes_state hm).symm.trans hidle)
      obtain ⟨k, rfl⟩ := Nat.exists_eq_add_of_le hlt.le
      rw [passes_add, hm] at h
      obtain ⟨fuel, rfl⟩ : ∃ f, fuel = f + 1 := ⟨fuel - 1, by omega⟩
      exact ih k (by omega) hs' h (by omega) _

end Passes

namespace Image
variable (b : Build) (im : Image) (shift : Nat)

/-- The bytes from the start of a sector on. -/
def sectorAt (sector : Nat) : Nat → UInt8 := fun i => im.bytes (sectorAddress b shift sector + i)

def readableAt (sector : Nat) : Bool := im.readable (sectorAddress b shift sector) (2 ^ shift)

/-- The records of the boot record at `lba`. -/
def bootRecords (lba : UInt32) : List MbrRecord := scanMbrEntries (im.sectorAt b shift lba.toNat) lba

/-- A record that the scanner follows, instead of taking it for a partition. -/
def isLink (entry : MbrRecord) : Bool :=
  entry.osType == OSTYPE_EXTENDED && im.readableAt b shift entry.startingLba.toNat

/-- The boot record that the scanner goes on with, when it has read the one at `lba`. -/
def link (lba : UInt32) : Option UInt32 :=
  ((im.bootRecords b shift lba).find? (im.isLink b shift)).map MbrRecord.startingLba

/-- The boot records that the scanner comes to, from sector 0 on. -/
def chain : Nat → Option UInt32 := walk (some 0) (im.link b shift)

end Image

variable {im : Image} {shift : Nat}

theorem readSector_image (sc : Scanner) (buffer : Nat → UInt8) (sector : Nat) :
    readSector b sc im buffer sector =
      (if im.readable (sectorAddress b sc.sectorSizeShift sector) (2 ^ sc.sectorSizeShift) then
        some (patch buffer 0 (slice im.bytes (sectorAddress b sc.sectorSizeShift sector) (2 ^ sc.sectorSizeShift)))
      else none, im) := by
  cases h : im.readable (sectorAddress b sc.sectorSizeShift sector) (2 ^ sc.sectorSizeShift) with
  | true => simp only [readSector, Device.read, h, if_true]
  | false => simp only [readSector, Device.read, h, Bool.false_eq_true, if_false]

theorem patch_sector (buffer : Nat → UInt8) (hshift : 9 ≤ shift) (sector : Nat) {i : Nat} (hi : i < 512) :
    patch buffer 0 (slice im.bytes (sectorAddress b shift sector) (2 ^ shift)) i = im.sectorAt b shift sector i :=
  patch_slice buffer im.bytes _ (Nat.lt_of_lt_of_le hi (Nat.pow_le_pow_right (n := 2) (by decide) hshift))

end DiskStorage
