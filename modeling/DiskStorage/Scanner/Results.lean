import DiskStorage.Scanner.Chain

/-! What scanPartitions returns, from the passes of a scan that comes to an end. -/
namespace DiskStorage
open ByteStore

variable {b : Build}

/-- scanPartitions makes a name from the unique GUID when there is none. -/
def ScanEnv.named (env : ScanEnv) (part : PartInfo b) : PartInfo b :=
  { part with
    name := if part.name.length = 0 && !part.uniqueGuid.isNull then env.guidName part.uniqueGuid else part.name }

section Scans
variable {σ : Type} [Device σ]

/-- From the first scanner the scan makes `n` passes, in which next returns these partitions, and ends
with the other. -/
inductive Scans (env : ScanEnv) : Nat → Scanner → σ → List (PartInfo b) → Scanner → σ → Prop
  | ends {sc sc' : Scanner} {d d' : σ} : pass (b := b) env sc d = .returned none sc' d' → Scans env 1 sc d [] sc' d'
  | again {n : Nat} {sc sc₁ sc' : Scanner} {d d₁ d' : σ} {parts : List (PartInfo b)} :
    pass (b := b) env sc d = .again sc₁ d₁ → Scans env n sc₁ d₁ parts sc' d' → Scans env (n + 1) sc d parts sc' d'
  | returns {n : Nat} {sc sc₁ sc' : Scanner} {d d₁ d' : σ} {part : PartInfo b} {parts : List (PartInfo b)} :
    pass env sc d = .returned (some part) sc₁ d₁ → Scans env n sc₁ d₁ parts sc' d' →
      Scans env (n + 1) sc d (part :: parts) sc' d'

variable {env : ScanEnv} {n fuel : Nat} {sc sc' : Scanner} {d d' : σ} {parts : List (PartInfo b)}

private theorem Scans.nextLoop_eq (h : Scans env n sc d parts sc' d') (hfuel : n ≤ fuel) :
    (parts = [] ∧ nextLoop (b := b) env fuel sc d = some (some (none, sc', d'))) ∨
      ∃ part rest m sc₁ d₁, parts = part :: rest ∧ m < n ∧ nextLoop env fuel sc d = some (some (some part, sc₁, d₁)) ∧
        Scans env m sc₁ d₁ rest sc' d' := by
  induction h generalizing fuel with
  | ends hp =>
    obtain ⟨fuel, rfl⟩ : ∃ k, fuel = k + 1 := ⟨fuel - 1, by omega⟩
    exact Or.inl ⟨rfl, by rw [nextLoop, hp]⟩
  | again hp _ ih =>
    obtain ⟨fuel, rfl⟩ : ∃ k, fuel = k + 1 := ⟨fuel - 1, by omega⟩
    rw [nextLoop, hp]
    obtain hend | ⟨part, rest, m, sc₁, d₁, hparts, hm, hnext, hrest⟩ := ih (Nat.le_of_succ_le_succ hfuel)
    · exact Or.inl hend
    · exact Or.inr ⟨part, rest, m, sc₁, d₁, hparts, Nat.lt_succ_of_lt hm, hnext, hrest⟩
  | returns hp hrest _ =>
    obtain ⟨fuel, rfl⟩ : ∃ k, fuel = k + 1 := ⟨fuel - 1, by omega⟩
    exact Or.inr ⟨_, _, _, _, _, rfl, Nat.lt_succ_self _, by rw [nextLoop, hp], hrest⟩

private theorem Scans.scanLoop_eq (h : Scans env n sc d parts sc' d') (hstate : sc.state ≠ .idle) (hfuel : n ≤ fuel)
    (pt : List (PartInfo b)) :
    scanLoop env (fuel + 1) sc d pt = some (some (sc'.state != .error, d', pt ++ parts.map env.named)) := by
  induction n using Nat.strong_induction_on generalizing fuel sc d parts pt with
  | _ n ih =>
    have hnext : next (b := b) env fuel sc d = nextLoop env fuel sc d := if_neg hstate
    rw [scanLoop, hnext]
    obtain ⟨rfl, hend⟩ | ⟨part, rest, m, sc₁, d₁, rfl, hm, hret, hrest⟩ := h.nextLoop_eq hfuel
    · rw [hend, List.map_nil, List.append_nil]
    · obtain ⟨k, _, hpasses⟩ := nextLoop_returned hret
      have hstate₁ : sc₁.state ≠ .idle := fun hidle => hstate ((passes_state hpasses).symm.trans hidle)
      obtain ⟨fuel, rfl⟩ : ∃ k, fuel = k + 1 := ⟨fuel - 1, by omega⟩
      rw [hret]
      apply (ih m hm hrest hstate₁ (by omega) _).trans
      rw [List.append_assoc]
      rfl

/-- The result of scanPartitions when the table of the device is opened and its scan ends. -/
theorem Scans.scanPartitions_eq {device : σ} (hopen : openTable (b := b) env Scanner.new device = .again sc d)
    (hstate : sc.state ≠ .idle) (h : Scans env n sc d parts sc' d') (hfuel : n < fuel) :
    scanPartitions env fuel device = some (some (sc'.state != .error, d', parts.map env.named)) := by
  obtain ⟨fuel, rfl⟩ : ∃ k, fuel = k + 1 := ⟨fuel - 1, by omega⟩
  have hnext : next (b := b) env fuel sc d = nextLoop env fuel sc d := if_neg hstate
  have hloop := h.scanLoop_eq hstate (Nat.le_of_lt_succ hfuel) []
  rw [scanLoop, hnext] at hloop
  rw [scanPartitions, scanLoop, next, if_pos (show Scanner.new.state = .idle from rfl), hopen]
  exact hloop

end Scans

section Serves
variable {σ : Type} [LawfulDevice σ] {d₀ d : σ} {f : Nat → UInt8} {unit : Nat}

/-- A device that holds `f` and from which whole units can be read. -/
structure Serves (unit : Nat) (d₀ d : σ) (f : Nat → UInt8) : Prop extends Holds d₀ d f where
  reads : Device.ReadsSucceed unit d

theorem Serves.readSector (h : Serves unit d₀ d f) (sc : Scanner) (sector : Nat) (buffer : Nat → UInt8)
    (hsize : 2 ^ sc.sectorSizeShift = unit) (hcap : Device.capacity d₀ < b.storageSize)
    (hin : (sector + 1) * unit ≤ Device.capacity d₀) :
    ∃ buffer' d', readSector b sc d buffer sector = (some buffer', d') ∧ Serves unit d₀ d' f ∧
      ∀ i < unit, buffer' i = f (sector * unit + i) := by
  have hpos : 0 < unit := hsize ▸ Nat.two_pow_pos _
  rw [Nat.succ_mul] at hin
  have hle := Nat.le_mul_of_pos_right sector hpos
  have haddress : sectorAddress b sc.sectorSizeShift sector = sector * unit := by
    rw [sectorAddress, hsize, Build.storage_of_lt (n := sector) (by omega), Build.storage_of_lt (by omega)]
  obtain ⟨d', hread, hholds, hreads⟩ := h.toHolds.read h.reads (Dvd.intro_left sector rfl) dvd_rfl hin
  refine ⟨patch buffer 0 (slice f (sector * unit) unit), d', ?_,
    ⟨hholds, hreads⟩, fun i hi => patch_slice buffer f _ hi⟩
  rw [DiskStorage.readSector, haddress, hsize, hread]

end Serves

end DiskStorage
