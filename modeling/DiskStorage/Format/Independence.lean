import DiskStorage.BlockDevice.Windows
import DiskStorage.Format.Survival

/-! The partitions of a device in use: each is a disk of its own. -/
namespace DiskStorage
open ByteStore Runs
variable {k : Nat} {b : Build}

section Parts
variable {parts : List (PartInfo b)} {part : PartInfo b}

theorem respects_of_inPartitions (horder : parts.Pairwise fun p q => p.stop ≤ q.offset) {op : Op k}
    (hop : op.InPartitions parts) (hpart : part ∈ parts) : op.Respects part.offset part.size := by
  have hpairs : parts.Pairwise fun p q => p.stop ≤ q.offset ∨ q.stop ≤ p.offset := horder.imp Or.inl
  have hapart : ∀ q ∈ parts, part = q ∨ part.stop ≤ q.offset ∨ q.stop ≤ part.offset := by
    intro q hq
    have hsymm : Std.Symm fun p q : PartInfo b => p.stop ≤ q.offset ∨ q.stop ≤ p.offset := ⟨fun p q h => h.symm⟩
    by_cases heq : part = q
    · exact .inl heq
    · exact .inr (hpairs.forall hpart hq heq)
  have hextent : ∀ {address n : Nat}, (∃ q ∈ parts, q.offset ≤ address ∧ address + n ≤ q.stop) →
      (part.offset ≤ address ∧ address + n ≤ part.offset + part.size) ∨ address + n ≤ part.offset ∨
        part.offset + part.size ≤ address := by
    rintro address n ⟨q, hq, hlo, hhi⟩
    rcases hapart q hq with rfl | hbefore | hbehind
    · exact .inl ⟨hlo, hhi⟩
    · exact .inr (.inr (hbefore.trans hlo))
    · exact .inr (.inl (hhi.trans hbehind))
  cases op with
  | read address n => trivial
  | write address src => exact hextent hop
  | eraseRange address n => exact hextent hop
  | sync => trivial
  | allocateBuffers numBuffers memory => trivial

end Parts

namespace GPT

theorem Suitable.in_order {σ : Type} [LawfulDevice σ] {device : σ} {table parts : List (PartInfo b)}
    (hdevice : Suitable b device) (hblocks : (ownLayout b device).reserved + 100 ≤ Device.getSectorCount device)
    (hne : table ≠ []) (hauto : AutoPercentages table)
    (hvalidate : validate (ownRange b device) table = some (.returned .success parts)) :
    parts.Pairwise fun p q => p.stop ≤ q.offset := by
  have hlayout : layoutOf b device (Device.getSectorSize device) = ownLayout b device := by
    rw [layoutOf, hdevice.count_eq]
  obtain ⟨hl, _⟩ := roomy_of_hasRoom hdevice.size_lt hdevice.supported.min_le hdevice.supported.choose
    (by rw [hlayout]; omega)
  rw [hlayout] at hl
  obtain ⟨hexact, -, -, htotal, -⟩ := hl.range
  have hhundred : 100 ≤ (ownLayout b device).available.totalBlocks := by
    rw [htotal]
    exact Nat.le_sub_of_add_le' hblocks
  exact (Available.accepted_of_hundred hexact hhundred hne hauto hvalidate).1

/-- Partitions given as percentages are disks of their own. Whatever reads, writes and erases inside the
partitions a run takes together, those inside one partition, with what they return, make a run of a store
that holds this partition alone. So does a power loss: at every moment each sector of the partition is
on the medium as it is in some state of this store. -/
theorem partitions_are_disks (fenv : FormatEnv) (device : BlockDevice k) (pt table : List (PartInfo b))
    (diskGuid : Uuid) (result : Formatted b (BlockDevice k)) (hready : LawfulDevice.Ready device)
    (hdevice : Suitable b device) (hblocks : (ownLayout b device).reserved + 100 ≤ device.sectorCount)
    (hauto : AutoPercentages table) (hformat : formatDisk fenv device pt table diskGuid = some result)
    (hok : result.err = .success) {tr : List ((Op k × Outcome) × BlockDevice k)}
    (run : Run deviceStep result.device tr) (hin : ∀ e ∈ tr, e.1.1.InRange device.sectorCount)
    (hops : ∀ e ∈ tr, e.1.1.InPartitions result.partitions) (part : PartInfo b) (hpart : part ∈ result.partitions) :
    let store := BlockDevice.part part.offset part.size
    let own := share (stepWithin part.offset part.size) store tr
    Run FlatStore.Step (store result.device) own ∧
      ∀ c ∈ Medium.since result.device.medium (last result.device tr).medium, ∀ s, (s + 1) * 2 ^ k ≤ part.size →
        ∃ g ∈ store result.device :: own.map Prod.snd,
          ∀ i < 2 ^ k, window (Sector.flat c) part.offset part.size (s * 2 ^ k + i) = g (s * 2 ^ k + i) := by
  obtain ⟨_, hvalidate, hsound, hsynced, _⟩ := formatDisk_synced hready hdevice hformat hok
  have hne := ne_nil_of_success hformat hok
  have hroom : HasRoom b device := by
    intro sectorSize hchoose
    cases hdevice.supported.choose.symm.trans hchoose
    rw [layoutOf, hdevice.count_eq]
    exact ⟨(Nat.le_add_right _ _).trans hblocks, .inl (Nat.le_sub_of_add_le' hblocks)⟩
  have halign : 2 ^ k ∣ part.offset := (hdevice.placed hroom hne hauto hvalidate part hpart).2.2.1
  have hrespects : ∀ e ∈ tr, e.1.1.Respects part.offset part.size := fun e he =>
    respects_of_inPartitions (hdevice.in_order hblocks hne hauto hvalidate) (hops e he) hpart
  exact ⟨(run_part hready.2 halign hsound run hin hrespects).1,
    fun c hc s hfits => part_drawn hready.2 halign hsound hsynced run hin hrespects hc hfits⟩

/-- Two partitions on 4 MiB with four buffers, a write to the first and an erase in the second. -/
theorem partitions_are_disks_four_mib : ∃ result : Formatted ⟨true, true, true, 512⟩ (BlockDevice 9),
    result.err = .success ∧ ∀ part ∈ result.partitions,
      Run FlatStore.Step (result.device.part part.offset part.size)
        (share (stepWithin part.offset part.size) (BlockDevice.part part.offset part.size)
          (trace result.device [.write 0x100003 [1, 2], .eraseRange 0x300000 512])) := by
  obtain ⟨parts, hv, huses⟩ := twoPartitions_placed
  obtain ⟨d', hformat⟩ := formatDisk_faultless ⟨some fun _ => 0, Uuid.null, []⟩ [] Uuid.null (fun _ => rfl)
    (fourMib_suitable (some (.new 4 fun _ => Sector.zero))) (List.cons_ne_nil _ _) rfl hv
  have hdisks := partitions_are_disks _ _ _ _ _ _ (fourMib_ready (fun _ => Sector.zero) 4) (fourMib_suitable _)
    (by decide +kernel) (by unfold AutoPercentages; decide) hformat rfl
    (run_trace _ [.write 0x100003 [1, 2], .eraseRange 0x300000 512])
    (fun e he => (huses _ (op_of_mem_trace he)).1) fun e he => (huses _ (op_of_mem_trace he)).2
  exact ⟨_, rfl, fun part hpart => (hdisks part hpart).1⟩

end GPT

end DiskStorage
