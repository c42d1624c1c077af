import DiskStorage.BlockDevice.HostFile
import DiskStorage.Format.Survival

/-! The tables on a file of the host: they outlive the process that has written them, and any number of
those that use the file after it. -/
namespace DiskStorage
open ByteStore Runs
variable {k : Nat} {b : Build}

namespace GPT

/-- Once a file has been created and formatted, with partitions given as percentages, the partitions are
found whenever a device is constructed on the file again: after any number of sessions that write and
erase inside the partitions only, each of them ended at any moment, with buffers not flushed and
whichever raw operations have failed. -/
theorem tables_survive_sessions (fenv : FormatEnv) (env : ScanEnv) (host : Host k) (f path : Option HostFile)
    (size : Nat) (d : HostFileDevice k) (pt table : List (PartInfo b)) (diskGuid : Uuid)
    (result : Formatted b (BlockDevice k)) (hcreate : HostFileDevice.create b host f size = (some d, path))
    (hsectors : d.device.sectorCount ≤ 2 ^ 32 - 1) (hdevice : Suitable b d.device) (hroom : HasRoom b d.device)
    (hcount : table.length ≤ 128) (hauto : AutoPercentages table)
    (htable : ∀ part ∈ table, part.typeGuid.isNull = false ∧ part.name ≠ [] ∧ 0 ∉ part.name ∧ part.name.length ≤ 36)
    (hformat : formatDisk fenv d.device pt table diskGuid = some result) (hok : result.err = .success)
    (hbuffer : env.buffer.isSome) (hentryBuffer : env.entryBuffer.isSome)
    {tr : List ((Op k × Outcome) × BlockDevice k)} (run : Run deviceStep result.device tr)
    (hin : ∀ e ∈ tr, e.1.1.InRange d.device.sectorCount) (hops : ∀ e ∈ tr, e.1.1.InPartitions result.partitions) :
    ∀ c ∈ Medium.since result.device.medium (last result.device tr).medium,
      ∀ ss : List ((Host k × List (Op k)) × HostFile), Run (sessionStep b) ⟨d.fileSize, Sector.flat c⟩ ss →
      (∀ e ∈ ss, ∀ op ∈ e.1.2, op.InRange d.device.sectorCount ∧ op.InPartitions result.partitions) →
      ∀ (host' : Host k) (d' : HostFileDevice k), (∀ n, host'.faults.fails n = false) →
        HostFileDevice.ofFile b host' (last ⟨d.fileSize, Sector.flat c⟩ ss) = some d' →
        ∃ scanned e,
          List.Forall₂ (Refound env.types (last ⟨d.fileSize, Sector.flat c⟩ ss).bytes) result.partitions scanned ∧
          ∀ fuel > 129, scanPartitions env fuel d'.device = some (some (true, e, scanned)) := by
  obtain ⟨hsize, hd⟩ := HostFileDevice.of_create hcreate
  obtain ⟨hsound₀, -⟩ := HostFileDevice.attach_spec host (size / 2 ^ k) ((f.getD ⟨0, fun _ => 0⟩).truncate d.fileSize)
  rw [← hd] at hsound₀
  have hfile : d.fileSize = d.device.sectorCount * 2 ^ k := by
    have hlt : d.device.sectorCount * 2 ^ k < b.storageSize := hdevice.size_lt
    rw [hsize, ← hsound₀.size]
    exact Nat.mod_eq_of_lt hlt
  have hsame : d.fileSize / 2 ^ k = d.device.sectorCount := by
    rw [hfile, Nat.mul_div_cancel _ (Nat.two_pow_pos k)]
  obtain ⟨hsound, hsynced, ⟨guid, htable'⟩, hlen, hparts⟩ :=
    formatDisk_findable ⟨hsound₀.coherent, hsectors⟩ hdevice hroom hcount hauto htable hformat hok
  intro c hc ss hss hsession host' d' hfaults hopen
  have hl := hdevice.fits
  have hapart : ∀ {op : Op k}, op.InPartitions result.partitions → ∀ {s : Nat},
      (ownLayout b d.device).TableSector s → ¬ op.Touches s := fun hop _ hs =>
    untouched_of_inPartitions rfl (fun part hpart => ⟨(hparts part hpart).front, (hparts part hpart).back⟩) hop hs
  have htables := partitioned_in_use hsectors hl rfl hsound hsynced htable' run hin
    (fun s hs e he => hapart (hops e he) hs) c hc
  -- the sectors of the table stay in the file
  obtain ⟨hlast, hstay⟩ := sessions_untouched (P := (ownLayout b d.device).TableSector) hss (by rwa [hsame])
    (fun e he op hop => by rw [hsame]; exact (hsession e he op hop).1)
    fun s hs e he op hop => hapart (hsession e he op hop).2 hs
  obtain rfl := HostFileDevice.of_ofFile hopen
  rw [hlast, hsame]
  obtain ⟨hsound', -, hlogical, hfaults'⟩ := HostFileDevice.attach_spec host' d.device.sectorCount
    (last ⟨d.fileSize, Sector.flat c⟩ ss)
  have hbytes := congrArg Sector.flat hlogical
  rw [HostFile.flat_sectors] at hbytes
  rw [← hbytes]
  refine partitioned_scanned hdevice hbuffer hentryBuffer hlen hparts hsound' hsectors (by rwa [hfaults'])
    (htables.congr hl fun s hs i hi => ?_)
  replace hi : i < 2 ^ k := hi
  have hsector := hstay s hs
  rw [HostFile.sectors_flat] at hsector
  rw [hlogical]
  change Sector.flat _ (s * 2 ^ k + i) = Sector.flat c (s * 2 ^ k + i)
  rw [Sector.flat_apply _ _ hi, Sector.flat_apply _ _ hi, hsector]

/-- A host that carries out everything. -/
def willing : Host 9 :=
  ⟨true, true, fun n => decide (2 ^ 32 ≤ n), ⟨fun _ => false, fun _ => Sector.zero⟩, some fun _ => Sector.zero⟩

/-- Two partitions in a new file of 4 MiB, of which the second is erased in one session and the first
written in another one, which may end at any moment. -/
theorem tables_survive_sessions_four_mib : ∃ (d : HostFileDevice 9)
    (result : Formatted ⟨true, true, true, 512⟩ (BlockDevice 9)), d.fileSize = 8192 * 512 ∧ result.err = .success ∧
    ∀ c ∈ Medium.since result.device.medium (last result.device (trace result.device [.eraseRange 0x300000 512])).medium,
      ∀ f, sessionStep ⟨true, true, true, 512⟩ ⟨d.fileSize, Sector.flat c⟩ (willing, [.write 0x100003 [1, 2]]) f →
      ∀ d', HostFileDevice.ofFile ⟨true, true, true, 512⟩ willing f = some d' → ∃ scanned e,
        List.Forall₂ (Refound ⟨0xff, 1, 2, 0xff⟩ f.bytes) result.partitions scanned ∧
        ∀ fuel > 129, scanPartitions ⟨⟨0xff, 1, 2, 0xff⟩, fun _ => [], some fun _ => 0, some fun _ => 0⟩ fuel d'.device =
          some (some (true, e, scanned)) := by
  obtain ⟨parts, hv, huses⟩ := twoPartitions_placed
  let d : HostFileDevice 9 := HostFileDevice.attach willing 8192 (HostFile.truncate ⟨0, fun _ => 0⟩ (8192 * 512))
  have hcreate : HostFileDevice.create ⟨true, true, true, 512⟩ willing none (8192 * 512 + 100) =
      (some d, some d.file) := rfl
  have hdevice : Suitable ⟨true, true, true, 512⟩ d.device := by
    have hfour := fourMib_suitable none
    exact ⟨⟨hfour.supported, hfour.size_lt, hfour.room⟩, hfour.aligned⟩
  obtain ⟨d', hformat⟩ := formatDisk_faultless ⟨some fun _ => 0, Uuid.null, []⟩ [] Uuid.null (fun _ => rfl)
    hdevice (List.cons_ne_nil _ _) rfl hv
  have hroom : HasRoom ⟨true, true, true, 512⟩ d.device := by
    intro sectorSize hchoose
    cases hchoose
    exact ⟨by decide +kernel, Or.inl (by decide +kernel)⟩
  have hfirst := huses (.write 0x100003 [1, 2]) List.mem_cons_self
  have hsecond := huses (.eraseRange 0x300000 512) (List.mem_cons_of_mem _ List.mem_cons_self)
  have hscans := tables_survive_sessions _
    ⟨⟨0xff, 1, 2, 0xff⟩, fun _ => [], some fun _ => 0, some fun _ => 0⟩ _ _ _ _ d _ _ _ _ hcreate (by decide)
    hdevice hroom (by decide) (by unfold AutoPercentages; decide) (by decide) hformat rfl rfl rfl
    (run_trace _ [.eraseRange 0x300000 512])
    (fun e he => by
      rw [List.mem_singleton.mp (op_of_mem_trace he)]
      exact hsecond.1)
    (fun e he => by
      rw [List.mem_singleton.mp (op_of_mem_trace he)]
      exact hsecond.2)
  refine ⟨d, ⟨.success, d', parts, []⟩, rfl, rfl, fun c hc f hsession d' hopen => ?_⟩
  refine hscans c hc [(_, f)] (.cons hsession (.nil f)) (fun e he op hop => ?_) willing d' (fun _ => rfl) hopen
  rw [List.mem_singleton.mp he] at hop
  rw [List.mem_singleton.mp hop]
  exact hfirst

end GPT

end DiskStorage
