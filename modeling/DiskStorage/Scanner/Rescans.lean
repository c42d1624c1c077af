import DiskStorage.Scanner.Reads
import DiskStorage.BlockDevice.WriteOrder

/-! Scans through the sector buffers, and scans after the device has been used. -/
namespace DiskStorage
open ByteStore Readers Runs

/-- A device with the reads it has been asked for, the address and the number of bytes of each. -/
structure Logged (σ : Type) where
  device : σ
  reads : List (Nat × Nat)

instance {σ : Type} [Device σ] : Device (Logged σ) where
  read d address size := match Device.read d.device address size with
    | (dst, device) => (dst, ⟨device, d.reads ++ [(address, size)]⟩)
  write d address src := match Device.write d.device address src with
    | (ok, device) => (ok, { d with device })
  sync d := match Device.sync d.device with
    | (ok, device) => (ok, { d with device })
  getSectorSize d := Device.getSectorSize d.device
  getSectorCount d := Device.getSectorCount d.device

section Log
variable (b : Build) (env : ScanEnv) (fuel : Nat) {σ : Type} [Device σ]

/-- The reads of a scan, in their order. -/
def scanReads (d : σ) : List (Nat × Nat) :=
  match scanPartitions (b := b) env fuel (⟨d, []⟩ : Logged σ) with
  | some (some (_, d, _)) => d.reads
  | some none | none => []

/-- The reads among some queries. -/
def readsOf (tr : List (Σ q : DeviceQuery, q.Answer)) : List (Nat × Nat) :=
  tr.filterMap fun e => match e.1 with
    | .getSectorSize => none
    | .read address size => some (address, size)

theorem mem_readsOf {tr : List (Σ q : DeviceQuery, q.Answer)} {e : Σ q : DeviceQuery, q.Answer} (he : e ∈ tr)
    {address size : Nat} (hq : e.1 = .read address size) : (address, size) ∈ readsOf tr :=
  List.mem_filterMap.mpr ⟨e, he, by rw [hq]⟩

variable {R : Type} (p : Reader DeviceQuery DeviceQuery.Answer R)

theorem run_logged (d : σ) (log : List (Nat × Nat)) :
    p.run serve (⟨d, log⟩ : Logged σ) =
      ((p.run serve d).1, ⟨(p.run serve d).2, log ++ readsOf (p.transcript serve d)⟩) := by
  induction p generalizing d log with
  | done result => simp [Reader.run, Reader.transcript, readsOf]
  | ask query next ih =>
    cases query with
    | getSectorSize => exact ih _ d log
    | read address size =>
      rw [Reader.run, Reader.run, Reader.transcript]
      have hserve : serve (⟨d, log⟩ : Logged σ) (.read address size) =
          ((serve d (.read address size)).1, ⟨(serve d (.read address size)).2, log ++ [(address, size)]⟩) := rfl
      rw [hserve, ih, List.append_assoc]
      rfl

variable {b env fuel}

theorem scanPartitions_run {d d' : σ} {ok : Bool} {pt : List (PartInfo b)}
    (h : scanPartitions env fuel d = some (some (ok, d', pt))) :
    ∃ p : Reader DeviceQuery DeviceQuery.Answer (Option (Option (Bool × List (PartInfo b)))),
      p.Within (SectorQuery b) (fun _ => True) ∧ (p.run serve d).2 = d' ∧
      scanReads b env fuel d = readsOf (p.transcript serve d) ∧
      ∀ (τ : Type) [Device τ] (e : τ), Reader.Answers serve e (p.transcript serve d) →
        ∃ e', scanPartitions env fuel e = some (some (ok, e', pt)) := by
  obtain ⟨p, hp, hrun⟩ := reads_scanPartitions b env fuel
  have hd : scanOnto σ (p.run serve d).1 (p.run serve d).2 = some (some (ok, d', pt)) := (hrun σ d).symm.trans h
  have hresult : (p.run serve d).1 = some (some (ok, pt)) ∧ (p.run serve d).2 = d' := by
    rcases hr : (p.run serve d).1 with _ | _ | ⟨ok', pt'⟩
    · rw [hr] at hd
      cases hd
    · rw [hr] at hd
      cases hd
    · rw [hr] at hd
      cases hd
      exact ⟨rfl, rfl⟩
  refine ⟨p, hp, hresult.2, ?_, fun τ _ e hanswers => ?_⟩
  · have hlogged := hrun (Logged σ) ⟨d, []⟩
    dsimp only at hlogged
    rw [run_logged, hresult.1] at hlogged
    rw [scanReads, hlogged]
    rfl
  · have hother := hrun τ e
    dsimp only at hother
    rw [(Reader.replay hanswers).1, hresult.1] at hother
    exact ⟨_, hother⟩

theorem scanReads_inRange {d d' : σ} {ok : Bool} {pt : List (PartInfo b)} (hword : b.size64 = false)
    (h : scanPartitions env fuel d = some (some (ok, d', pt))) {k : Nat} (hk : 0 < k) :
    ∀ r ∈ scanReads b env fuel d, r.1 + r.2 ≤ (2 ^ 32 - 1) * 2 ^ k := by
  obtain ⟨p, hp, -, hlog, -⟩ := scanPartitions_run h
  rw [hlog]
  intro r hr
  obtain ⟨⟨q, answer⟩, he, hq⟩ := List.mem_filterMap.mp hr
  have hquery := hp.transcript _ he
  cases q with
  | getSectorSize => cases hq
  | read address size =>
    cases hq
    obtain ⟨shift, hshift, sector, rfl, rfl⟩ := hquery
    have haddress : sectorAddress b shift sector < 2 ^ 32 := by
      have hlt := b.storage_lt (b.storage sector * 2 ^ shift)
      rw [Build.storageSize, hword] at hlt
      exact hlt
    have hsize : 2 ^ shift ≤ 2 ^ 15 := Nat.pow_le_pow_right (by decide) (Nat.le_of_lt_succ hshift)
    have hsector : 2 ^ 1 ≤ 2 ^ k := Nat.pow_le_pow_right (by decide) hk
    dsimp only
    omega

end Log

section Blank
variable {b : Build} {env : ScanEnv} {σ : Type} [Device σ] {d d' : σ}

variable (b env) in
theorem scanPartitions_blank (hsize : chooseSectorSize b d = some 512) (hbuffer : env.buffer.isSome)
    (hread : Device.read d 0 512 = (some (List.replicate 512 0), d')) :
    scanPartitions (b := b) env 1 d = some (some (true, d', [])) := by
  obtain ⟨buffer, hbuffer⟩ := Option.isSome_iff_exists.mp hbuffer
  have hzero : ∀ i < 512, patch buffer 0 (List.replicate 512 (0 : UInt8)) i = 0 := by
    intro i hi
    have hin := patch_inside buffer 0 (List.replicate 512 (0 : UInt8)) (i := i) (by rwa [List.length_replicate])
    rw [Nat.zero_add] at hin
    rw [hin, List.getElem_replicate]
  have hidentify : identify b env.types (patch buffer 0 (List.replicate 512 0)) 0 = none :=
    identify_of_no_boot_code (fun i hi => hzero i (Nat.lt_of_lt_of_le hi (by decide))) 0
  have hsignature : mbrSignature (patch buffer 0 (List.replicate 512 (0 : UInt8))) = 0 := by
    have hbytes : LittleEndian.read (patch buffer 0 (List.replicate 512 (0 : UInt8))) MBR_SIGNATURE 2 = 0 :=
      LittleEndian.read_eq_zero_iff.mpr fun i hi => hzero _ (by rw [MBR_SIGNATURE]; omega)
    exact congrArg UInt16.ofNat hbytes
  have haddress : sectorAddress b (getSizeBits 512) 0 = 0 := by
    rw [sectorAddress, Build.storage_of_lt_word (by decide : 0 < 2 ^ 32), Nat.zero_mul,
      Build.storage_of_lt_word (by decide : 0 < 2 ^ 32)]
  have hpow : 2 ^ getSizeBits 512 = 512 := by decide
  have hopen : openTable (b := b) env Scanner.new d = .returned none
      { Scanner.new with
        sectorSize := 512, sectorSizeShift := getSizeBits 512, buffer := patch buffer 0 (List.replicate 512 0) } d' := by
    simp only [openTable, hsize, hbuffer, readSector, haddress, hpow, hread, hidentify, hsignature]
    rfl
  rw [scanPartitions, scanLoop, next, if_pos (show Scanner.new.state = .idle from rfl), hopen]
  rfl

end Blank

section Buffers
variable {k : Nat} {d₀ d d' : BlockDevice k}

/-- What a device keeps while it is only read: no logical byte changes, and sectors of the medium change
only to what they logically hold. -/
structure OnlyRead (d₀ d : BlockDevice k) : Prop where
  coherent : d.Coherent
  seen_eq : d.seen = d₀.seen
  faults_eq : d.faults = d₀.faults
  buffered : d.buffers.isSome = d₀.buffers.isSome
  evolves : d₀.medium.Evolves (Among [d₀.medium.sectors, d₀.seen]) d.medium

theorem OnlyRead.refl (h : d.Coherent) : OnlyRead d d := ⟨h, rfl, rfl, rfl, .refl⟩

theorem OnlyRead.read (h : OnlyRead d₀ d) {address size : Nat} (hin : address + size ≤ Buffer.invalid * 2 ^ k) :
    OnlyRead d₀ (d.read address size).2 ∧
      ∀ bytes, (d.read address size).1 = some bytes → bytes = slice (Sector.flat d₀.seen) address size := by
  have hresult : d.read address size = ((d.read address size).1, (d.read address size).2) := rfl
  obtain ⟨hkept, hseen, hbytes⟩ := BlockDevice.read_spec h.coherent hin hresult
  rw [h.seen_eq] at hbytes
  refine ⟨⟨hkept.coherent, hseen.trans h.seen_eq, hkept.faults.trans h.faults_eq, ?_, ?_⟩, hbytes⟩
  · rw [← h.buffered, BlockDevice.read]
    split
    · split
      · rfl
      · rfl
    · rename_i bl hb
      rw [hb]
      rfl
  · refine h.evolves.trans (hkept.evolves.mono fun c hc => hc.trans fun c' hc' => ?_)
    have hmedium : Among [d₀.medium.sectors, d₀.seen] d.medium.sectors := h.evolves.current (among_self (by simp))
    rw [hseen, h.seen_eq] at hc'
    simp only [List.mem_cons, List.not_mem_nil, or_false, or_self] at hc'
    rcases hc' with rfl | rfl
    · exact hmedium
    · exact among_self (by simp)

/-- Which of the reads among some queries have failed. -/
def failedReads (tr : List (Σ q : DeviceQuery, q.Answer)) : List Bool :=
  tr.filterMap fun e => match e with
    | ⟨.getSectorSize, _⟩ => none
    | ⟨.read _ _, dst⟩ => some (Option.isNone dst)

/-- The answers of an image: the size of its sectors, and of its bytes those asked for or none. -/
def Image.Gives (im : Image) : (Σ q : DeviceQuery, q.Answer) → Prop
  | ⟨.getSectorSize, n⟩ => n = im.sectorSize
  | ⟨.read address size, dst⟩ => ∀ bytes, dst = some bytes → bytes = slice im.bytes address size

theorem answers_flaky {im : Image} (hreadable : ∀ address size, im.readable address size = false)
    {tr : List (Σ q : DeviceQuery, q.Answer)} (htr : ∀ e ∈ tr, im.Gives e) {fails : Nat → Bool} {reads : Nat}
    (hfails : ∀ i, fails (reads + i) = (failedReads tr).getD i false) :
    Reader.Answers serve (⟨im, fails, reads⟩ : FlakyImage) tr := by
  induction tr generalizing reads with
  | nil => trivial
  | cons e tr ih =>
    have hrest : ∀ e ∈ tr, im.Gives e := fun e he => htr e (List.mem_cons_of_mem _ he)
    have hfirst := htr e List.mem_cons_self
    obtain ⟨q, answer⟩ := e
    cases q with
    | getSectorSize => exact ⟨hfirst.symm, ih hrest hfails⟩
    | read address size =>
      have hsplit : failedReads (⟨.read address size, answer⟩ :: tr) = Option.isNone answer :: failedReads tr := rfl
      rw [hsplit] at hfails
      refine ⟨?_, ih hrest fun i => ?_⟩
      · have hnow : fails reads = Option.isNone answer := hfails 0
        change (if im.readable address size || !fails reads then some (slice im.bytes address size) else none) = answer
        rw [hreadable, hnow]
        cases answer with
        | none => rfl
        | some bytes => exact congrArg some (hfirst bytes rfl).symm
      · rw [Nat.add_assoc, Nat.add_comm 1 i]
        exact hfails (i + 1)

/-- The image of what a device logically holds. -/
def BlockDevice.image (d : BlockDevice k) : Image :=
  ⟨Sector.flat d.logicalSector, fun _ _ => false, 2 ^ k, d.sectorCount⟩

/-- A scan of a device finds what a scan of the image of its logical content finds, reads failing at some
times, and at none if the device has buffers and no raw operation fails. It changes no logical byte,
and brings sectors of the medium only to what they logically hold. -/
theorem scan_through_buffers {b : Build} (env : ScanEnv) (fuel : Nat) {ok : Bool} {pt : List (PartInfo b)}
    (hc : d.Coherent) (hscan : scanPartitions env fuel d = some (some (ok, d', pt)))
    (hreads : ∀ r ∈ scanReads b env fuel d, r.1 + r.2 ≤ (2 ^ 32 - 1) * 2 ^ k) :
    d'.Coherent ∧ d'.logicalSector = d.logicalSector ∧
      d.medium.Evolves (Among [d.medium.sectors, d.logicalSector]) d'.medium ∧
      ∃ fails : Nat → Bool,
        (d.buffers.isSome → (∀ n, d.faults.fails n = false) → ∀ n, fails n = false) ∧
        ∃ e', scanPartitions env fuel (⟨d.image, fails, 0⟩ : FlakyImage) = some (some (ok, e', pt)) := by
  obtain ⟨p, -, hend, hlog, hreplay⟩ := scanPartitions_run hscan
  rw [hlog] at hreads
  have hlogical : d.logicalSector = d.seen := hc.logicalSector_eq
  obtain ⟨hkept, hanswers⟩ : OnlyRead d (p.run serve d).2 ∧ ∀ e ∈ p.transcript serve d, d.image.Gives e ∧
      (d.buffers.isSome → (∀ n, d.faults.fails n = false) → ∀ x ∈ failedReads [e], x = false) :=
    Reader.run_invariant (OnlyRead.refl hc) fun e he s hs => by
      rcases e with ⟨_ | ⟨address, size⟩, answer⟩
      · exact ⟨hs, rfl, by simp [failedReads]⟩
      · obtain ⟨hread, hbytes⟩ := hs.read (hreads _ (mem_readsOf he rfl))
        refine ⟨hread, fun bytes hdst => ?_, fun hbuffers hfaults x hx => ?_⟩
        · rw [BlockDevice.image, hlogical]
          exact hbytes bytes hdst
        · have hsome := BlockDevice.read_faultless (by rwa [hs.faults_eq]) (by rwa [hs.buffered]) address size
          rw [List.mem_singleton.mp hx]
          exact Option.isNone_eq_false_iff.mpr hsome
  rw [hend] at hkept
  have hevolves := hkept.evolves
  rw [hlogical, hkept.coherent.logicalSector_eq]
  refine ⟨hkept.coherent, hkept.seen_eq, hevolves, fun n => (failedReads (p.transcript serve d)).getD n false,
    fun hbuffers hfaults n => ?_, ?_⟩
  · have hnone : ∀ x ∈ failedReads (p.transcript serve d), x = false := by
      intro x hx
      obtain ⟨e, he, hone⟩ := List.mem_filterMap.mp hx
      exact (hanswers e he).2 hbuffers hfaults x (List.mem_filterMap.mpr ⟨e, List.mem_singleton_self e, hone⟩)
    dsimp only
    rw [List.getD_eq_getElem?_getD]
    cases hn : (failedReads (p.transcript serve d))[n]? with
    | none => rfl
    | some x => exact hnone x (List.mem_of_getElem? hn)
  · apply hreplay
    exact answers_flaky (fun _ _ => rfl) (fun e he => (hanswers e he).1) fun i => by rw [Nat.zero_add]

/-- One MiB of zeros, with four buffers. -/
def blank : BlockDevice 9 :=
  { BlockDevice.fresh 2048 ⟨fun _ => false, fun _ => Sector.zero⟩ fun _ => Sector.zero with
    buffers := some (.new 4 fun _ => Sector.zero) }

theorem blank_read : blank.Coherent ∧ ∃ d', Device.read blank 0 512 = (some (List.replicate 512 0), d') := by
  have hcoherent : blank.Coherent := by
    intro bl hbl
    cases hbl
    exact (BufferList.coherent_new 4 _ _).1
  have hseen : blank.seen = fun _ => Sector.zero :=
    BlockDevice.seen_of_noneDirty hcoherent fun bl hbl _ => by
      cases hbl
      rfl
  obtain ⟨bytes, hbytes⟩ := Option.isSome_iff_exists.mp
    (BlockDevice.read_faultless (d := blank) (fun _ => rfl) rfl 0 512)
  have hresult : blank.read 0 512 = (some bytes, (blank.read 0 512).2) := Prod.ext hbytes rfl
  obtain ⟨_, _, hzeros⟩ := BlockDevice.read_spec hcoherent (by decide) hresult
  rw [hzeros bytes rfl, hseen, Sector.slice_zero] at hresult
  exact ⟨hcoherent, _, hresult⟩

/-- Through four buffers. -/
theorem scan_through_buffers_blank : ∃ d' : BlockDevice 9, d'.logicalSector = blank.logicalSector ∧
    ∃ e', scanPartitions (b := ⟨false, false, true, 512⟩) ⟨⟨0xff, 1, 2, 0xff⟩, fun _ => [], some fun _ => 0, none⟩ 1
      (⟨blank.image, fun _ => false, 0⟩ : FlakyImage) = some (some (true, e', [])) := by
  obtain ⟨hcoherent, d', hread⟩ := blank_read
  have hscan := scanPartitions_blank ⟨false, false, true, 512⟩
    ⟨⟨0xff, 1, 2, 0xff⟩, fun _ => [], some fun _ => 0, none⟩ rfl rfl hread
  obtain ⟨_, hlogical, _, fails, hnone, e', he⟩ := scan_through_buffers _ 1 hcoherent hscan
    (scanReads_inRange rfl hscan (by decide))
  have hfails : fails = fun _ => false := funext (hnone rfl fun _ => rfl)
  rw [hfails] at he
  exact ⟨d', hlogical, e', he⟩

end Buffers

section Rescans
variable {k sectorCount : Nat} {d d' : BlockDevice k} {tr : List ((Op k × Outcome) × BlockDevice k)}

/-- A device without buffers and raw failures, and what is on its medium. -/
structure Plain (sectors : Nat → Sector k) (d : BlockDevice k) : Prop where
  unbuffered : d.buffers = none
  faultless : ∀ n, d.faults.fails n = false
  sectors_eq : d.medium.sectors = sectors

/-- It reads whole sectors, and no other bytes. -/
theorem Plain.read {sectors : Nat → Sector k} (h : Plain sectors d) (address size : Nat) :
    (d.read address size).1 =
      (if BlockDevice.aligned (k := k) address size then some (slice (Sector.flat sectors) address size) else none) ∧
    Plain sectors (d.read address size).2 := by
  rw [BlockDevice.read, h.unbuffered]
  cases hal : BlockDevice.aligned (k := k) address size with
  | false => exact ⟨rfl, h⟩
  | true =>
    have hstart : address / 2 ^ k * 2 ^ k = address := by
      simp only [BlockDevice.aligned, Bool.and_eq_true, decide_eq_true_eq] at hal
      exact Nat.div_mul_cancel (Nat.dvd_of_mod_eq_zero hal.1)
    simp only [if_true, rawSectorRead, h.faultless, Bool.false_eq_true, if_false, Option.map_some]
    refine ⟨congrArg some ?_, rfl, h.faultless, h.sectors_eq⟩
    apply List.ext_getElem
    · rw [slice_length, slice_length]
    · intro i hi _
      rw [getElem_slice, getElem_slice, Nat.zero_add, Sector.flat_shift, hstart, h.sectors_eq]

/-- What a scan finds on a synced device it finds there again after any use that has neither written nor
erased a byte of a sector it has read: at every moment, also in the middle of an operation, whichever
raw operations fail and whatever the buffers hold back. -/
theorem scan_survives_use {b : Build} (env : ScanEnv) (fuel : Nat) (hcount : sectorCount ≤ 2 ^ 32 - 1)
    (hs : Sound sectorCount d) (hsynced : d.medium.sectors = d.logicalSector) {faults : Faults k}
    (hfaults : ∀ n, faults.fails n = false) {ok : Bool} {pt : List (PartInfo b)}
    (hscan : scanPartitions env fuel (BlockDevice.fresh sectorCount faults d.medium.sectors) = some (some (ok, d', pt)))
    (run : Run deviceStep d tr) (hin : ∀ e ∈ tr, e.1.1.InRange sectorCount)
    (hapart : ∀ r ∈ scanReads b env fuel (BlockDevice.fresh sectorCount faults d.medium.sectors),
      ∀ s, s * 2 ^ k < r.1 + r.2 → r.1 < (s + 1) * 2 ^ k → ∀ e ∈ tr, ¬ e.1.1.Touches s) :
    ∀ c ∈ Medium.since d.medium (last d tr).medium, ∀ faults' : Faults k, (∀ n, faults'.fails n = false) →
      ∃ d'', scanPartitions env fuel (BlockDevice.fresh sectorCount faults' c) = some (some (ok, d'', pt)) := by
  intro c hc faults' hfaults'
  obtain ⟨p, -, -, hlog, hreplay⟩ := scanPartitions_run hscan
  rw [hlog] at hapart
  apply hreplay
  refine Reader.answers_of_related (I := fun d₁ d₂ => Plain d.medium.sectors d₁ ∧ Plain c d₂)
    ⟨⟨rfl, hfaults, rfl⟩, ⟨rfl, hfaults', rfl⟩⟩ ?_
  rintro ⟨_ | ⟨address, size⟩, answer⟩ he d₁ d₂ ⟨h₁, h₂⟩
  · exact ⟨rfl, h₁, h₂⟩
  · obtain ⟨hread₁, hplain₁⟩ := h₁.read address size
    obtain ⟨hread₂, hplain₂⟩ := h₂.read address size
    refine ⟨?_, hplain₁, hplain₂⟩
    have hsame : slice (Sector.flat c) address size = slice (Sector.flat d.medium.sectors) address size := by
      apply slice_congr
      intro i hi
      have hsector : c ((address + i) / 2 ^ k) = d.medium.sectors ((address + i) / 2 ^ k) := by
        apply synced_untouched hcount hs hsynced run hin _ hc
        apply hapart _ (mem_readsOf he rfl)
        · have := Nat.div_mul_le_self (address + i) (2 ^ k)
          dsimp only
          omega
        · have := Nat.lt_div_mul_add (a := address + i) (Nat.two_pow_pos k)
          dsimp only
          rw [Nat.add_mul]
          omega
      rw [Sector.flat, Sector.flat, hsector]
    change (d₂.read address size).1 = (d₁.read address size).1
    rw [hread₁, hread₂, hsame]

/-- On a blank device without buffers, of which another sector is written through new buffers. -/
theorem scan_survives_use_blank :
    let d : BlockDevice 9 := .fresh 2048 ⟨fun _ => false, fun _ => Sector.zero⟩ fun _ => Sector.zero
    let ops : List (Op 9) := [.allocateBuffers 4 (some fun _ => Sector.zero), .write 1540 [7], .sync]
    ∀ c ∈ Medium.since d.medium (last d (trace d ops)).medium,
      ∃ d', scanPartitions (b := ⟨false, false, true, 512⟩) ⟨⟨0xff, 1, 2, 0xff⟩, fun _ => [], some fun _ => 0, none⟩ 1
        (BlockDevice.fresh 2048 ⟨fun _ => false, fun _ => Sector.zero⟩ c) = some (some (true, d', [])) := by
  intro d ops c hc
  have hplain : Plain (fun _ => Sector.zero) d := ⟨rfl, fun _ => rfl, rfl⟩
  have hbytes : (d.read 0 512).1 = some (List.replicate 512 0) := by
    rw [(hplain.read 0 512).1, if_pos (by decide), Sector.slice_zero]
  have hread : Device.read d 0 512 = (some (List.replicate 512 0), (d.read 0 512).2) := Prod.ext hbytes rfl
  have hlogged : Device.read (⟨d, []⟩ : Logged (BlockDevice 9)) 0 512 =
      (some (List.replicate 512 0), ⟨(d.read 0 512).2, [(0, 512)]⟩) := Prod.ext hbytes rfl
  have hscan := scanPartitions_blank ⟨false, false, true, 512⟩
    ⟨⟨0xff, 1, 2, 0xff⟩, fun _ => [], some fun _ => 0, none⟩ rfl rfl hread
  have hreads : scanReads ⟨false, false, true, 512⟩ ⟨⟨0xff, 1, 2, 0xff⟩, fun _ => [], some fun _ => 0, none⟩ 1 d =
      [(0, 512)] := by
    rw [scanReads, scanPartitions_blank _ _ rfl rfl hlogged]
  refine scan_survives_use _ 1 (by decide : 2048 ≤ 2 ^ 32 - 1) (sound_fresh 2048 _ _) rfl (fun _ => rfl) hscan
    (run_trace d ops) (fun e he => ?_) (fun r hr s hlow _ e he => ?_) c hc _ fun _ => rfl
  · have hop := op_of_mem_trace he
    simp only [ops, List.mem_cons, List.not_mem_nil, or_false] at hop
    rcases hop with hop | hop | hop
    · rw [hop]
      trivial
    · rw [hop]
      exact (by decide : 1540 + 1 ≤ 2048 * 2 ^ 9)
    · rw [hop]
      trivial
  · replace hr := List.mem_singleton.mp (hreads ▸ hr : r ∈ [(0, 512)])
    rw [hr] at hlow
    obtain rfl : s = 0 := by
      dsimp only at hlow
      omega
    have hop := op_of_mem_trace he
    simp only [ops, List.mem_cons, List.not_mem_nil, or_false] at hop
    rcases hop with hop | hop | hop
    · rw [hop]
      exact id
    · rw [hop]
      exact fun h => absurd h.1 (by decide)
    · rw [hop]
      exact id

end Rescans

end DiskStorage
