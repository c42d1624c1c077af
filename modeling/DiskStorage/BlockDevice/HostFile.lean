import DiskStorage.PartInfo
import DiskStorage.BlockDevice.WriteOrder

/-! The device on a file of the host: its raw operations, which are those of a medium but for writes that
the host cuts short, and the life of the file from one constructor to the next. -/
namespace DiskStorage
open ByteStore Runs
variable {k : Nat}

/-- A file, with the bytes below its size. -/
structure HostFile where
  size : Nat
  bytes : Nat → UInt8

/-- Offsets are signed. -/
def isOff64 (n : Nat) : Bool := decide (n < 2 ^ 63)

namespace HostFile
variable (f : HostFile)

/-- `::read` at an offset: as many of the bytes asked for as there are. -/
def read (offset count : Nat) : List UInt8 := slice f.bytes offset (min count (f.size - offset))

/-- The bytes, with zeros behind the end. -/
def extended : Nat → UInt8 := fun a => if a < f.size then f.bytes a else 0

/-- `::write` at an offset, which may lie behind the end. -/
def write (offset : Nat) (src : List UInt8) : HostFile :=
  if src.isEmpty then f
  else if offset + src.length ≤ f.size then { f with bytes := patch f.bytes offset src }
  else ⟨offset + src.length, patch f.extended offset src⟩

/-- `::ftruncate64` -/
def truncate (size : Nat) : HostFile := ⟨size, f.extended⟩

/-- `fallocate64` with FALLOC_FL_PUNCH_HOLE and FALLOC_FL_KEEP_SIZE, which refuses to punch nothing. -/
def punchHole (offset len : Nat) : Option HostFile :=
  if len = 0 then none else some { f with bytes := patch f.bytes offset (List.replicate len 0) }

/-- The file as sectors. -/
def sectors : Nat → Sector k := fun s i => f.bytes (s * 2 ^ k + i.val)

theorem flat_sectors : Sector.flat (f.sectors (k := k)) = f.bytes := by
  funext a
  obtain ⟨s, i, rfl, hi⟩ := Sector.exists_address k a
  rw [Sector.flat_apply _ _ hi]
  simp [Sector.byte, sectors, Nat.mod_eq_of_lt hi]

theorem sectors_patch_outside {address s : Nat} (l : List UInt8)
    (h : s < address ∨ l.length ≤ (s - address) * 2 ^ k) :
    HostFile.sectors (k := k) { f with bytes := patch f.bytes (address * 2 ^ k) l } s = f.sectors s := by
  funext i
  have hi := i.isLt
  refine patch_outside _ _ ?_
  rcases Nat.lt_or_ge s address with hlt | hge
  · have hend := Nat.mul_le_mul_right (2 ^ k) (Nat.succ_le_of_lt hlt)
    rw [Nat.succ_mul] at hend
    exact .inl (by omega)
  · obtain ⟨j, rfl⟩ := Nat.exists_eq_add_of_le hge
    rw [Nat.add_sub_cancel_left] at h
    rw [Nat.add_mul]
    exact .inr (by omega)

theorem sectors_patch_inside (src : Nat → Sector k) (address : Nat) {size j : Nat} (h : j < size) :
    HostFile.sectors (k := k)
      { f with bytes := patch f.bytes (address * 2 ^ k) (slice (Sector.flat src) 0 (size * 2 ^ k)) } (address + j) =
      src j := by
  funext i
  have hend := Nat.mul_le_mul_right (2 ^ k) (Nat.succ_le_of_lt h)
  have hi := i.isLt
  rw [Nat.succ_mul] at hend
  have hin : j * 2 ^ k + i.val < (slice (Sector.flat src) 0 (size * 2 ^ k)).length := by
    rw [slice_length]
    omega
  have hbyte := patch_inside f.bytes (address * 2 ^ k) _ hin
  rw [getElem_slice, Nat.zero_add, Sector.flat_apply _ _ hi, Sector.byte_val, ← Nat.add_assoc, ← Nat.add_mul] at hbyte
  exact hbyte

theorem slice_sectors {address size : Nat} {c : Nat → Sector k}
    (h : ∀ s, address ≤ s ∧ s < address + size → f.sectors s = c s) :
    slice f.bytes (address * 2 ^ k) (size * 2 ^ k) = slice (Sector.flat fun i => c (address + i)) 0 (size * 2 ^ k) := by
  apply List.ext_getElem
  · simp
  · intro n hn _
    rw [slice_length] at hn
    obtain ⟨j, i, rfl, hi⟩ := Sector.exists_address k n
    have hj : j < size := by
      by_contra hge
      have := Nat.mul_le_mul_right (2 ^ k) (Nat.le_of_not_lt hge)
      omega
    have hsector : f.bytes ((address + j) * 2 ^ k + i) = c (address + j) ⟨i, hi⟩ :=
      congrFun (h (address + j) ⟨by omega, by omega⟩) ⟨i, hi⟩
    have hbyte := Sector.byte_val (c (address + j)) ⟨i, hi⟩
    rw [getElem_slice, getElem_slice, Nat.zero_add, Sector.flat_apply _ _ hi, ← Nat.add_assoc, ← Nat.add_mul, hsector,
      hbyte]

theorem sectors_flat (size : Nat) (c : Nat → Sector k) : HostFile.sectors ⟨size, Sector.flat c⟩ = c := by
  funext s i
  have hbyte := Sector.flat_apply c s i.isLt
  rwa [Sector.byte_val] at hbyte

end HostFile

/-- Conversion to `size_t`. -/
def Build.sizeT (b : Build) (n : Nat) : Nat := n % (if b.sizeT64 then 2 ^ 64 else 2 ^ 32)

section Raw
variable (k) (b : Build) (count : Option Nat) (f : HostFile)

/-- `HostFileDevice::raw_sector_read`; `count` is how many bytes the host is ready to transfer, and none
where it refuses. -/
def hostSectorRead (address size : Nat) : Option (List UInt8) :=
  let offset := u64 (address * 2 ^ k)
  if !isOff64 offset then none
  else
    let size := b.sizeT (size * 2 ^ k)
    match count with
    | none => none
    | some n =>
      let dst := (f.read offset size).take n
      if dst.length == size then some dst else none

/-- `HostFileDevice::raw_sector_write`. A write that the host cuts short has changed the file. -/
def hostSectorWrite (address : Nat) (src : Nat → UInt8) (size : Nat) : Bool × HostFile :=
  let offset := u64 (address * 2 ^ k)
  if !isOff64 offset then (false, f)
  else
    let size := b.sizeT (size * 2 ^ k)
    match count with
    | none => (false, f)
    | some n =>
      let written := (slice src 0 size).take n
      (written.length == size, f.write offset written)

/-- `HostFileDevice::raw_sector_erase_range` -/
def hostSectorEraseRange (address size : Nat) : Bool × HostFile :=
  let offset := u64 (address * 2 ^ k)
  let len := u64 (size * 2 ^ k)
  if count.isSome && isOff64 offset && isOff64 len then
    match f.punchHole offset len with
    | some f => (true, f)
    | none => (false, f)
  else (false, f)

end Raw

/-- The raw operations. -/
inductive RawOp (k : Nat) where
  | read (address size : Nat)
  | write (address : Nat) (src : Nat → Sector k) (size : Nat)
  | eraseRange (address size : Nat)
  | sync

namespace RawOp

/-- The sectors are some of the device, and they fit in memory. -/
def InRange (b : Build) (sectorCount : Nat) : RawOp k → Prop
  | read address size => address + size ≤ sectorCount ∧ b.sizeT (size * 2 ^ k) = size * 2 ^ k
  | write address _ size => address + size ≤ sectorCount ∧ b.sizeT (size * 2 ^ k) = size * 2 ^ k
  | eraseRange address size => address + size ≤ sectorCount
  | sync => True

/-- The operation reads the sector. -/
def Reads (s : Nat) : RawOp k → Prop
  | read address size => address ≤ s ∧ s < address + size
  | write .. | eraseRange .. | sync => False

/-- The operation writes the sector. -/
def Writes (s : Nat) : RawOp k → Prop
  | write address _ size => address ≤ s ∧ s < address + size
  | read .. | eraseRange .. | sync => False

def onFile (b : Build) (count : Option Nat) (f : HostFile) : RawOp k → Outcome × HostFile
  | read address size =>
    let dst := hostSectorRead k b count f address size
    (⟨dst.isSome, dst.getD []⟩, f)
  | write address src size =>
    match hostSectorWrite k b count f address (Sector.flat src) size with
    | (r, f) => (⟨r, []⟩, f)
  | eraseRange address size =>
    match hostSectorEraseRange k count f address size with
    | (r, f) => (⟨r, []⟩, f)
  | sync => (⟨true, []⟩, f)

/-- The torn sectors after the operation: a write that is cut short tears the sectors it has reached, a
write or an erase that is carried out makes whole what it replaces. -/
def tears (count : Option Nat) (torn : Nat → Prop) : RawOp k → Nat → Prop
  | read .. | sync => torn
  | write address _ size => fun s =>
    match count with
    | none => torn s
    | some n =>
      if address ≤ s ∧ s < address + size then n < size * 2 ^ k ∧ (torn s ∨ (s - address) * 2 ^ k < n) else torn s
  | eraseRange address size => fun s => torn s ∧ ¬ (count.isSome ∧ address ≤ s ∧ s < address + size)

def onMedium (g : Faults k) (m : Medium k) : RawOp k → Outcome × Medium k
  | read address size =>
    match rawSectorRead g m address with
    | (dst, m) => (⟨dst.isSome, (dst.map fun s => slice (Sector.flat s) 0 (size * 2 ^ k)).getD []⟩, m)
  | write address src size =>
    match rawSectorWrite g m address src size with
    | (r, m) => (⟨r, []⟩, m)
  | eraseRange address size =>
    match rawSectorEraseRange g m address size with
    | (r, m) => (⟨r, []⟩, m)
  | sync =>
    match rawSync g m with
    | (r, m) => (⟨r, []⟩, m)

end RawOp

/-- A file, and the sectors of it that a write cut short has reached and nothing has replaced since. -/
structure TornFile where
  file : HostFile
  torn : Nat → Prop

/-- A raw operation on the file, of which the host carries out as much as it does. -/
def fileStep (b : Build) (f : TornFile) (e : RawOp k × Outcome) (f' : TornFile) : Prop :=
  ∃ count, e.1.onFile b count f.file = (e.2, f'.file) ∧ f'.torn = e.1.tears count f.torn

theorem fileStep_onFile (b : Build) (f : TornFile) (op : RawOp k) (count : Option Nat) :
    fileStep b f (op, (op.onFile b count f.file).1) ⟨(op.onFile b count f.file).2, op.tears count f.torn⟩ :=
  ⟨count, rfl, rfl⟩

def mediumStep (g : Faults k) (m : Medium k) (e : RawOp k × Outcome) (m' : Medium k) : Prop :=
  e.1.onMedium g m = (e.2, m')

section Refinement
variable {b : Build} {sectorCount : Nat} {f f' : TornFile} {m m' : Medium k} {g g' : Faults k} {count : Option Nat}

/-- The file is large enough for the device, and has the content of the medium but for the torn sectors. -/
structure Backs (sectorCount : Nat) (f : TornFile) (m : Medium k) : Prop where
  fits : sectorCount * 2 ^ k ≤ f.file.size
  size_lt : f.file.size < 2 ^ 63
  sectors_eq : ∀ s, ¬ f.torn s → f.file.sectors s = m.sectors s

/-- The operations returned the same, but for what a torn sector was read as. -/
def Agrees (e : (RawOp k × Outcome) × TornFile) (em : (RawOp k × Outcome) × Medium k) : Prop :=
  e.1.1 = em.1.1 ∧ e.1.2.ok = em.1.2.ok ∧ ((∀ s, e.1.1.Reads s → ¬ e.2.torn s) → e.1.2 = em.1.2)

private theorem Backs.offset (h : Backs sectorCount f m) {address size : Nat} (hin : address + size ≤ sectorCount) :
    u64 (address * 2 ^ k) = address * 2 ^ k ∧ u64 (size * 2 ^ k) = size * 2 ^ k ∧
      isOff64 (address * 2 ^ k) = true ∧ isOff64 (size * 2 ^ k) = true ∧
      address * 2 ^ k + size * 2 ^ k ≤ f.file.size := by
  have hend := (Nat.mul_le_mul_right (2 ^ k) hin).trans h.fits
  have hoff := h.size_lt
  rw [Nat.add_mul] at hend
  exact ⟨u64_of_lt (by omega), u64_of_lt (by omega), decide_eq_true (by omega), decide_eq_true (by omega), hend⟩

private theorem Backs.read (h : Backs sectorCount f m) {address size : Nat} (hin : address + size ≤ sectorCount)
    (hsize : b.sizeT (size * 2 ^ k) = size * 2 ^ k) :
    hostSectorRead k b count f.file address size =
      if ∃ n, count = some n ∧ size * 2 ^ k ≤ n then some (slice f.file.bytes (address * 2 ^ k) (size * 2 ^ k))
      else none := by
  obtain ⟨hoffset, _, hlt, _, hend⟩ := h.offset hin
  have hmin : min (size * 2 ^ k) (f.file.size - address * 2 ^ k) = size * 2 ^ k := Nat.min_eq_left (by omega)
  simp only [hostSectorRead, hoffset, hlt, hsize, HostFile.read, hmin]
  cases count with
  | none => simp
  | some n =>
    by_cases hn : size * 2 ^ k ≤ n
    · simp [hn, List.take_of_length_le]
    · simp [hn]

private theorem Backs.write (h : Backs sectorCount f m) {address size : Nat} (hin : address + size ≤ sectorCount)
    (hsize : b.sizeT (size * 2 ^ k) = size * 2 ^ k) (src : Nat → Sector k) (n : Nat) :
    hostSectorWrite k b (some n) f.file address (Sector.flat src) size =
      (decide (size * 2 ^ k ≤ n), { f.file with
        bytes := patch f.file.bytes (address * 2 ^ k) ((slice (Sector.flat src) 0 (size * 2 ^ k)).take n) }) := by
  obtain ⟨hoffset, _, hlt, _, hend⟩ := h.offset hin
  have hlen : ((slice (Sector.flat src) 0 (size * 2 ^ k)).take n).length = min n (size * 2 ^ k) := by simp
  have hwrite : f.file.write (address * 2 ^ k) ((slice (Sector.flat src) 0 (size * 2 ^ k)).take n) =
      { f.file with
        bytes := patch f.file.bytes (address * 2 ^ k) ((slice (Sector.flat src) 0 (size * 2 ^ k)).take n) } := by
    rw [HostFile.write]
    split
    · rename_i hempty
      rw [List.isEmpty_iff.mp hempty, patch_nil]
    · rw [if_pos (by omega)]
  have hall : (min n (size * 2 ^ k) == size * 2 ^ k) = decide (size * 2 ^ k ≤ n) := by
    rw [Bool.eq_iff_iff, beq_iff_eq, decide_eq_true_iff, min_eq_right_iff]
  simp only [hostSectorWrite, hoffset, hlt, hsize, hwrite, hlen, hall]
  rfl

private theorem Backs.eraseRange (h : Backs sectorCount f m) {address size : Nat} (hin : address + size ≤ sectorCount) :
    hostSectorEraseRange k count f.file address size =
      if count.isSome ∧ size ≠ 0 then
        (true, { f.file with bytes := patch f.file.bytes (address * 2 ^ k) (List.replicate (size * 2 ^ k) 0) })
      else (false, f.file) := by
  obtain ⟨hoffset, hlen, hlt, hlt', _⟩ := h.offset hin
  have hnone : size * 2 ^ k = 0 ↔ size = 0 := by simp
  simp only [hostSectorEraseRange, hoffset, hlen, hlt, hlt', HostFile.punchHole, hnone]
  cases count with
  | none => rfl
  | some n => by_cases hs : size = 0 <;> simp [hs]

private theorem Backs.tick (h : Backs sectorCount f m) : Backs sectorCount f m.tick := ⟨h.fits, h.size_lt, h.sectors_eq⟩

private theorem Backs.replace (h : Backs sectorCount f m) (src : Nat → Sector k) (address size : Nat)
    {torn : Nat → Prop} (htorn : ∀ s, ¬ (address ≤ s ∧ s < address + size) → ¬ torn s → ¬ f.torn s) :
    Backs sectorCount
      ⟨{ f.file with bytes := patch f.file.bytes (address * 2 ^ k) (slice (Sector.flat src) 0 (size * 2 ^ k)) }, torn⟩
      (m.become fun s => if address ≤ s ∧ s < address + size then src (s - address) else m.sectors s) := by
  refine ⟨h.fits, h.size_lt, fun s hs => ?_⟩
  by_cases hin : address ≤ s ∧ s < address + size
  · obtain ⟨j, rfl⟩ := Nat.exists_eq_add_of_le hin.1
    refine (HostFile.sectors_patch_inside _ _ _ (by omega)).trans (Eq.trans ?_ (if_pos hin).symm)
    rw [Nat.add_sub_cancel_left]
  · refine (HostFile.sectors_patch_outside _ _ ?_).trans (Eq.trans (h.sectors_eq s (htorn s hin hs)) (if_neg hin).symm)
    rw [slice_length]
    rcases Nat.lt_or_ge s address with hlt | hge
    · exact .inl hlt
    · exact .inr (Nat.mul_le_mul_right _ (by omega))

private theorem Backs.tear (h : Backs sectorCount f m) (src : Nat → Sector k) {address size n : Nat}
    (hn : n < size * 2 ^ k) :
    Backs sectorCount
      ⟨{ f.file with
          bytes := patch f.file.bytes (address * 2 ^ k) ((slice (Sector.flat src) 0 (size * 2 ^ k)).take n) },
        (RawOp.write address src size).tears (some n) f.torn⟩ m.tick := by
  refine ⟨h.fits, h.size_lt, fun s hs => ?_⟩
  have hlen : ((slice (Sector.flat src) 0 (size * 2 ^ k)).take n).length = n := by
    rw [List.length_take, slice_length, Nat.min_eq_left hn.le]
  simp only [RawOp.tears] at hs
  by_cases hin : address ≤ s ∧ s < address + size
  · rw [if_pos hin] at hs
    obtain ⟨huntorn, hreach⟩ := not_or.mp fun hor => hs ⟨hn, hor⟩
    exact (HostFile.sectors_patch_outside _ _ (.inr (by omega))).trans (h.sectors_eq s huntorn)
  · rw [if_neg hin] at hs
    refine (HostFile.sectors_patch_outside _ _ ?_).trans (h.sectors_eq s hs)
    rcases Nat.lt_or_ge s address with hlt | hge
    · exact .inl hlt
    · have hbehind : size * 2 ^ k ≤ (s - address) * 2 ^ k := Nat.mul_le_mul_right _ (by omega)
      exact .inr (by omega)

private theorem Backs.step (h : Backs sectorCount f m) {e : RawOp k × Outcome} (hin : e.1.InRange b sectorCount)
    (hstep : fileStep b f e f') :
    ∃ fails o m', m'.calls = m.calls + 1 ∧ f'.file.size = f.file.size ∧ Backs sectorCount f' m' ∧
      Agrees (e, f') ((e.1, o), m') ∧ ∀ g : Faults k, g.fails m.calls = fails → mediumStep g m (e.1, o) m' := by
  obtain ⟨count, hstep, htorn⟩ := hstep
  obtain ⟨op, o⟩ := e
  obtain ⟨file', torn'⟩ := f'
  cases op with
  | read address size =>
    obtain rfl : torn' = f.torn := htorn
    rw [RawOp.onFile, h.read hin.1 hin.2] at hstep
    by_cases hdone : ∃ n, count = some n ∧ size * 2 ^ k ≤ n
    · rw [if_pos hdone] at hstep
      cases hstep
      refine ⟨false, ⟨true, slice (Sector.flat fun i => m.sectors (address + i)) 0 (size * 2 ^ k)⟩, m.tick, rfl, rfl,
        h.tick, ⟨rfl, rfl, fun hwhole => ?_⟩, fun g hg => ?_⟩
      · have hread := HostFile.slice_sectors f.file fun s hs => h.sectors_eq s (hwhole s hs)
        exact congrArg (Outcome.mk true) hread
      · rw [mediumStep, RawOp.onMedium, rawSectorRead, hg]
        rfl
    · rw [if_neg hdone] at hstep
      cases hstep
      refine ⟨true, ⟨false, []⟩, m.tick, rfl, rfl, h.tick, ⟨rfl, rfl, fun _ => rfl⟩, fun g hg => ?_⟩
      rw [mediumStep, RawOp.onMedium, rawSectorRead, hg]
      rfl
  | write address src size =>
    obtain rfl : torn' = _ := htorn
    cases count with
    | none =>
      have hrefused : hostSectorWrite k b none f.file address (Sector.flat src) size = (false, f.file) := by
        simp [hostSectorWrite]
      rw [RawOp.onFile, hrefused] at hstep
      cases hstep
      refine ⟨true, ⟨false, []⟩, m.tick, rfl, rfl, h.tick, ⟨rfl, rfl, fun _ => rfl⟩, fun g hg => ?_⟩
      rw [mediumStep, RawOp.onMedium, rawSectorWrite, hg]
      rfl
    | some n =>
      rw [RawOp.onFile, h.write hin.1 hin.2] at hstep
      rcases Nat.lt_or_ge n (size * 2 ^ k) with hn | hn
      · rw [decide_eq_false (by omega)] at hstep
        cases hstep
        refine ⟨true, ⟨false, []⟩, m.tick, rfl, rfl, h.tear src hn, ⟨rfl, rfl, fun _ => rfl⟩, fun g hg => ?_⟩
        rw [mediumStep, RawOp.onMedium, rawSectorWrite, hg]
        rfl
      · rw [decide_eq_true hn, List.take_of_length_le (by rwa [slice_length])] at hstep
        cases hstep
        refine ⟨false, ⟨true, []⟩, _, rfl, rfl, h.replace src address size fun s hout hs => ?_,
          ⟨rfl, rfl, fun _ => rfl⟩, fun g hg => ?_⟩
        · simp only [RawOp.tears] at hs
          rwa [if_neg hout] at hs
        · rw [mediumStep, RawOp.onMedium, rawSectorWrite, hg]
          rfl
  | eraseRange address size =>
    obtain rfl : torn' = _ := htorn
    rw [RawOp.onFile, h.eraseRange hin] at hstep
    by_cases hdone : count.isSome ∧ size ≠ 0
    · rw [if_pos hdone] at hstep
      cases hstep
      have hwhole : ∀ s, ¬ (address ≤ s ∧ s < address + size) →
          ¬ (RawOp.eraseRange (k := k) address size).tears count f.torn s → ¬ f.torn s :=
        fun s hout hs htorn => hs ⟨htorn, fun hall => hout hall.2⟩
      have hzero := h.replace (fun _ => Sector.zero) address size hwhole
      rw [Sector.slice_zero] at hzero
      refine ⟨false, ⟨true, []⟩, _, rfl, rfl, hzero, ⟨rfl, rfl, fun _ => rfl⟩, fun g hg => ?_⟩
      rw [mediumStep, RawOp.onMedium, rawSectorEraseRange, hg]
      rfl
    · rw [if_neg hdone] at hstep
      cases hstep
      -- what is torn stays so: nothing has been erased
      refine ⟨true, ⟨false, []⟩, m.tick, rfl, rfl, ⟨h.fits, h.size_lt, fun s hs => ?_⟩,
        ⟨rfl, rfl, fun _ => rfl⟩, fun g hg => ?_⟩
      · refine h.sectors_eq s fun htorn => hs ⟨htorn, fun hall => ?_⟩
        have hreached : address ≤ s ∧ s < address + size := hall.2
        exact hdone ⟨hall.1, by omega⟩
      · rw [mediumStep, RawOp.onMedium, rawSectorEraseRange, hg]
        rfl
  | sync =>
    obtain rfl : torn' = f.torn := htorn
    cases hstep
    refine ⟨false, ⟨true, []⟩, m.tick, rfl, rfl, h.tick, ⟨rfl, rfl, fun _ => rfl⟩, fun g hg => ?_⟩
    rw [mediumStep, RawOp.onMedium, rawSync, hg]
    rfl

private theorem mediumStep_congr {e : RawOp k × Outcome} (h : mediumStep g m e m')
    (hg : g.fails m.calls = g'.fails m.calls) : mediumStep g' m e m' ∧ m'.calls = m.calls + 1 := by
  obtain ⟨op, o⟩ := e
  cases op with
  | read address size =>
    simp only [mediumStep, RawOp.onMedium, rawSectorRead, hg] at h ⊢
    refine ⟨h, ?_⟩
    split at h <;> cases h <;> rfl
  | write address src size =>
    simp only [mediumStep, RawOp.onMedium, rawSectorWrite, hg] at h ⊢
    refine ⟨h, ?_⟩
    split at h <;> cases h <;> rfl
  | eraseRange address size =>
    simp only [mediumStep, RawOp.onMedium, rawSectorEraseRange, hg] at h ⊢
    refine ⟨h, ?_⟩
    split at h <;> cases h <;> rfl
  | sync =>
    simp only [mediumStep, RawOp.onMedium, rawSync, hg] at h ⊢
    refine ⟨h, ?_⟩
    cases h
    rfl

private theorem run_congr {tr : List ((RawOp k × Outcome) × Medium k)} (run : Run (mediumStep g) m tr)
    (h : ∀ n ≥ m.calls, g.fails n = g'.fails n) : Run (mediumStep g') m tr := by
  induction run with
  | nil => exact .nil _
  | cons hstep _ ih =>
    obtain ⟨hsame, hcalls⟩ := mediumStep_congr hstep (h _ (Nat.le_refl _))
    refine .cons hsame (ih fun n hn => h n ?_)
    omega

private theorem Backs.torn_step (h : Backs sectorCount f m) {e : RawOp k × Outcome} (hin : e.1.InRange b sectorCount)
    (hstep : fileStep b f e f') {s : Nat} (htorn : f'.torn s) : f.torn s ∨ e.1.Writes s ∧ e.2.ok = false := by
  obtain ⟨count, hstep, hafter⟩ := hstep
  obtain ⟨op, o⟩ := e
  rw [hafter] at htorn
  cases op with
  | read address size => exact .inl htorn
  | write address src size =>
    cases count with
    | none => exact .inl htorn
    | some n =>
      simp only [RawOp.tears] at htorn
      by_cases hwindow : address ≤ s ∧ s < address + size
      · rw [if_pos hwindow] at htorn
        have hfailed : decide (size * 2 ^ k ≤ n) = false := decide_eq_false (by omega)
        rw [RawOp.onFile, h.write hin.1 hin.2, hfailed] at hstep
        have hok : false = o.ok := congrArg (fun r => r.1.ok) hstep
        exact .inr ⟨hwindow, hok.symm⟩
      · rw [if_neg hwindow] at htorn
        exact .inl htorn
  | eraseRange address size => exact .inl htorn.1
  | sync => exact .inl htorn

/-- A sector is torn only where it was so before, or where a write of it has failed. -/
theorem torn_of_failed_write {tr : List ((RawOp k × Outcome) × TornFile)} (h : Backs sectorCount f m)
    (run : Run (fileStep b) f tr) (hin : ∀ e ∈ tr, e.1.1.InRange b sectorCount) {s : Nat}
    (htorn : (last f tr).torn s) : f.torn s ∨ ∃ e ∈ tr, e.1.1.Writes s ∧ e.1.2.ok = false := by
  induction run generalizing m with
  | nil => exact .inl htorn
  | @cons f f₁ e tr hstep _ ih =>
    obtain ⟨_, _, m₁, _, _, hback, _, _⟩ := h.step (hin _ List.mem_cons_self) hstep
    rcases ih hback (fun e' he' => hin e' (List.mem_cons_of_mem _ he')) htorn with hbefore | ⟨e', he', hfailed⟩
    · rcases h.torn_step (hin _ List.mem_cons_self) hstep hbefore with hstart | hfailed
      · exact .inl hstart
      · exact .inr ⟨_, List.mem_cons_self, hfailed⟩
    · exact .inr ⟨e', List.mem_cons_of_mem _ he', hfailed⟩

/-- Every run of raw operations within the device, on a file of which the host carries out any of them,
refuses them or cuts them short, is a run on the medium with the content of the file, under some failures:
the operations have the same outcomes, reads of torn sectors apart, and file and medium keep the same content
in all other sectors. The file keeps its size. -/
theorem file_runs_as_medium {tr : List ((RawOp k × Outcome) × TornFile)} (h : Backs sectorCount f m)
    (run : Run (fileStep b) f tr) (hin : ∀ e ∈ tr, e.1.1.InRange b sectorCount) :
    ∃ (g : Faults k) (mtr : List ((RawOp k × Outcome) × Medium k)), Run (mediumStep g) m mtr ∧
      List.Forall₂ (fun e em => Agrees e em ∧ e.2.file.size = f.file.size ∧ Backs sectorCount e.2 em.2) tr mtr := by
  induction run generalizing m with
  | nil => exact ⟨⟨fun _ => false, fun _ => Sector.zero⟩, [], .nil m, .nil⟩
  | @cons f f₁ e tr hstep _ ih =>
    obtain ⟨fails, o, m₁, hcalls, hsize, hback, hagrees, hmedium⟩ := h.step (hin _ List.mem_cons_self) hstep
    obtain ⟨g, mtr, hrun, hsame⟩ := ih hback fun e he => hin e (List.mem_cons_of_mem _ he)
    rw [hsize] at hsame
    refine ⟨⟨Function.update g.fails m.calls fails, g.junk⟩, ((e.1, o), m₁) :: mtr, .cons (hmedium _ ?_) ?_,
      .cons ?_ hsame⟩
    · exact Function.update_self ..
    · refine run_congr hrun fun n hn => (Function.update_of_ne ?_ _ _).symm
      omega
    · exact ⟨hagrees, hsize, hback⟩

/-- On a file of two sectors of four bytes: a write that the host cuts short after three bytes, a read of what is
left, an erase of nothing, which the host refuses, and the write again, which is carried out. -/
theorem file_runs_as_medium_two : ∃ tr : List ((RawOp 2 × Outcome) × TornFile),
    tr.map (fun e => (e.1.2, slice e.2.file.bytes 0 8)) =
      [(⟨false, []⟩, [7, 7, 7, 7, 5, 5, 5, 7]), (⟨true, [5, 5, 5, 7]⟩, [7, 7, 7, 7, 5, 5, 5, 7]),
        (⟨false, []⟩, [7, 7, 7, 7, 5, 5, 5, 7]), (⟨true, []⟩, [7, 7, 7, 7, 5, 5, 5, 5])] ∧
    ∃ (g : Faults 2) (mtr : List ((RawOp 2 × Outcome) × Medium 2)),
      Run (mediumStep g) ⟨fun _ _ => 7, 0, []⟩ mtr ∧
      List.Forall₂ (fun e em => Agrees e em ∧ e.2.file.size = 8 ∧ Backs 2 e.2 em.2) tr mtr := by
  refine ⟨[_, _, _, _], ?_, file_runs_as_medium (b := ⟨true, true, true, 512⟩)
    (f := ⟨⟨8, fun _ => 7⟩, fun _ => False⟩) ⟨by decide, by decide, fun _ _ => rfl⟩
    (.cons (fileStep_onFile _ _ (.write 1 (fun _ _ => 5) 1) (some 3))
      (.cons (fileStep_onFile _ _ (.read 1 1) (some 4)) (.cons (fileStep_onFile _ _ (.eraseRange 0 0) (some 4))
        (.cons (fileStep_onFile _ _ (.write 1 (fun _ _ => 5) 1) (some 4)) (.nil _))))) ?_⟩
  · rfl
  · intro e he
    simp only [List.mem_cons, List.not_mem_nil, or_false] at he
    rcases he with rfl | rfl | rfl | rfl <;> simp [RawOp.InRange, Build.sizeT]

end Refinement

/-- What the host and the allocator do for a device. -/
structure Host (k : Nat) where
  opens : Bool
  resizes : Bool
  isSize64 : Nat → Bool
  faults : Faults k
  memory : Option (Nat → Sector k)

/-- A block device on an open file of some size. -/
structure HostFileDevice (k : Nat) where
  fileSize : Nat
  device : BlockDevice k

namespace HostFileDevice

/-- The file of a device, when it is closed: buffers are not flushed. -/
def file (d : HostFileDevice k) : HostFile := ⟨d.fileSize, Sector.flat d.device.medium.sectors⟩

/-- The device on a file that has been opened. -/
def attach (host : Host k) (sectorCount : Nat) (f : HostFile) : HostFileDevice k :=
  ⟨f.size, ((BlockDevice.fresh sectorCount host.faults f.sectors).allocateBuffers 4 host.memory).2⟩

/-- The constructor with a size in bytes. `f` is the file with the name, if there is one, and so is what is
returned for it. -/
def create (b : Build) (host : Host k) (f : Option HostFile) (size : Nat) :
    Option (HostFileDevice k) × Option HostFile :=
  if !host.opens then (none, f)
  else
    let file := f.getD ⟨0, fun _ => 0⟩
    let size := size - size % 2 ^ k
    let sectorCount := size / 2 ^ k
    let getSize := b.storage (sectorCount * 2 ^ k)
    if host.resizes && isOff64 getSize then
      let d := attach host sectorCount (file.truncate getSize)
      (some d, some d.file)
    else (none, none)

/-- The constructor for an existing file. -/
def ofFile (b : Build) (host : Host k) (f : HostFile) : Option (HostFileDevice k) :=
  if !host.opens then none
  else if !b.size64 && host.isSize64 f.size then none
  else
    let filesize := f.size - f.size % 2 ^ k
    some (attach host (filesize / 2 ^ k) f)

/-- The device on a file has the content of the file, and nothing waits in its buffers. -/
theorem attach_spec (host : Host k) (sectorCount : Nat) (f : HostFile) :
    Sound sectorCount (attach host sectorCount f).device ∧
      (attach host sectorCount f).device.medium.sectors = f.sectors ∧
      (attach host sectorCount f).device.logicalSector = f.sectors ∧
      (attach host sectorCount f).device.faults = host.faults := by
  have hfresh := BlockDevice.coherent_fresh sectorCount host.faults (f.sectors (k := k))
  have halloc : (BlockDevice.fresh sectorCount host.faults (f.sectors (k := k))).allocateBuffers 4 host.memory =
      (_, (attach host sectorCount f).device) := rfl
  obtain ⟨hkept, hseen⟩ := BlockDevice.allocateBuffers_spec hfresh halloc
  have hcontent : (BlockDevice.fresh sectorCount host.faults (f.sectors (k := k))).seen = f.sectors := rfl
  rw [hcontent] at hseen
  refine ⟨⟨hkept.size, hkept.coherent⟩, ?_, ?_, hkept.faults⟩
  · -- the allocation writes nothing but what is seen
    have hmedium := hkept.evolves.current (among_self List.mem_cons_self)
    rw [hseen, hcontent] at hmedium
    funext s
    obtain ⟨c, hc, heq⟩ := hmedium s
    simp only [List.mem_cons, List.not_mem_nil, or_false] at hc
    rcases hc with rfl | rfl | rfl <;> exact heq
  · exact hkept.coherent.logicalSector_eq.trans hseen

/-- A device that has been created has as many whole sectors as fit, and its file is as large. -/
theorem of_create {b : Build} {host : Host k} {f path : Option HostFile} {size : Nat} {d : HostFileDevice k}
    (h : create b host f size = (some d, path)) :
    d.fileSize = b.storage (size / 2 ^ k * 2 ^ k) ∧
      d = attach host (size / 2 ^ k) ((f.getD ⟨0, fun _ => 0⟩).truncate d.fileSize) := by
  have hwhole : (size - size % 2 ^ k) / 2 ^ k = size / 2 ^ k := by
    rw [← Nat.div_mul_self_eq_mod_sub_self, Nat.mul_div_cancel _ (Nat.two_pow_pos k)]
  simp only [create, hwhole] at h
  split at h
  · cases h
  · split at h
    · cases h
      exact ⟨rfl, rfl⟩
    · cases h

theorem of_ofFile {b : Build} {host : Host k} {f : HostFile} {d : HostFileDevice k} (h : ofFile b host f = some d) :
    d = attach host (f.size / 2 ^ k) f := by
  have hwhole : (f.size - f.size % 2 ^ k) / 2 ^ k = f.size / 2 ^ k := by
    rw [← Nat.div_mul_self_eq_mod_sub_self, Nat.mul_div_cancel _ (Nat.two_pow_pos k)]
  simp only [ofFile, hwhole] at h
  split at h
  · cases h
  · split at h
    · cases h
    · exact (Option.some.inj h).symm

end HostFileDevice

section Sessions
variable {b : Build} {f : HostFile}

/-- What is done with a file: a device is constructed on it and used, and at some moment, also in the
middle of an operation, the process ends. The sectors that it has touched may have been torn. -/
def sessionStep (b : Build) (f : HostFile) (e : Host k × List (Op k)) (f' : HostFile) : Prop :=
  ∃ d, HostFileDevice.ofFile b e.1 f = some d ∧
    ∃ c ∈ Medium.since d.device.medium (last d.device (trace d.device e.2)).medium,
      f'.size = f.size ∧ ∀ s, f'.sectors s = c s ∨ ∃ op ∈ e.2, op.Touches s

theorem sessionStep_untouched {e : Host k × List (Op k)} {f' : HostFile} (h : sessionStep b f e f')
    (hcount : f.size / 2 ^ k ≤ 2 ^ 32 - 1) (hin : ∀ op ∈ e.2, op.InRange (f.size / 2 ^ k)) :
    f'.size = f.size ∧ ∀ s, (∀ op ∈ e.2, ¬ op.Touches s) → f'.sectors (k := k) s = f.sectors s := by
  obtain ⟨d, hd, c, hc, hsize, hcontent⟩ := h
  obtain rfl := HostFileDevice.of_ofFile hd
  obtain ⟨hsound, hmedium, hlogical, _⟩ := HostFileDevice.attach_spec e.1 (f.size / 2 ^ k) f
  refine ⟨hsize, fun s hun => ?_⟩
  have hsame := synced_untouched hcount hsound (hmedium.trans hlogical.symm) (run_trace _ e.2)
    (fun t ht => hin _ (op_of_mem_trace ht)) (fun t ht => hun _ (op_of_mem_trace ht)) hc
  rcases hcontent s with heq | ⟨op, hop, htouches⟩
  · rw [heq, hsame, hmedium]
  · exact absurd htouches (hun op hop)

/-- Sectors that no session touches stay, through any number of sessions. -/
theorem sessions_untouched {tr : List ((Host k × List (Op k)) × HostFile)} (run : Run (sessionStep b) f tr)
    (hcount : f.size / 2 ^ k ≤ 2 ^ 32 - 1) (hin : ∀ e ∈ tr, ∀ op ∈ e.1.2, op.InRange (f.size / 2 ^ k)) {P : Nat → Prop}
    (hun : ∀ s, P s → ∀ e ∈ tr, ∀ op ∈ e.1.2, ¬ op.Touches s) :
    (last f tr).size = f.size ∧ ∀ s, P s → (last f tr).sectors (k := k) s = f.sectors s := by
  have hok : ∀ e ∈ tr, ∀ op ∈ e.1.2, op.InRange (f.size / 2 ^ k) ∧ ∀ s, P s → ¬ op.Touches s :=
    fun e he op hop => ⟨hin e he op hop, fun s hs => hun s hs e he op hop⟩
  refine @Run.invariant _ _ (sessionStep b)
    (fun f' => f'.size = f.size ∧ ∀ s, P s → f'.sectors (k := k) s = f.sectors s)
    (fun e => ∀ op ∈ e.2, op.InRange (f.size / 2 ^ k) ∧ ∀ s, P s → ¬ op.Touches s) _ _ run ⟨rfl, fun _ _ => rfl⟩ hok ?_
  rintro f₁ e f₂ ⟨hsize, hsame⟩ hok hstep
  rw [← hsize] at hcount hok
  obtain ⟨hsize', hsame'⟩ := sessionStep_untouched hstep hcount fun op hop => (hok op hop).1
  exact ⟨hsize'.trans hsize, fun s hs => (hsame' s fun op hop => (hok op hop).2 s hs).trans (hsame s hs)⟩

end Sessions

end DiskStorage
