import DiskStorage.Lib.ByteStore
import Mathlib.Logic.Function.Basic
import Mathlib.Data.Nat.Log

/-! Sector-addressable devices with optional sector buffers, over raw sector operations
that fail in an arbitrary pattern. Sectors have `2 ^ k` bytes. -/
namespace DiskStorage

/-- The bytes of one sector. -/
abbrev Sector (k : Nat) := Fin (2 ^ k) → UInt8

namespace Sector
variable {k : Nat}

def byte (s : Sector k) (i : Nat) : UInt8 := s ⟨i % 2 ^ k, Nat.mod_lt _ (Nat.two_pow_pos k)⟩

/-- The sector after `memcpy(&buf[offset], src, size)`. -/
def splice (s : Sector k) (offset : Nat) (src : List UInt8) : Sector k :=
  fun i => ByteStore.patch s.byte offset src i.val

def zero : Sector k := fun _ => 0

/-- Consecutive sectors as one run of bytes. -/
def flat (m : Nat → Sector k) : Nat → UInt8 := fun a => (m (a / 2 ^ k)).byte a

/-- A run of bytes as consecutive sectors. -/
def ofBytes (src : List UInt8) : Nat → Sector k := fun s i => src.getD (s * 2 ^ k + i.val) 0

end Sector

/-- Which raw operation fails, by its number, and what a failing read leaves in the buffer. -/
structure Faults (k : Nat) where
  fails : Nat → Bool
  junk : Nat → Sector k

/-- What lies behind the raw_sector_xxx methods: the sectors, the number of raw operations
so far, and every earlier content, latest first. -/
structure Medium (k : Nat) where
  sectors : Nat → Sector k
  calls : Nat
  past : List (Nat → Sector k)

namespace Medium
variable {k : Nat}

/-- A raw operation has been issued. -/
def tick (m : Medium k) : Medium k := { m with calls := m.calls + 1 }

/-- A raw operation has changed the content. -/
def become (m : Medium k) (sectors : Nat → Sector k) : Medium k :=
  ⟨sectors, m.calls + 1, m.sectors :: m.past⟩

/-- Every content so far, latest first. -/
def contents (m : Medium k) : List (Nat → Sector k) := m.sectors :: m.past

end Medium

section Raw
variable {k : Nat} (f : Faults k) (m : Medium k)

/-- On success the destination holds the sectors from `address` on. -/
def rawSectorRead (address : Nat) : Option (Nat → Sector k) × Medium k :=
  if f.fails m.calls then (none, m.tick) else (some fun i => m.sectors (address + i), m.tick)

def rawSectorWrite (address : Nat) (src : Nat → Sector k) (size : Nat) : Bool × Medium k :=
  if f.fails m.calls then (false, m.tick)
  else (true, m.become fun s => if address ≤ s ∧ s < address + size then src (s - address) else m.sectors s)

/-- Block devices erase state is 0 (not FF) -/
def rawSectorEraseRange (address size : Nat) : Bool × Medium k :=
  if f.fails m.calls then (false, m.tick)
  else (true, m.become fun s => if address ≤ s ∧ s < address + size then Sector.zero else m.sectors s)

def rawSync : Bool × Medium k := (!f.fails m.calls, m.tick)

end Raw

/-- `invalid` marks a buffer that holds no sector; the tag has 32 bits. -/
structure Buffer (k : Nat) where
  sector : Nat
  dirty : Bool
  data : Sector k

namespace Buffer
variable {k : Nat}

def invalid : Nat := 2 ^ 32 - 1

def invalidate (buf : Buffer k) : Buffer k := { buf with sector := invalid, dirty := false }

/-- `memset(buf.get(), 0, sectorSize); buf.dirty = false;` -/
def clear (buf : Buffer k) : Buffer k := { buf with data := Sector.zero, dirty := false }

/-- Storing a sector number in the tag. -/
def setSector (buf : Buffer k) (sector : Nat) : Buffer k := { buf with sector := sector % 2 ^ 32 }

end Buffer

def getSizeBits (n : Nat) : Nat := Nat.log2 n

/-- The number of buffers is a power of two. -/
structure BufferList (k : Nat) where
  bits : Nat
  list : Fin (2 ^ bits) → Buffer k

namespace BufferList
variable {k : Nat} (bl : BufferList k)

/-- `sector & (mSize - 1)` -/
def slot (sector : Nat) : Fin (2 ^ bl.bits) := ⟨sector % 2 ^ bl.bits, Nat.mod_lt _ (Nat.two_pow_pos _)⟩

def get (sector : Nat) : Buffer k := bl.list (bl.slot sector)

def put (i : Fin (2 ^ bl.bits)) (buf : Buffer k) : BufferList k :=
  ⟨bl.bits, Function.update bl.list i buf⟩

def size : Nat := 2 ^ bl.bits

/-- New buffers hold no sector; their memory is what the allocator returns. -/
def new (count : Nat) (memory : Nat → Sector k) : BufferList k :=
  ⟨getSizeBits count, fun i => ⟨Buffer.invalid, false, memory i⟩⟩

end BufferList

section Buffers
variable {k : Nat} (f : Faults k)

def flushBuffer (buf : Buffer k) (m : Medium k) : Bool × Buffer k × Medium k :=
  if buf.dirty then
    match rawSectorWrite f m buf.sector (fun _ => buf.data) 1 with
    | (true, m) => (true, { buf with dirty := false }, m)
    | (false, m) => (false, buf, m)
  else (true, buf, m)

/-- The `buf.sector != sector` block of read and write: flush the buffer and tag it with
`sector`. A full-sector write leaves out the part between the two, which reads the sector. -/
def retarget (buf : Buffer k) (m : Medium k) (sector : Nat) (fill : Bool) : Bool × Buffer k × Medium k :=
  if buf.sector = sector then (true, buf, m)
  else
    match flushBuffer f buf m with
    | (false, buf, m) => (false, buf, m)
    | (true, buf, m) =>
      if fill then
        match rawSectorRead f m sector with
        | (none, m') => (false, { buf.invalidate with data := f.junk m.calls }, m')
        | (some dst, m') => (true, { buf.invalidate with data := dst 0 }.setSector sector, m')
      else (true, buf.setSector sector, m)

theorem rest_lt {k size : Nat} {offset : Fin (2 ^ k)} (h : ¬ size = 0) :
    size - min size (2 ^ k - offset) < size := by
  have := offset.isLt
  omega

/-- The `while(size != 0)` loop of read. -/
def readLoop (bl : BufferList k) (m : Medium k) (sector : Nat) (offset : Fin (2 ^ k)) (size : Nat) :
    Option (List UInt8) × BufferList k × Medium k :=
  if _h : size = 0 then (some [], bl, m)
  else
    let chunkSize := min size (2 ^ k - offset)
    match retarget f (bl.get sector) m sector true with
    | (false, buf, m) => (none, bl.put (bl.slot sector) buf, m)
    | (true, buf, m) =>
      match readLoop (bl.put (bl.slot sector) buf) m (sector + 1) ⟨0, Nat.two_pow_pos k⟩ (size - chunkSize) with
      | (none, bl, m) => (none, bl, m)
      | (some dst, bl, m) => (some (ByteStore.slice buf.data.byte offset chunkSize ++ dst), bl, m)
termination_by size
decreasing_by exact rest_lt _h

/-- The `while(size != 0)` loop of write. -/
def writeLoop (bl : BufferList k) (m : Medium k) (sector : Nat) (offset : Fin (2 ^ k)) (src : List UInt8) :
    Bool × BufferList k × Medium k :=
  if _h : src.length = 0 then (true, bl, m)
  else
    let chunkSize := min src.length (2 ^ k - offset)
    match retarget f (bl.get sector) m sector (offset.val != 0 || chunkSize != 2 ^ k) with
    | (false, buf, m) => (false, bl.put (bl.slot sector) buf, m)
    | (true, buf, m) =>
      let buf := { buf with data := buf.data.splice offset (src.take chunkSize), dirty := true }
      writeLoop (bl.put (bl.slot sector) buf) m (sector + 1) ⟨0, Nat.two_pow_pos k⟩ (src.drop chunkSize)
termination_by src.length
decreasing_by
  rw [List.length_drop]
  exact rest_lt _h

/-- The buffers of erased sectors are cleared, one sector after the other. -/
def eraseLoop (bl : BufferList k) (address : Nat) : Nat → BufferList k
  | 0 => bl
  | size + 1 =>
    let buf := bl.get address
    eraseLoop (if buf.sector = address then bl.put (bl.slot address) buf.clear else bl) (address + 1) size

/-- `for(auto& buf : *buffers) res &= flushBuffer(buf);` -/
def flushLoop : List Nat → Bool → BufferList k → Medium k → Bool × BufferList k × Medium k
  | [], res, bl, m => (res, bl, m)
  | i :: rest, res, bl, m =>
    match flushBuffer f (bl.list (bl.slot i)) m with
    | (r, buf, m) => flushLoop rest (res && r) (bl.put (bl.slot i) buf) m

end Buffers

structure BlockDevice (k : Nat) where
  sectorCount : Nat
  faults : Faults k
  medium : Medium k
  buffers : Option (BufferList k)

namespace BlockDevice
variable {k : Nat} (d : BlockDevice k)

/-- CHECK_ALIGN -/
def aligned (address size : Nat) : Bool := address % 2 ^ k = 0 && size % 2 ^ k = 0

def read (address size : Nat) : Option (List UInt8) × BlockDevice k :=
  match d.buffers with
  | none =>
    if aligned (k := k) address size then
      match rawSectorRead d.faults d.medium (address / 2 ^ k) with
      | (dst, m) => (dst.map fun s => ByteStore.slice (Sector.flat s) 0 size, { d with medium := m })
    else (none, d)
  | some bl =>
    match readLoop d.faults bl d.medium (address / 2 ^ k) ⟨address % 2 ^ k, Nat.mod_lt _ (Nat.two_pow_pos k)⟩ size with
    | (dst, bl, m) => (dst, { d with medium := m, buffers := some bl })

def write (address : Nat) (src : List UInt8) : Bool × BlockDevice k :=
  match d.buffers with
  | none =>
    if aligned (k := k) address src.length then
      match rawSectorWrite d.faults d.medium (address / 2 ^ k) (Sector.ofBytes src) (src.length / 2 ^ k) with
      | (ok, m) => (ok, { d with medium := m })
    else (false, d)
  | some bl =>
    match writeLoop d.faults bl d.medium (address / 2 ^ k) ⟨address % 2 ^ k, Nat.mod_lt _ (Nat.two_pow_pos k)⟩ src with
    | (ok, bl, m) => (ok, { d with medium := m, buffers := some bl })

def eraseRange (address size : Nat) : Bool × BlockDevice k :=
  if aligned (k := k) address size then
    match rawSectorEraseRange d.faults d.medium (address / 2 ^ k) (size / 2 ^ k) with
    | (false, m) => (false, { d with medium := m })
    | (true, m) =>
      (true, { d with medium := m, buffers := d.buffers.map fun bl => eraseLoop bl (address / 2 ^ k) (size / 2 ^ k) })
  else (false, d)

def flushBuffers : Bool × BlockDevice k :=
  match d.buffers with
  | none => (true, d)
  | some bl =>
    match flushLoop d.faults (List.range bl.size) true bl d.medium with
    | (res, bl, m) => (res, { d with medium := m, buffers := some bl })

/-- `memory` is what the allocator hands out, if it can; otherwise `new` leaves the device
without buffers, as it does for a count whose power of two does not fit an `int`. The allocations
inside BufferList are taken to succeed: a list of size 0, which it keeps when they do not, is left out. -/
def allocateBuffers (numBuffers : Nat) (memory : Option (Nat → Sector k)) : Bool × BlockDevice k :=
  match d.flushBuffers with
  | (false, d) => (false, d)
  | (true, d) =>
    if numBuffers = 0 then (true, { d with buffers := none })
    else
      match memory with
      | none => (false, { d with buffers := none })
      | some memory =>
        if getSizeBits numBuffers < 31 then
          let bl := BufferList.new numBuffers memory
          (bl.size == numBuffers, { d with buffers := some bl })
        else (false, { d with buffers := none })

def sync : Bool × BlockDevice k :=
  match d.flushBuffers with
  | (false, d) => (false, d)
  | (true, d) =>
    match rawSync d.faults d.medium with
    | (ok, m) => (ok, { d with medium := m })

/-- A device as constructed: no buffers, any content. -/
def fresh (sectorCount : Nat) (faults : Faults k) (sectors : Nat → Sector k) : BlockDevice k :=
  ⟨sectorCount, faults, ⟨sectors, 0, []⟩, none⟩

end BlockDevice

/-- The public operations of a block device. -/
inductive Op (k : Nat) where
  | read (address size : Nat)
  | write (address : Nat) (src : List UInt8)
  | eraseRange (address size : Nat)
  | sync
  | allocateBuffers (numBuffers : Nat) (memory : Option (Nat → Sector k))

/-- What an operation returns: its success, and the bytes a read has copied out. -/
structure Outcome where
  ok : Bool
  data : List UInt8
  deriving DecidableEq

namespace Op
variable {k : Nat}

/-- Addresses lie inside a device with this many sectors. -/
def InRange (sectorCount : Nat) : Op k → Prop
  | read address size => address + size ≤ sectorCount * 2 ^ k
  | write address src => address + src.length ≤ sectorCount * 2 ^ k
  | eraseRange address size => address + size ≤ sectorCount * 2 ^ k
  | sync => True
  | allocateBuffers _ _ => True

def exec (d : BlockDevice k) : Op k → Outcome × BlockDevice k
  | read address size => match d.read address size with
    | (dst, d) => (⟨dst.isSome, dst.getD []⟩, d)
  | write address src => match d.write address src with
    | (ok, d) => (⟨ok, []⟩, d)
  | eraseRange address size => match d.eraseRange address size with
    | (ok, d) => (⟨ok, []⟩, d)
  | sync => match d.sync with
    | (ok, d) => (⟨ok, []⟩, d)
  | allocateBuffers numBuffers memory => match d.allocateBuffers numBuffers memory with
    | (ok, d) => (⟨ok, []⟩, d)

end Op

end DiskStorage
