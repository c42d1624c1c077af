import DiskStorage.PartInfo
import Mathlib.Data.List.Sort

/-! The function that checks a partition table: the sizing loop, and the loop that places
the entries without an offset. -/
namespace DiskStorage

def PARTITION_ALIGN : Nat := 0x100000

/-- `align_up` of validate, in `storage_size_t`. -/
def Build.alignUp (b : Build) (value alignment : Nat) : Nat :=
  b.storage (value + alignment - 1) - b.storage (value + alignment - 1) % alignment

/-- The blocks that validate may give to partitions. -/
structure Available (b : Build) where
  firstBlock : Nat
  totalBlocks : Nat
  blockSize : Nat
  first_lt : firstBlock < b.storageSize
  total_lt : totalBlocks < b.storageSize
  blockSize_lt : blockSize < 2 ^ 32

namespace Available
variable {b : Build}

/-- The arguments of a call, as its parameters receive them. -/
def of (b : Build) (firstBlock totalBlocks blockSize : Nat) : Available b where
  firstBlock := b.storage firstBlock
  totalBlocks := b.storage totalBlocks
  blockSize := blockSize % 2 ^ 32
  first_lt := b.storage_lt firstBlock
  total_lt := b.storage_lt totalBlocks
  blockSize_lt := Nat.mod_lt _ (Nat.two_pow_pos 32)

variable (a : Available b)

def blockAlign : Nat := PARTITION_ALIGN / a.blockSize

def minOffset : Nat := b.storage (a.firstBlock * a.blockSize)

def maxOffset : Nat := u64 (b.storage (a.firstBlock + a.totalBlocks) * a.blockSize + (2 ^ 64 - 1))

/-- The number of blocks for a percentage, clipped to available space; `none` when out of space. -/
def percentBlocks (totalBlocks size : Nat) : Option Nat :=
  let blocks := b.alignUp (b.storage (u64 (a.totalBlocks * size) / 100)) a.blockAlign
  if u64 (totalBlocks + blocks) > a.totalBlocks then
    let blocks := b.storage (u64 (a.totalBlocks + (2 ^ 64 - totalBlocks)))
    if blocks = 0 then none else some blocks
  else some blocks

/-- The range check that ends the body of the sizing loop. -/
def checkOffset (totalBlocks : Nat) (part : PartInfo b) : Option Error × Nat × PartInfo b :=
  if part.offset ≠ 0 ∧ (part.offset < a.minOffset ∨ part.offset > a.maxOffset) then
    (some .outOfRange, totalBlocks, part)
  else (none, totalBlocks, part)

/-- The body of the sizing loop: what it returns, if it returns, the running total and the entry. -/
def sizeEntry (totalBlocks : Nat) (part : PartInfo b) : Option Error × Nat × PartInfo b :=
  if part.size ≤ 100 then
    match a.percentBlocks totalBlocks part.size with
    | none => (some .noSpace, totalBlocks, part)
    | some blocks => a.checkOffset (u64 (totalBlocks + blocks)) (part.setSize (blocks * a.blockSize))
  else if part.offset % PARTITION_ALIGN ≠ 0 then (some .misAligned, totalBlocks, part)
  else a.checkOffset (u64 (totalBlocks + b.alignUp part.size PARTITION_ALIGN)) part

/-- The sizing loop. The entries it has been over keep their new sizes, also on an error. -/
def sizingLoop : Nat → List (PartInfo b) → Option Error × Nat × List (PartInfo b)
  | totalBlocks, [] => (none, totalBlocks, [])
  | totalBlocks, part :: rest =>
    match a.sizeEntry totalBlocks part with
    | (some err, totalBlocks, part) => (some err, totalBlocks, part :: rest)
    | (none, totalBlocks, part) =>
      match sizingLoop totalBlocks rest with
      | (err, totalBlocks, rest) => (err, totalBlocks, part :: rest)

end Available

/-- A table entry with its position in the table. The loop sorts a list of these. -/
abbrev Ref (b : Build) := PartInfo b × Nat

variable {b : Build}

/-- `lastPart->offset + lastPart->size - 1` -/
def PartInfo.endOffset (part : PartInfo b) : Nat := b.storage (part.offset + part.size + (b.storageSize - 1))

/-- `align_up(pr->offset + pr->size, PARTITION_ALIGN)` -/
def PartInfo.roundedEnd (pr : PartInfo b) : Nat := b.alignUp (b.storage (pr.offset + pr.size)) PARTITION_ALIGN

def sortList (list : List (Ref b)) : List (Ref b) :=
  list.insertionSort fun p1 p2 => p1.1.offset ≤ p2.1.offset

/-- The entries of a sorted list in table order. -/
def inTableOrder (list : List (Ref b)) : List (PartInfo b) :=
  (list.insertionSort fun p1 p2 => p1.2 ≤ p2.2).map Prod.fst

namespace Available
variable (a : Available b)

/-- The space from the end of an entry to the next one, or to the end of the range. -/
def avail (pr : PartInfo b) : Option (Ref b) → Nat
  | some next => b.storage (next.1.offset + (b.storageSize - pr.roundedEnd))
  | none => u64 (a.maxOffset + 1 + (2 ^ 64 - pr.roundedEnd))

/-- The inner loop of the placement, over the entries behind the one to place: the offset
for it, or `none` when there is no room behind the last one. -/
def search (size : Nat) : Nat → List (Ref b) → Option Nat
  | endOffset, [] => some endOffset
  | endOffset, pr :: rest =>
    if pr.1.offset = 0 then search size endOffset rest
    else if a.avail pr.1 rest.head? ≥ size then some (pr.1.roundedEnd)
    else if rest.isEmpty then none
    else search size (pr.1.roundedEnd) rest

/-- `while(list[0]->offset == 0)`: what the loop returns, if it returns, and the list. The whole
is `none` when the number of passes does not suffice. -/
def assignLoop : Nat → List (Ref b) → Option (Option Error × List (Ref b))
  | 0, _ => none
  | _ + 1, [] => some (none, [])
  | fuel + 1, pz :: rest =>
    if pz.1.offset = 0 then
      match a.search pz.1.size a.minOffset rest with
      | none => some (some .noSpace, pz :: rest)
      | some endOffset => assignLoop fuel (sortList ((pz.1.setOffset endOffset, pz.2) :: rest))
    else some (none, pz :: rest)

end Available

/-- How a call of validate ends: it returns, with the table as it leaves it, or its assert fails. -/
inductive Verdict (b : Build) where
  | returned (err : Error) (table : List (PartInfo b))
  | aborted

/-- Each pass that goes on places an entry, unless it places it at zero and so never ends;
`none` stands for that. The callers never pass an empty table, which has no `list[0]`. -/
def validate (a : Available b) (table : List (PartInfo b)) : Option (Verdict b) :=
  if a.firstBlock = 0 ∨ a.blockSize = 0 then some (.returned .badParam table)
  else
    match a.sizingLoop 0 table with
    | (some err, _, table) => some (.returned err table)
    | (none, totalBlocks, table) =>
      if totalBlocks > a.totalBlocks then some (.returned .noSpace table)
      else
        match a.assignLoop (table.length + 1) (sortList table.zipIdx) with
        | none => none
        | some (some err, list) => some (.returned err (inTableOrder list))
        | some (none, list) =>
          match list.getLast? with
          | none => some .aborted
          | some lastPart =>
            if lastPart.1.endOffset ≤ a.maxOffset then some (.returned .success (inTableOrder list)) else some .aborted

end DiskStorage
