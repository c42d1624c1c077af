import DiskStorage.BlockDevice.Refinement

/-! Which sector a buffer really holds, followed beside its tag from access to access. -/
namespace DiskStorage
variable {k : Nat}

/-- What read, write and erase_range do with the buffer for one sector, and flushBuffers with one
buffer. -/
inductive Access (k : Nat) where
  | read (sector : Nat)
  | write (sector offset : Nat) (src : List UInt8)
  | erase (sector : Nat)
  | flush (i : Nat)

/-- The buffers over a medium and, by their number, the sectors whose content they have got: the
one last read into a buffer, or last taken over by a write of the whole sector. -/
structure Cache (k : Nat) where
  buffers : BufferList k
  medium : Medium k
  held : Nat → Option Nat

section Accesses
variable (f : Faults k)

/-- What a buffer holds after it has been turned to a sector: on a hit, and when it cannot be
flushed, what it held before. -/
def heldAfter (c : Cache k) (sector : Nat) (fill : Bool) : Nat → Option Nat :=
  let buf := c.buffers.get sector
  if buf.sector = sector ∨ (flushBuffer f buf c.medium).1 = false then c.held
  else Function.update c.held (c.buffers.slot sector)
    (if (retarget f buf c.medium sector fill).1 then some sector else none)

namespace Access

def exec (c : Cache k) : Access k → Cache k
  | read sector =>
    match retarget f (c.buffers.get sector) c.medium sector true with
    | (_, buf, m) => ⟨c.buffers.put (c.buffers.slot sector) buf, m, heldAfter f c sector true⟩
  | write sector offset src =>
    let fill := offset != 0 || src.length != 2 ^ k
    match retarget f (c.buffers.get sector) c.medium sector fill with
    | (false, buf, m) => ⟨c.buffers.put (c.buffers.slot sector) buf, m, heldAfter f c sector fill⟩
    | (true, buf, m) =>
      ⟨c.buffers.put (c.buffers.slot sector) { buf with data := buf.data.splice offset src, dirty := true }, m,
        heldAfter f c sector fill⟩
  | erase sector =>
    let buf := c.buffers.get sector
    { c with buffers := if buf.sector = sector then c.buffers.put (c.buffers.slot sector) buf.clear else c.buffers }
  | flush i =>
    match flushBuffer f (c.buffers.list (c.buffers.slot i)) c.medium with
    | (_, buf, m) => ⟨c.buffers.put (c.buffers.slot i) buf, m, c.held⟩

/-- A buffer is taken for the sector that it holds, and written to that sector. -/
def Faithful (c : Cache k) : Access k → Prop
  | read sector | write sector _ _ =>
    let buf := c.buffers.get sector
    if buf.sector = sector then c.held (c.buffers.slot sector) = some sector
    else buf.dirty = true → c.held (c.buffers.slot sector) = some buf.sector
  | erase sector => (c.buffers.get sector).sector = sector → c.held (c.buffers.slot sector) = some sector
  | flush i =>
    let buf := c.buffers.list (c.buffers.slot i)
    buf.dirty = true → c.held (c.buffers.slot i) = some buf.sector

end Access

/-- So is every buffer in a row of accesses. -/
def AllFaithful : Cache k → List (Access k) → Prop
  | _, [] => True
  | c, a :: as => a.Faithful c ∧ AllFaithful (a.exec f c) as

/-- The accesses of the loop of read. -/
def readAccesses (bl : BufferList k) (m : Medium k) (sector : Nat) (offset : Fin (2 ^ k)) (size : Nat) :
    List (Access k) :=
  if _h : size = 0 then []
  else
    .read sector ::
      match retarget f (bl.get sector) m sector true with
      | (false, _, _) => []
      | (true, buf, m) =>
        readAccesses (bl.put (bl.slot sector) buf) m (sector + 1) ⟨0, Nat.two_pow_pos k⟩
          (size - min size (2 ^ k - offset))
termination_by size
decreasing_by exact rest_lt _h

/-- The accesses of the loop of write. -/
def writeAccesses (bl : BufferList k) (m : Medium k) (sector : Nat) (offset : Fin (2 ^ k)) (src : List UInt8) :
    List (Access k) :=
  if _h : src.length = 0 then []
  else
    let chunk := src.take (min src.length (2 ^ k - offset))
    .write sector offset chunk ::
      match retarget f (bl.get sector) m sector (offset.val != 0 || chunk.length != 2 ^ k) with
      | (false, _, _) => []
      | (true, buf, m) =>
        let buf := { buf with data := buf.data.splice offset chunk, dirty := true }
        writeAccesses (bl.put (bl.slot sector) buf) m (sector + 1) ⟨0, Nat.two_pow_pos k⟩
          (src.drop (min src.length (2 ^ k - offset)))
termination_by src.length
decreasing_by
  rw [List.length_drop]
  exact rest_lt _h

end Accesses

namespace Op

theorem offset_lt (address : Nat) : address % 2 ^ k < 2 ^ k := Nat.mod_lt _ (Nat.two_pow_pos k)

/-- The accesses of an operation on a device with buffers, and the medium when they start. -/
def accesses (d : BlockDevice k) (bl : BufferList k) : Op k → Medium k × List (Access k)
  | read address size =>
    (d.medium, readAccesses d.faults bl d.medium (address / 2 ^ k) ⟨address % 2 ^ k, offset_lt address⟩ size)
  | write address src =>
    (d.medium, writeAccesses d.faults bl d.medium (address / 2 ^ k) ⟨address % 2 ^ k, offset_lt address⟩ src)
  | eraseRange address size =>
    if BlockDevice.aligned (k := k) address size then
      match rawSectorEraseRange d.faults d.medium (address / 2 ^ k) (size / 2 ^ k) with
      | (false, m) => (m, [])
      | (true, m) => (m, (List.range' (address / 2 ^ k) (size / 2 ^ k)).map .erase)
    else (d.medium, [])
  | sync | allocateBuffers _ _ => (d.medium, (List.range bl.size).map .flush)

/-- What the buffers hold after an operation; new ones hold nothing. -/
def held (s : BlockDevice k × (Nat → Option Nat)) (op : Op k) : Nat → Option Nat :=
  match s.1.buffers, op with
  | none, _ => fun _ => none
  | some bl, op =>
    let (m, as) := op.accesses s.1 bl
    let c := as.foldl (Access.exec s.1.faults) ⟨bl, m, s.2⟩
    match op with
    | allocateBuffers _ _ => if s.1.flushBuffers.1 then fun _ => none else c.held
    | _ => c.held

/-- In an operation every buffer is taken for the sector that it holds, and written to it. -/
def TagsFaithful (s : BlockDevice k × (Nat → Option Nat)) (op : Op k) : Prop :=
  ∀ bl, s.1.buffers = some bl →
    AllFaithful s.1.faults ⟨bl, (op.accesses s.1 bl).1, s.2⟩ (op.accesses s.1 bl).2

end Op

/-- So is it in a run of operations. -/
def TagsFaithful : BlockDevice k × (Nat → Option Nat) → List (Op k) → Prop
  | _, [] => True
  | s, op :: ops => op.TagsFaithful s ∧ TagsFaithful ((op.exec s.1).2, op.held s) ops

section Loops
variable {f : Faults k}

/-- The accesses of read do to buffers and medium what its loop does. -/
theorem exec_readAccesses (bl : BufferList k) (m : Medium k) (s : Nat) (offset : Fin (2 ^ k)) (size : Nat)
    (held : Nat → Option Nat) :
    ∃ held', (readAccesses f bl m s offset size).foldl (Access.exec f) ⟨bl, m, held⟩ =
      ⟨(readLoop f bl m s offset size).2.1, (readLoop f bl m s offset size).2.2, held'⟩ := by
  induction size using Nat.strong_induction_on generalizing bl m s offset held with
  | _ size ih =>
    rw [readAccesses, readLoop]
    by_cases hz : size = 0
    · rw [dif_pos hz, dif_pos hz]
      exact ⟨held, rfl⟩
    · rw [dif_neg hz, dif_neg hz]
      rw [List.foldl_cons, Access.exec]
      dsimp only
      rcases hret : retarget f (bl.get s) m s true with ⟨_ | _, buf, m₁⟩
      · exact ⟨_, rfl⟩
      · have ho := offset.isLt
        obtain ⟨held', h⟩ := ih (size - min size (2 ^ k - offset)) (by omega) (bl.put (bl.slot s) buf) m₁ (s + 1)
          ⟨0, Nat.two_pow_pos k⟩ (heldAfter f ⟨bl, m, held⟩ s true)
        refine ⟨held', ?_⟩
        dsimp only at h ⊢
        rw [h]
        rcases readLoop f (bl.put (bl.slot s) buf) m₁ (s + 1) ⟨0, Nat.two_pow_pos k⟩ (size - min size (2 ^ k - offset))
          with ⟨_ | dst, bl', m'⟩
        · rfl
        · rfl

theorem exec_writeAccesses (bl : BufferList k) (m : Medium k) (s : Nat) (offset : Fin (2 ^ k)) (src : List UInt8)
    (held : Nat → Option Nat) :
    ∃ held', (writeAccesses f bl m s offset src).foldl (Access.exec f) ⟨bl, m, held⟩ =
      ⟨(writeLoop f bl m s offset src).2.1, (writeLoop f bl m s offset src).2.2, held'⟩ := by
  induction hlen : src.length using Nat.strong_induction_on generalizing bl m s offset src held with
  | _ len ih =>
    subst hlen
    rw [writeAccesses, writeLoop]
    by_cases hz : src.length = 0
    · rw [dif_pos hz, dif_pos hz]
      exact ⟨held, rfl⟩
    · have ho := offset.isLt
      have htake : (src.take (min src.length (2 ^ k - offset))).length = min src.length (2 ^ k - offset) := by
        rw [List.length_take]
        omega
      rw [dif_neg hz, dif_neg hz, List.foldl_cons, Access.exec]
      dsimp only
      rw [htake]
      rcases hret : retarget f (bl.get s) m s (offset.val != 0 || min src.length (2 ^ k - offset) != 2 ^ k)
        with ⟨_ | _, buf, m₁⟩
      · exact ⟨_, rfl⟩
      · dsimp only
        exact ih _ (by rw [List.length_drop]; omega) _ _ _ _ _ _ rfl

theorem exec_eraseAccesses {size : Nat} {bl : BufferList k} {m : Medium k} {address : Nat} {held : Nat → Option Nat} :
    ((List.range' address size).map Access.erase).foldl (Access.exec f) ⟨bl, m, held⟩ =
      ⟨eraseLoop bl address size, m, held⟩ := by
  induction size generalizing bl address with
  | zero => rfl
  | succ size ih =>
    rw [List.range'_succ, List.map_cons, List.foldl_cons, eraseLoop]
    exact ih

theorem exec_flushAccesses (idx : List Nat) (res : Bool) (bl : BufferList k) (m : Medium k) (held : Nat → Option Nat) :
    (idx.map Access.flush).foldl (Access.exec f) ⟨bl, m, held⟩ =
      ⟨(flushLoop f idx res bl m).2.1, (flushLoop f idx res bl m).2.2, held⟩ := by
  induction idx generalizing bl m res with
  | nil => rfl
  | cons i idx ih =>
    rw [List.map_cons, List.foldl_cons, flushLoop, Access.exec]
    exact ih _ _ _

/-- All that a tag can hold is a sector that it names, and only a buffer with a tag is dirty. -/
structure Cache.Tagged (c : Cache k) : Prop where
  held_eq : ∀ i : Fin (2 ^ c.buffers.bits), c.held i = (c.buffers.list i).tag
  idle : ∀ i : Fin (2 ^ c.buffers.bits), (c.buffers.list i).tag = none → (c.buffers.list i).dirty = false

variable {c : Cache k}

private theorem Cache.Tagged.put (h : c.Tagged) (i : Fin (2 ^ c.buffers.bits)) (buf : Buffer k) (m : Medium k)
    (hidle : buf.tag = none → buf.dirty = false) :
    Cache.Tagged ⟨c.buffers.put i buf, m, Function.update c.held i buf.tag⟩ := by
  constructor
  · intro (j : Fin (2 ^ c.buffers.bits))
    change Function.update c.held i buf.tag j = ((c.buffers.put i buf).list j).tag
    rw [BufferList.list_put]
    obtain rfl | hj := eq_or_ne j i
    · rw [if_pos rfl, Function.update_self]
    · rw [if_neg hj, Function.update_of_ne (fun he => hj (Fin.ext he))]
      exact h.held_eq j
  · intro (j : Fin (2 ^ c.buffers.bits))
    change ((c.buffers.put i buf).list j).tag = none → ((c.buffers.put i buf).list j).dirty = false
    rw [BufferList.list_put]
    split
    · exact hidle
    · exact h.idle j

/-- A buffer turned to a sector that a tag can name. -/
theorem Cache.Tagged.turn (h : c.Tagged) {s : Nat} (hs : s < Buffer.invalid) {fill r : Bool} {buf : Buffer k}
    {m : Medium k} (hret : retarget f (c.buffers.get s) c.medium s fill = (r, buf, m)) :
    heldAfter f c s fill = Function.update c.held (c.buffers.slot s) buf.tag ∧ (buf.tag = none → buf.dirty = false) ∧
      (r = true → buf.tag = some s) := by
  have hheld : c.held (c.buffers.slot s) = (c.buffers.get s).tag := h.held_eq _
  have hsame : Function.update c.held (c.buffers.slot s) (c.buffers.get s).tag = c.held := by
    rw [← hheld, Function.update_eq_self]
  rcases retarget_cases hret with ⟨hhit, -, rfl, -⟩ | ⟨hmiss, rfl, hflush⟩ | ⟨hmiss, buf₁, m₁, hflush, hcases⟩
  · refine ⟨?_, h.idle _, fun _ => Buffer.tag_eq_some.mpr ⟨hhit, fun he => Nat.ne_of_lt hs (hhit.symm.trans he)⟩⟩
    rw [heldAfter, if_pos (.inl hhit), hsame]
  · obtain rfl : buf = c.buffers.get s := by
      rcases flushBuffer_cases hflush with ⟨-, hr, -⟩ | ⟨-, -, hbuf, -⟩ | ⟨-, hr, -⟩
      · cases hr
      · exact hbuf
      · cases hr
    refine ⟨?_, h.idle _, by simp⟩
    rw [heldAfter, hflush, if_pos (.inr rfl), hsame]
  · rw [heldAfter, hflush, hret, if_neg (by simp [hmiss])]
    rcases hcases with ⟨-, rfl, -, hinvalid, hclean⟩ | ⟨-, rfl, -, rfl⟩ | ⟨-, rfl, -, rfl⟩
    · have htag : buf.tag = none := if_pos hinvalid
      rw [htag]
      exact ⟨rfl, fun _ => hclean, by simp⟩
    · rw [Buffer.setSector_tag _ hs]
      exact ⟨rfl, by simp, fun _ => rfl⟩
    · rw [Buffer.setSector_tag _ hs]
      exact ⟨rfl, by simp, fun _ => rfl⟩

/-- The sector of an access is one that a tag can name. -/
def Access.Below : Access k → Prop
  | read sector | write sector _ _ | erase sector => sector < Buffer.invalid
  | flush _ => True

private theorem Cache.Tagged.hit (h : c.Tagged) {s : Nat} (hs : s < Buffer.invalid)
    (hhit : (c.buffers.get s).sector = s) : c.held (c.buffers.slot s) = some s :=
  (h.held_eq _).trans (Buffer.tag_eq_some.mpr ⟨hhit, fun he => Nat.ne_of_lt hs (hhit.symm.trans he)⟩)

private theorem Cache.Tagged.target (h : c.Tagged) (i : Fin (2 ^ c.buffers.bits))
    (hdirty : (c.buffers.list i).dirty = true) : c.held i = some (c.buffers.list i).sector := by
  rw [h.held_eq, Buffer.tag, if_neg]
  intro hinvalid
  have := h.idle i (if_pos hinvalid)
  rw [hdirty] at this
  cases this

theorem Cache.Tagged.step (h : c.Tagged) {a : Access k} (ha : a.Below) : a.Faithful c ∧ (a.exec f c).Tagged := by
  cases a with
  | read s =>
    constructor
    · rw [Access.Faithful]
      split
      · exact h.hit ha ‹_›
      · exact h.target _
    · rcases hret : retarget f (c.buffers.get s) c.medium s true with ⟨r, buf, m⟩
      obtain ⟨hheld, hidle, -⟩ := h.turn ha hret
      rw [Access.exec, hret]
      dsimp only
      rw [hheld]
      exact h.put _ buf m hidle
  | write s offset src =>
    constructor
    · rw [Access.Faithful]
      split
      · exact h.hit ha ‹_›
      · exact h.target _
    · rcases hret : retarget f (c.buffers.get s) c.medium s (offset != 0 || src.length != 2 ^ k) with ⟨r, buf, m⟩
      obtain ⟨hheld, hidle, htag⟩ := h.turn ha hret
      rw [Access.exec, hret]
      cases r with
      | false =>
        dsimp only
        rw [hheld]
        exact h.put _ buf m hidle
      | true =>
        dsimp only
        rw [hheld]
        apply h.put (c.buffers.slot s) _ m
        intro hnone
        cases (htag rfl).symm.trans hnone
  | erase s =>
    refine ⟨fun hhit => h.hit ha hhit, ?_⟩
    rw [Access.exec]
    split
    · have hput := h.put (c.buffers.slot s) (c.buffers.get s).clear c.medium fun _ => rfl
      have hsame : Function.update c.held (c.buffers.slot s) (c.buffers.get s).clear.tag = c.held := by
        rw [show (c.buffers.get s).clear.tag = c.held (c.buffers.slot s) from (h.held_eq _).symm,
          Function.update_eq_self]
      rwa [hsame] at hput
    · exact h
  | flush i =>
    refine ⟨h.target _, ?_⟩
    rcases hflush : flushBuffer f (c.buffers.list (c.buffers.slot i)) c.medium with ⟨r, buf, m⟩
    have hkeep : buf.sector = (c.buffers.list (c.buffers.slot i)).sector ∧
        (buf.dirty = true → (c.buffers.list (c.buffers.slot i)).dirty = true) := by
      rcases flushBuffer_cases hflush with ⟨-, -, rfl, -⟩ | ⟨-, -, rfl, -⟩ | ⟨hdirty, -, rfl, -⟩
      · exact ⟨rfl, id⟩
      · exact ⟨rfl, id⟩
      · exact ⟨rfl, fun _ => hdirty⟩
    have htag : buf.tag = (c.buffers.list (c.buffers.slot i)).tag := by rw [Buffer.tag, hkeep.1, Buffer.tag]
    rw [Access.exec, hflush]
    have hput := h.put (c.buffers.slot i) buf m fun hnone => by
      have := h.idle _ (htag.symm.trans hnone)
      exact Bool.eq_false_of_not_eq_true fun hd => by rw [hkeep.2 hd] at this; cases this
    rwa [htag, ← h.held_eq, Function.update_eq_self] at hput

theorem Cache.Tagged.all (h : c.Tagged) {as : List (Access k)} (has : ∀ a ∈ as, a.Below) :
    AllFaithful f c as ∧ (as.foldl (Access.exec f) c).Tagged := by
  induction as generalizing c with
  | nil => exact ⟨trivial, h⟩
  | cons a as ih =>
    obtain ⟨hfaithful, hnext⟩ := h.step (f := f) (has a (List.mem_cons_self ..))
    obtain ⟨hrest, hlast⟩ := ih hnext fun a ha => has a (List.mem_cons_of_mem _ ha)
    exact ⟨⟨hfaithful, hrest⟩, hlast⟩

private theorem readAccesses_below {size : Nat} {bl : BufferList k} {m : Medium k} {s : Nat} {offset : Fin (2 ^ k)}
    (hr : s * 2 ^ k + offset + size ≤ Buffer.invalid * 2 ^ k) : ∀ a ∈ readAccesses f bl m s offset size, a.Below := by
  induction size using Nat.strong_induction_on generalizing bl m s offset with
  | _ size ih =>
    intro a ha
    rw [readAccesses] at ha
    by_cases hz : size = 0
    · rw [dif_pos hz] at ha
      cases ha
    · have hoffset := offset.isLt
      rw [dif_neg hz] at ha
      rcases List.mem_cons.mp ha with rfl | ha
      · exact BufferList.sector_valid hr hz
      · split at ha
        · cases ha
        · exact ih _ (by omega) (BufferList.rest_in_range hr hz) a ha

private theorem writeAccesses_below {src : List UInt8} {bl : BufferList k} {m : Medium k} {s : Nat}
    {offset : Fin (2 ^ k)}
    (hr : s * 2 ^ k + offset + src.length ≤ Buffer.invalid * 2 ^ k) :
    ∀ a ∈ writeAccesses f bl m s offset src, a.Below := by
  induction hlen : src.length using Nat.strong_induction_on generalizing bl m s offset src with
  | _ len ih =>
    subst hlen
    intro a ha
    rw [writeAccesses] at ha
    by_cases hz : src.length = 0
    · rw [dif_pos hz] at ha
      cases ha
    · have hoffset := offset.isLt
      have hdrop : (src.drop (min src.length (2 ^ k - offset))).length = src.length - min src.length (2 ^ k - offset) :=
        List.length_drop
      have hrest := BufferList.rest_in_range hr hz
      rw [← hdrop] at hrest
      rw [dif_neg hz] at ha
      rcases List.mem_cons.mp ha with rfl | ha
      · exact BufferList.sector_valid hr hz
      · split at ha
        · cases ha
        · exact ih _ (by omega) hrest rfl a ha

end Loops

namespace Op

private theorem accesses_below {sectorCount : Nat} (hcount : sectorCount ≤ 2 ^ 32 - 1) {op : Op k}
    (hin : op.InRange sectorCount) (d : BlockDevice k) (bl : BufferList k) : ∀ a ∈ (op.accesses d bl).2, a.Below := by
  have hmul := Nat.mul_le_mul_right (2 ^ k) (show sectorCount ≤ Buffer.invalid from hcount)
  have hsplit : ∀ address, address / 2 ^ k * 2 ^ k + address % 2 ^ k = address := fun address => by
    rw [Nat.mul_comm, Nat.div_add_mod]
  intro a ha
  cases op with
  | read address size =>
    refine readAccesses_below (le_trans ?_ (le_trans hin hmul)) a ha
    have := hsplit address
    dsimp only
    omega
  | write address src =>
    refine writeAccesses_below (le_trans ?_ (le_trans hin hmul)) a ha
    have := hsplit address
    dsimp only
    omega
  | eraseRange address size =>
    rw [accesses] at ha
    split at ha
    · split at ha
      · cases ha
      · obtain ⟨sector, hsector, rfl⟩ := List.mem_map.mp ha
        have hrange := List.mem_range'_1.mp hsector
        have hdiv : address / 2 ^ k + size / 2 ^ k ≤ (address + size) / 2 ^ k := Nat.div_add_div_le_add_div
        have hle : (address + size) / 2 ^ k ≤ Buffer.invalid :=
          Nat.div_le_of_le_mul (by rw [Nat.mul_comm]; exact le_trans hin hmul)
        change sector < Buffer.invalid
        omega
    · cases ha
  | sync =>
    obtain ⟨i, -, rfl⟩ := List.mem_map.mp ha
    trivial
  | allocateBuffers numBuffers memory =>
    obtain ⟨i, -, rfl⟩ := List.mem_map.mp ha
    trivial

theorem exec_accesses {d : BlockDevice k} {bl : BufferList k} (hb : d.buffers = some bl) (op : Op k)
    (held : Nat → Option Nat) :
    let c := (op.accesses d bl).2.foldl (Access.exec d.faults) ⟨bl, (op.accesses d bl).1, held⟩
    (op.exec d).2.medium.sectors = c.medium.sectors ∧
      ((op.exec d).2.buffers = some c.buffers ∧ op.held (d, held) = c.held ∨
        (∃ n memory, op = .allocateBuffers n memory) ∧
          (∀ bl, (op.exec d).2.buffers = some bl → ∃ n memory, bl = .new n memory) ∧
          op.held (d, held) = fun _ => none) := by
  have hflush : d.flushBuffers = ((flushLoop d.faults (List.range bl.size) true bl d.medium).1,
      { d with medium := (flushLoop d.faults (List.range bl.size) true bl d.medium).2.2,
               buffers := some (flushLoop d.faults (List.range bl.size) true bl d.medium).2.1 }) := by
    rw [BlockDevice.flushBuffers, hb]
  unfold Op.held
  dsimp only
  rw [hb]
  dsimp only
  cases op with
  | read address size =>
    obtain ⟨held', h⟩ := exec_readAccesses (f := d.faults) bl d.medium _ _ size held
    rw [accesses, h, exec, BlockDevice.read, hb]
    exact ⟨rfl, .inl ⟨rfl, rfl⟩⟩
  | write address src =>
    obtain ⟨held', h⟩ := exec_writeAccesses (f := d.faults) bl d.medium _ _ src held
    rw [accesses, h, exec, BlockDevice.write, hb]
    exact ⟨rfl, .inl ⟨rfl, rfl⟩⟩
  | eraseRange address size =>
    by_cases hal : BlockDevice.aligned (k := k) address size = true
    · rw [accesses, exec, BlockDevice.eraseRange, if_pos hal, if_pos hal]
      rcases rawSectorEraseRange d.faults d.medium (address / 2 ^ k) (size / 2 ^ k) with ⟨_ | _, m⟩
      · exact ⟨rfl, .inl ⟨hb, rfl⟩⟩
      · dsimp only
        rw [exec_eraseAccesses, hb]
        exact ⟨rfl, .inl ⟨rfl, rfl⟩⟩
    · rw [accesses, exec, BlockDevice.eraseRange, if_neg hal, if_neg hal]
      exact ⟨rfl, .inl ⟨hb, rfl⟩⟩
  | sync =>
    rw [accesses, exec_flushAccesses _ true, exec, BlockDevice.sync, hflush]
    rcases flushLoop d.faults (List.range bl.size) true bl d.medium with ⟨_ | _, bl', m⟩
    · exact ⟨rfl, .inl ⟨rfl, rfl⟩⟩
    · exact ⟨rfl, .inl ⟨rfl, rfl⟩⟩
  | allocateBuffers numBuffers memory =>
    rw [accesses, exec_flushAccesses _ true, exec, BlockDevice.allocateBuffers, hflush]
    rcases flushLoop d.faults (List.range bl.size) true bl d.medium with ⟨_ | _, bl', m⟩
    · exact ⟨rfl, .inl ⟨rfl, rfl⟩⟩
    · dsimp only
      split
      · exact ⟨rfl, .inr ⟨⟨_, _, rfl⟩, by simp, rfl⟩⟩
      · split
        · exact ⟨rfl, .inr ⟨⟨_, _, rfl⟩, by simp, rfl⟩⟩
        · split
          · exact ⟨rfl, .inr ⟨⟨_, _, rfl⟩, fun _ h => ⟨_, _, (Option.some.inj h).symm⟩, rfl⟩⟩
          · exact ⟨rfl, .inr ⟨⟨_, _, rfl⟩, by simp, rfl⟩⟩

private theorem exec_unbuffered {d : BlockDevice k} (hb : d.buffers = none) (op : Op k) :
    ∀ bl, (op.exec d).2.buffers = some bl → ∃ n memory, bl = .new n memory := by
  have hflush : d.flushBuffers = (true, d) := by rw [BlockDevice.flushBuffers, hb]
  have hnone : ∀ bl, d.buffers = some bl → ∃ n memory, bl = .new n memory := fun bl h => by rw [hb] at h; cases h
  intro bl h
  cases op with
  | read address size =>
    rw [exec, BlockDevice.read, hb] at h
    dsimp only at h
    split at h
    · cases h
    · exact hnone bl h
  | write address src =>
    rw [exec, BlockDevice.write, hb] at h
    dsimp only at h
    split at h
    · cases h
    · exact hnone bl h
  | eraseRange address size =>
    by_cases hal : BlockDevice.aligned (k := k) address size = true
    · rw [exec, BlockDevice.eraseRange, if_pos hal] at h
      rcases hraw : rawSectorEraseRange d.faults d.medium (address / 2 ^ k) (size / 2 ^ k) with ⟨_ | _, m⟩
      · rw [hraw] at h
        exact hnone bl h
      · rw [hraw, hb] at h
        cases h
    · rw [exec, BlockDevice.eraseRange, if_neg hal] at h
      exact hnone bl h
  | sync =>
    rw [exec, BlockDevice.sync, hflush] at h
    exact hnone bl h
  | allocateBuffers numBuffers memory =>
    rw [exec, BlockDevice.allocateBuffers, hflush] at h
    dsimp only at h
    split at h
    · cases h
    · split at h
      · cases h
      · split at h
        · exact ⟨_, _, (Option.some.inj h).symm⟩
        · cases h

end Op

/-- Between the operations every tag names what its buffer holds. -/
def DeviceTagged (s : BlockDevice k × (Nat → Option Nat)) : Prop :=
  ∀ bl, s.1.buffers = some bl → ∀ m, Cache.Tagged ⟨bl, m, s.2⟩

private theorem tagged_new (n : Nat) (memory : Nat → Sector k) (m : Medium k) :
    Cache.Tagged ⟨.new n memory, m, fun _ => none⟩ :=
  ⟨fun _ => (if_pos rfl).symm, fun _ _ => rfl⟩

private theorem DeviceTagged.step {sectorCount : Nat} (hcount : sectorCount ≤ 2 ^ 32 - 1)
    {s : BlockDevice k × (Nat → Option Nat)} (h : DeviceTagged s) {op : Op k} (hin : op.InRange sectorCount) :
    op.TagsFaithful s ∧ DeviceTagged ((op.exec s.1).2, op.held s) := by
  obtain ⟨d, held⟩ := s
  cases hb : d.buffers with
  | none =>
    refine ⟨fun bl hbl => absurd (hb.symm.trans hbl) (by simp), fun bl hbl m => ?_⟩
    obtain ⟨n, memory, rfl⟩ := Op.exec_unbuffered hb op bl hbl
    have hheld : op.held (d, held) = fun _ => none := by
      unfold Op.held
      dsimp only
      rw [hb]
    dsimp only
    rw [hheld]
    exact tagged_new n memory m
  | some bl =>
    obtain ⟨hfaithful, hlast⟩ := (h bl hb (op.accesses d bl).1).all (f := d.faults) (Op.accesses_below hcount hin d bl)
    refine ⟨fun bl' hbl' => ?_, fun bl' hbl' m => ?_⟩
    · obtain rfl := Option.some.inj (hb.symm.trans hbl')
      exact hfaithful
    · dsimp only at hbl' ⊢
      obtain ⟨-, ⟨hbuffers, hheld⟩ | ⟨-, hnew, hheld⟩⟩ := Op.exec_accesses hb op held
      · obtain rfl := Option.some.inj (hbuffers.symm.trans hbl')
        rw [hheld]
        exact ⟨hlast.held_eq, hlast.idle⟩
      · obtain ⟨n, memory, rfl⟩ := hnew bl' hbl'
        rw [hheld]
        exact tagged_new n memory m

private theorem DeviceTagged.run {sectorCount : Nat} (hcount : sectorCount ≤ 2 ^ 32 - 1)
    {s : BlockDevice k × (Nat → Option Nat)} (h : DeviceTagged s) {ops : List (Op k)}
    (hin : ∀ op ∈ ops, op.InRange sectorCount) : TagsFaithful s ops := by
  induction ops generalizing s with
  | nil => trivial
  | cons op ops ih =>
    obtain ⟨hfaithful, hnext⟩ := h.step hcount (hin op (List.mem_cons_self ..))
    exact ⟨hfaithful, ih hnext fun op hop => hin op (List.mem_cons_of_mem _ hop)⟩

private theorem invalid_hit (d : BlockDevice k) (hb : d.buffers = none) (held : Nat → Option Nat) :
    ¬ TagsFaithful (d, held) [.allocateBuffers 1 (some fun _ => Sector.zero), .read (Buffer.invalid * 2 ^ k) 1] := by
  rintro ⟨-, hread, -⟩
  have hexec : ((Op.allocateBuffers 1 (some fun _ => Sector.zero)).exec d).2 =
      { d with buffers := some (.new 1 fun _ => Sector.zero) } := by
    rw [Op.exec, BlockDevice.allocateBuffers, show d.flushBuffers = (true, d) by rw [BlockDevice.flushBuffers, hb]]
    rfl
  have hheld : (Op.allocateBuffers 1 (some fun _ => Sector.zero)).held (d, held) = fun _ => none := by
    unfold Op.held
    dsimp only
    rw [hb]
  rw [hexec, hheld] at hread
  have haccesses := hread _ rfl
  dsimp only [Op.accesses] at haccesses
  rw [readAccesses, dif_neg Nat.one_ne_zero, Nat.mul_div_cancel _ (Nat.two_pow_pos k)] at haccesses
  have hfirst := haccesses.1
  rw [Access.Faithful] at hfirst
  dsimp only at hfirst
  rw [if_pos (show ((BufferList.new 1 fun _ => (Sector.zero : Sector k)).get Buffer.invalid).sector =
    Buffer.invalid from rfl)]
    at hfirst
  cases hfirst

/-- The buffers of a device, as constructed, are taken for what they hold and written to it in every run of
operations within its sectors, if and only if a tag can name all of these. -/
theorem tags_faithful_iff (sectorCount : Nat) (faults : Faults k) (sectors : Nat → Sector k) :
    (∀ ops : List (Op k), (∀ op ∈ ops, op.InRange sectorCount) →
      TagsFaithful (.fresh sectorCount faults sectors, fun _ => none) ops) ↔ sectorCount ≤ 2 ^ 32 - 1 := by
  constructor
  · intro h
    by_contra hcount
    refine invalid_hit _ rfl _ (h _ fun op hop => ?_)
    rcases List.mem_pair.mp hop with rfl | rfl
    · trivial
    · have hmul := Nat.mul_le_mul_right (2 ^ k) (show Buffer.invalid + 1 ≤ sectorCount by rw [Buffer.invalid]; omega)
      have hpos := Nat.two_pow_pos k
      rw [Nat.succ_mul] at hmul
      change Buffer.invalid * 2 ^ k + 1 ≤ sectorCount * 2 ^ k
      omega
  · intro hcount ops hin
    exact DeviceTagged.run hcount (fun bl hbl => by cases hbl) hin

/-- On a device of `2 ^ 32` sectors, the last one is read out of a buffer that nothing has been read into. -/
theorem empty_buffer_hit : ¬ TagsFaithful
    (.fresh (k := 9) (2 ^ 32) ⟨fun _ => false, fun _ => Sector.zero⟩ fun _ => Sector.zero, fun _ => none)
    [.allocateBuffers 1 (some fun _ => Sector.zero), .read (Buffer.invalid * 2 ^ 9) 1] :=
  invalid_hit _ rfl _

end DiskStorage
