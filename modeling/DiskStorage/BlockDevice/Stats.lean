import DiskStorage.BlockDevice.WriteOrder
import DiskStorage.BlockDevice.Tags
import Mathlib.Algebra.BigOperators.Group.Finset.Basic
import Mathlib.Algebra.Order.BigOperators.Group.Finset

/-! The statistics that the buffers keep, and what they say about the raw operations: how many a run takes
lies between its misses and twice as many, and a window of sectors that fits the buffers is read in once. -/
namespace DiskStorage
variable {k : Nat}

namespace Stat

inductive Function where
  | read
  | write
  | erase
  deriving DecidableEq

/-- Hit, Miss -/
structure Func where
  count : Fin 2 → Nat

/-- `++count[i]`, in 32 bits -/
def Func.increment (f : Func) (i : Fin 2) : Func := ⟨Function.update f.count i ((f.count i + 1) % 2 ^ 32)⟩

end Stat

/-- The counters by function and by sector. -/
structure Stat where
  func : Stat.Function → Stat.Func
  sectors : Nat → Stat.Func

namespace Stat

/-- As constructed; a sector without an entry in the map counts as one with zeros. -/
def zero : Stat := ⟨fun _ => ⟨fun _ => 0⟩, fun _ => ⟨fun _ => 0⟩⟩

/-- `Stat::update`, whose parameters have 32 bits. -/
def update (stat : Stat) (fn : Function) (sector cacheSector : Nat) : Stat :=
  let i := if sector % 2 ^ 32 = cacheSector then 0 else 1
  { sectors := Function.update stat.sectors (sector % 2 ^ 32) ((stat.sectors (sector % 2 ^ 32)).increment i)
    func := Function.update stat.func fn ((stat.func fn).increment i) }

end Stat

/-- The sector that an access is to. -/
def Access.sector : Access k → Option Nat
  | .read sector | .write sector _ _ | .erase sector => some sector
  | .flush _ => none

/-- What an access counts, before its buffer is turned to the sector. -/
def Access.count (c : Cache k) (stat : Stat) : Access k → Stat
  | .read sector => stat.update .read sector (c.buffers.get sector).sector
  | .write sector _ _ => stat.update .write sector (c.buffers.get sector).sector
  | .erase sector => stat.update .erase sector (c.buffers.get sector).sector
  | .flush _ => stat

/-- What a row of accesses counts. -/
def countAccesses (f : Faults k) : Cache k → Stat → List (Access k) → Stat
  | _, stat, [] => stat
  | c, stat, a :: as => countAccesses f (a.exec f c) (a.count c stat) as

/-- The statistics after an operation. -/
def Op.stat (d : BlockDevice k) (stat : Stat) (op : Op k) : Stat :=
  match d.buffers with
  | none => stat
  | some bl => countAccesses d.faults ⟨bl, (op.accesses d bl).1, fun _ => none⟩ stat (op.accesses d bl).2

/-- The statistics after a run of operations. -/
def statAfter : BlockDevice k → Stat → List (Op k) → Stat
  | _, stat, [] => stat
  | d, stat, op :: ops => statAfter (op.exec d).2 (op.stat d stat) ops

/-- The misses of a function, one or none, that an access is to be counted as. -/
def Access.misses (c : Cache k) (fn : Stat.Function) : Access k → Nat
  | .read sector => if fn = .read ∧ (c.buffers.get sector).sector ≠ sector then 1 else 0
  | .write sector _ _ => if fn = .write ∧ (c.buffers.get sector).sector ≠ sector then 1 else 0
  | .erase sector => if fn = .erase ∧ (c.buffers.get sector).sector ≠ sector then 1 else 0
  | .flush _ => 0

def missesOf (f : Faults k) (fn : Stat.Function) : Cache k → List (Access k) → Nat
  | _, [] => 0
  | c, a :: as => a.misses c fn + missesOf f fn (a.exec f c) as

def Op.misses (d : BlockDevice k) (fn : Stat.Function) (op : Op k) : Nat :=
  match d.buffers with
  | none => 0
  | some bl => missesOf d.faults fn ⟨bl, (op.accesses d bl).1, fun _ => none⟩ (op.accesses d bl).2

/-- The misses of a function in a run of operations, as many as there are. -/
def missesAfter (fn : Stat.Function) : BlockDevice k → List (Op k) → Nat
  | _, [] => 0
  | d, op :: ops => op.misses d fn + missesAfter fn (op.exec d).2 ops

/-- An operation is to bytes of a sector. -/
def Op.Addresses (s : Nat) : Op k → Prop
  | .read address size | .eraseRange address size => address < (s + 1) * 2 ^ k ∧ s * 2 ^ k < address + size
  | .write address src => address < (s + 1) * 2 ^ k ∧ s * 2 ^ k < address + src.length
  | .sync | .allocateBuffers _ _ => False

section Sectors
variable {f : Faults k} {a : Access k} {sector : Nat}

private theorem readAccesses_sector {size : Nat} {bl : BufferList k} {m : Medium k} {s : Nat} {offset : Fin (2 ^ k)}
    (ha : a ∈ readAccesses f bl m s offset size) :
    (∃ t, a = .read t) ∧ ∀ t, a.sector = some t → s ≤ t ∧ t * 2 ^ k < s * 2 ^ k + offset + size := by
  induction size using Nat.strong_induction_on generalizing bl m s offset with
  | _ size ih =>
    rw [readAccesses] at ha
    by_cases hz : size = 0
    · rw [dif_pos hz] at ha
      cases ha
    · have hoffset := offset.isLt
      rw [dif_neg hz] at ha
      rcases List.mem_cons.mp ha with rfl | ha
      · refine ⟨⟨s, rfl⟩, fun t ht => ?_⟩
        obtain rfl : s = t := Option.some.inj ht
        omega
      · split at ha
        · cases ha
        · obtain ⟨hread, hsector⟩ := ih _ (by omega) ha
          refine ⟨hread, fun t ht => ?_⟩
          obtain ⟨hlow, hhigh⟩ := hsector t ht
          have hstart := Nat.mul_le_mul_right (2 ^ k) hlow
          rw [Nat.add_mul] at hhigh hstart
          dsimp only at hhigh
          omega

private theorem writeAccesses_sector {src : List UInt8} {bl : BufferList k} {m : Medium k} {s : Nat}
    {offset : Fin (2 ^ k)} (ha : a ∈ writeAccesses f bl m s offset src) :
    (∃ t o chunk, a = .write t o chunk) ∧
      ∀ t, a.sector = some t → s ≤ t ∧ t * 2 ^ k < s * 2 ^ k + offset + src.length := by
  induction hlen : src.length using Nat.strong_induction_on generalizing bl m s offset src with
  | _ len ih =>
    subst hlen
    rw [writeAccesses] at ha
    by_cases hz : src.length = 0
    · rw [dif_pos hz] at ha
      cases ha
    · have hoffset := offset.isLt
      have hdrop : (src.drop (min src.length (2 ^ k - offset))).length = src.length - min src.length (2 ^ k - offset) :=
        List.length_drop
      rw [dif_neg hz] at ha
      rcases List.mem_cons.mp ha with rfl | ha
      · refine ⟨⟨s, _, _, rfl⟩, fun t ht => ?_⟩
        obtain rfl : s = t := Option.some.inj ht
        omega
      · split at ha
        · cases ha
        · obtain ⟨hwrite, hsector⟩ := ih _ (by omega) ha rfl
          refine ⟨hwrite, fun t ht => ?_⟩
          obtain ⟨hlow, hhigh⟩ := hsector t ht
          have hstart := Nat.mul_le_mul_right (2 ^ k) hlow
          rw [hdrop, Nat.add_mul] at hhigh
          rw [Nat.add_mul] at hstart
          dsimp only at hhigh
          omega

theorem Op.accesses_sector {d : BlockDevice k} {bl : BufferList k} {op : Op k} (ha : a ∈ (op.accesses d bl).2)
    (hs : a.sector = some sector) : op.Addresses sector := by
  have hfirst : ∀ address : Nat, address / 2 ^ k * 2 ^ k + address % 2 ^ k = address := fun address => by
    rw [Nat.mul_comm, Nat.div_add_mod]
  have hnext : ∀ {address t : Nat}, address / 2 ^ k ≤ t → address < (t + 1) * 2 ^ k := fun h =>
    (Nat.div_lt_iff_lt_mul (Nat.two_pow_pos k)).mp (Nat.lt_succ_of_le h)
  cases op with
  | read address size =>
    obtain ⟨_, hsector⟩ := readAccesses_sector ha
    obtain ⟨hlow, hhigh⟩ := hsector sector hs
    dsimp only at hhigh
    rw [hfirst] at hhigh
    exact ⟨hnext hlow, hhigh⟩
  | write address src =>
    obtain ⟨_, hsector⟩ := writeAccesses_sector ha
    obtain ⟨hlow, hhigh⟩ := hsector sector hs
    dsimp only at hhigh
    rw [hfirst] at hhigh
    exact ⟨hnext hlow, hhigh⟩
  | eraseRange address size =>
    rw [Op.accesses] at ha
    split at ha
    · rename_i hal
      split at ha
      · cases ha
      · obtain ⟨t, ht, rfl⟩ := List.mem_map.mp ha
        obtain rfl : t = sector := Option.some.inj hs
        obtain ⟨hlow, hhigh⟩ := List.mem_range'_1.mp ht
        refine ⟨hnext hlow, ?_⟩
        have hlast := Nat.mul_le_mul_right (2 ^ k) (Nat.succ_le_of_lt hhigh)
        have hsize := Nat.div_mul_le_self size (2 ^ k)
        have haddress := Nat.div_mul_le_self address (2 ^ k)
        have hpos := Nat.two_pow_pos k
        rw [Nat.succ_mul, Nat.add_mul] at hlast
        omega
    · cases ha
  | sync =>
    obtain ⟨i, -, rfl⟩ := List.mem_map.mp ha
    cases hs
  | allocateBuffers numBuffers memory =>
    obtain ⟨i, -, rfl⟩ := List.mem_map.mp ha
    cases hs

theorem Op.sector_lt {sectorCount s : Nat} {op : Op k} (hin : op.InRange sectorCount) (hs : op.Addresses s) :
    s < sectorCount := by
  cases op with
  | read address size => exact Nat.lt_of_mul_lt_mul_right (hs.2.trans_le hin)
  | write address src => exact Nat.lt_of_mul_lt_mul_right (hs.2.trans_le hin)
  | eraseRange address size => exact Nat.lt_of_mul_lt_mul_right (hs.2.trans_le hin)
  | sync => cases hs
  | allocateBuffers numBuffers memory => cases hs

end Sectors

namespace Stat

/-- Whether a lookup is a hit or a miss. -/
def outcome (sector cacheSector : Nat) : Fin 2 := if sector % 2 ^ 32 = cacheSector then 0 else 1

theorem count_increment (f : Func) (i j : Fin 2) :
    (f.increment i).count j = if j = i then (f.count j + 1) % 2 ^ 32 else f.count j := by
  obtain rfl | hne := eq_or_ne j i
  · simp [Func.increment]
  · simp [Func.increment, hne]

theorem func_update (stat : Stat) (fn g : Function) (s cache : Nat) :
    (stat.update fn s cache).func g =
      if g = fn then (stat.func g).increment (outcome s cache) else stat.func g := by
  obtain rfl | hne := eq_or_ne g fn
  · simp [update, outcome]
  · simp [update, hne]

theorem sectors_update (stat : Stat) (fn : Function) {s : Nat} (hs : s < 2 ^ 32) (cache t : Nat) :
    (stat.update fn s cache).sectors t =
      if t = s then (stat.sectors t).increment (outcome s cache) else stat.sectors t := by
  have hword : s % 2 ^ 32 = s := Nat.mod_eq_of_lt hs
  rw [update, outcome, hword]
  obtain rfl | hne := eq_or_ne t s
  · simp
  · simp [hne]

end Stat

section Misses
variable {f : Faults k} {d : BlockDevice k} {stat : Stat} {fn : Stat.Function} {n : Nat}

private theorem update_misses (hn : (stat.func fn).count 1 = n % 2 ^ 32) (g : Stat.Function) {s cache : Nat}
    (hs : s < 2 ^ 32) :
    ((stat.update g s cache).func fn).count 1 = (n + if fn = g ∧ cache ≠ s then 1 else 0) % 2 ^ 32 := by
  rw [Stat.func_update, Stat.outcome, Nat.mod_eq_of_lt hs]
  obtain rfl | hne := eq_or_ne fn g
  · obtain rfl | hmiss := eq_or_ne cache s
    · simp [Stat.count_increment, hn]
    · simp [Stat.count_increment, hn, hmiss, hmiss.symm]
  · simp [hn, hne]

private theorem access_misses (hn : (stat.func fn).count 1 = n % 2 ^ 32) (c : Cache k) {a : Access k}
    (hs : ∀ s, a.sector = some s → s < 2 ^ 32) :
    ((a.count c stat).func fn).count 1 = (n + a.misses c fn) % 2 ^ 32 := by
  cases a with
  | read s => exact update_misses hn .read (hs s rfl)
  | write s offset chunk => exact update_misses hn .write (hs s rfl)
  | erase s => exact update_misses hn .erase (hs s rfl)
  | flush slot => exact hn

private theorem accesses_misses (hn : (stat.func fn).count 1 = n % 2 ^ 32) (c : Cache k) {as : List (Access k)}
    (hs : ∀ a ∈ as, ∀ s, a.sector = some s → s < 2 ^ 32) :
    ((countAccesses f c stat as).func fn).count 1 = (n + missesOf f fn c as) % 2 ^ 32 := by
  induction as generalizing c stat n with
  | nil => exact hn
  | cons a as ih =>
    have hnext := access_misses hn c (hs a List.mem_cons_self)
    rw [countAccesses, missesOf, ← Nat.add_assoc]
    exact ih hnext _ fun a ha => hs a (List.mem_cons_of_mem _ ha)

theorem statAfter_misses (fn : Stat.Function) {sectorCount : Nat} (hcount : sectorCount ≤ 2 ^ 32) (d : BlockDevice k)
    {ops : List (Op k)} (hin : ∀ op ∈ ops, op.InRange sectorCount) :
    ((statAfter d .zero ops).func fn).count 1 = missesAfter fn d ops % 2 ^ 32 := by
  have hrun : ∀ (d : BlockDevice k) (stat : Stat) (n : Nat), (stat.func fn).count 1 = n % 2 ^ 32 →
      ((statAfter d stat ops).func fn).count 1 = (n + missesAfter fn d ops) % 2 ^ 32 := by
    induction ops with
    | nil => exact fun _ _ _ hn => hn
    | cons op ops ih =>
      intro d stat n hn
      have hstep : ((op.stat d stat).func fn).count 1 = (n + op.misses d fn) % 2 ^ 32 := by
        rw [Op.stat, Op.misses]
        cases d.buffers with
        | none => exact hn
        | some bl =>
          refine accesses_misses hn _ fun a ha s hs => ?_
          exact (Op.sector_lt (hin op List.mem_cons_self) (Op.accesses_sector ha hs)).trans_le hcount
      rw [statAfter, missesAfter, ← Nat.add_assoc]
      exact ih (fun op hop => hin op (List.mem_cons_of_mem _ hop)) _ _ _ hstep
  have := hrun d .zero 0 rfl
  rwa [Nat.zero_add] at this

private theorem retarget_calls {buf buf' : Buffer k} {m m' : Medium k} {s : Nat} {fill r : Bool}
    (h : retarget f buf m s fill = (r, buf', m')) :
    m.calls ≤ m'.calls ∧ m'.calls ≤ m.calls + 2 ∧ (buf.sector = s → m'.calls = m.calls) ∧
      (buf.sector ≠ s → fill = true → m.calls + 1 ≤ m'.calls) := by
  rcases retarget_cases h with ⟨heq, _, _, rfl⟩ | ⟨hne, _, hflush⟩ | ⟨hne, buf₁, m₁, hflush, hrest⟩
  · exact ⟨le_refl _, Nat.le_add_right _ _, fun _ => rfl, fun hne => absurd heq hne⟩
  · -- the buffer could not be flushed
    rcases flushBuffer_cases hflush with ⟨_, hr, _⟩ | ⟨_, _, _, rfl⟩ | ⟨_, hr, _⟩
    · cases hr
    · exact ⟨Nat.le_succ _, Nat.le_succ _, fun heq => absurd heq hne, fun _ _ => le_refl _⟩
    · cases hr
  · have hfirst : m.calls ≤ m₁.calls ∧ m₁.calls ≤ m.calls + 1 := by
      rcases flushBuffer_cases hflush with ⟨_, _, _, rfl⟩ | ⟨_, _, _, rfl⟩ | ⟨_, _, _, rfl⟩
      · exact ⟨le_refl _, Nat.le_succ _⟩
      · exact ⟨Nat.le_succ _, le_refl _⟩
      · exact ⟨Nat.le_succ _, le_refl _⟩
    have htick : m₁.tick.calls = m₁.calls + 1 := rfl
    rcases hrest with ⟨_, _, rfl, _⟩ | ⟨_, _, rfl, _⟩ | ⟨hfill, _, rfl, _⟩
    · exact ⟨by omega, by omega, fun heq => absurd heq hne, fun _ _ => by omega⟩
    · exact ⟨by omega, by omega, fun heq => absurd heq hne, fun _ _ => by omega⟩
    · exact ⟨hfirst.1, by omega, fun heq => absurd heq hne, fun _ h => absurd (hfill.symm.trans h) Bool.false_ne_true⟩

/-- A read or a write of a sector. -/
def Access.IsTransfer (a : Access k) : Prop := (∃ s, a = .read s) ∨ ∃ s offset chunk, a = .write s offset chunk

private theorem access_calls (c : Cache k) {a : Access k} (ha : a.IsTransfer) :
    c.medium.calls + a.misses c .read ≤ (a.exec f c).medium.calls ∧
      (a.exec f c).medium.calls ≤ c.medium.calls + 2 * (a.misses c .read + a.misses c .write) := by
  rcases ha with ⟨s, rfl⟩ | ⟨s, offset, chunk, rfl⟩
  · rcases hret : retarget f (c.buffers.get s) c.medium s true with ⟨r, buf, m⟩
    obtain ⟨-, hmost, hhit, hmiss⟩ := retarget_calls hret
    have hwrite : (Access.read s).misses c .write = 0 := rfl
    rw [Access.exec, hret, hwrite, Nat.add_zero, Access.misses]
    dsimp only
    obtain heq | hne := eq_or_ne (c.buffers.get s).sector s
    · rw [if_neg (fun h => h.2 heq), hhit heq]
      exact ⟨le_refl _, le_refl _⟩
    · rw [if_pos ⟨rfl, hne⟩]
      exact ⟨hmiss hne rfl, hmost⟩
  · rcases hret : retarget f (c.buffers.get s) c.medium s (offset != 0 || chunk.length != 2 ^ k) with ⟨r, buf, m⟩
    obtain ⟨hgrow, hmost, hhit, -⟩ := retarget_calls hret
    have hcalls : ((Access.write s offset chunk).exec f c).medium.calls = m.calls := by
      rw [Access.exec, hret]
      cases r with
      | false => rfl
      | true => rfl
    have hread : (Access.write s offset chunk).misses c .read = 0 := rfl
    rw [hcalls, hread, Nat.zero_add, Access.misses]
    refine ⟨hgrow, ?_⟩
    obtain heq | hne := eq_or_ne (c.buffers.get s).sector s
    · rw [if_neg (fun h => h.2 heq), hhit heq]
      exact le_refl _
    · rw [if_pos ⟨rfl, hne⟩]
      exact hmost

private theorem accesses_calls (c : Cache k) {as : List (Access k)} (has : ∀ a ∈ as, a.IsTransfer) :
    c.medium.calls + missesOf f .read c as ≤ (as.foldl (Access.exec f) c).medium.calls ∧
      (as.foldl (Access.exec f) c).medium.calls ≤
        c.medium.calls + 2 * (missesOf f .read c as + missesOf f .write c as) := by
  induction as generalizing c with
  | nil => exact ⟨le_refl _, le_refl _⟩
  | cons a as ih =>
    obtain ⟨hleast, hmost⟩ := access_calls (f := f) c (has a List.mem_cons_self)
    obtain ⟨hleast', hmost'⟩ := ih (a.exec f c) fun a ha => has a (List.mem_cons_of_mem _ ha)
    rw [List.foldl_cons, missesOf, missesOf]
    exact ⟨by omega, by omega⟩

/-- An operation that reads or writes bytes. -/
def Op.IsTransfer (op : Op k) : Prop :=
  (∃ address size, op = .read address size) ∨ ∃ address src, op = .write address src

/-- What a read or a write does with the buffers is done by its accesses. -/
theorem Op.IsTransfer.accesses {bl : BufferList k} (hb : d.buffers = some bl) {op : Op k} (hop : op.IsTransfer) :
    (op.accesses d bl).1 = d.medium ∧ (∀ a ∈ (op.accesses d bl).2, a.IsTransfer) ∧ (op.exec d).2.faults = d.faults ∧
      ∃ bl' held', (op.exec d).2.buffers = some bl' ∧
        (op.accesses d bl).2.foldl (Access.exec d.faults) ⟨bl, d.medium, fun _ => none⟩ =
          ⟨bl', (op.exec d).2.medium, held'⟩ := by
  rcases hop with ⟨address, size, rfl⟩ | ⟨address, src, rfl⟩
  · let offset : Fin (2 ^ k) := ⟨address % 2 ^ k, Op.offset_lt address⟩
    obtain ⟨held', hfold⟩ := exec_readAccesses (f := d.faults) bl d.medium (address / 2 ^ k) offset size fun _ => none
    refine ⟨rfl, fun a ha => .inl (readAccesses_sector ha).1, ?_⟩
    rw [Op.exec, BlockDevice.read, hb]
    exact ⟨rfl, _, held', rfl, hfold⟩
  · let offset : Fin (2 ^ k) := ⟨address % 2 ^ k, Op.offset_lt address⟩
    obtain ⟨held', hfold⟩ := exec_writeAccesses (f := d.faults) bl d.medium (address / 2 ^ k) offset src fun _ => none
    refine ⟨rfl, fun a ha => .inr (writeAccesses_sector ha).1, ?_⟩
    rw [Op.exec, BlockDevice.write, hb]
    exact ⟨rfl, _, held', rfl, hfold⟩

private theorem op_calls {bl : BufferList k} (hb : d.buffers = some bl) {op : Op k} (hop : op.IsTransfer) :
    d.medium.calls + op.misses d .read ≤ (op.exec d).2.medium.calls ∧
      (op.exec d).2.medium.calls ≤ d.medium.calls + 2 * (op.misses d .read + op.misses d .write) := by
  obtain ⟨hmedium, hkind, -, bl', held', _, hfold⟩ := hop.accesses hb
  have hall := accesses_calls (f := d.faults) ⟨bl, d.medium, fun _ => none⟩ hkind
  rw [hfold] at hall
  rw [Op.misses, Op.misses, hb]
  dsimp only
  rw [hmedium]
  exact hall

/-- In a run of reads and writes through buffers, whatever fails, there are at least as many raw operations
as reads miss their buffers, and at most twice as many as reads and writes do. The statistics count these
misses, in 32 bits. -/
theorem misses_account_calls (sectorCount : Nat) (hcount : sectorCount ≤ 2 ^ 32) (d : BlockDevice k)
    (bl : BufferList k) (hb : d.buffers = some bl) (ops : List (Op k)) (hops : ∀ op ∈ ops, op.IsTransfer)
    (hin : ∀ op ∈ ops, op.InRange sectorCount) :
    (∀ fn, ((statAfter d .zero ops).func fn).count 1 = missesAfter fn d ops % 2 ^ 32) ∧
      d.medium.calls + missesAfter .read d ops ≤ (Runs.last d (trace d ops)).medium.calls ∧
      (Runs.last d (trace d ops)).medium.calls ≤
        d.medium.calls + 2 * (missesAfter .read d ops + missesAfter .write d ops) := by
  refine ⟨fun fn => statAfter_misses fn hcount d hin, ?_⟩
  clear hin
  induction ops generalizing d bl with
  | nil => exact ⟨le_refl _, le_refl _⟩
  | cons op ops ih =>
    have hop := hops op List.mem_cons_self
    obtain ⟨hleast, hmost⟩ := op_calls hb hop
    obtain ⟨-, -, -, bl', -, hb', -⟩ := hop.accesses hb
    obtain ⟨hleast', hmost'⟩ := ih (op.exec d).2 bl' hb' fun op hop => hops op (List.mem_cons_of_mem _ hop)
    have hlast : Runs.last d (trace d (op :: ops)) = Runs.last (op.exec d).2 (trace (op.exec d).2 ops) := rfl
    rw [hlast, missesAfter, missesAfter]
    exact ⟨by omega, by omega⟩

/-- A run through two buffers in which two sectors of one slot displace each other. -/
theorem misses_account_calls_two :
    let d : BlockDevice 9 := { BlockDevice.fresh 8 ⟨fun n => n == 2, fun _ => Sector.zero⟩ fun _ => Sector.zero with
      buffers := some (.new 2 fun _ => Sector.zero) }
    let ops : List (Op 9) := [.write 1000 [1, 2], .read 2560 10, .read 512 1]
    (∀ fn, ((statAfter d .zero ops).func fn).count 1 = missesAfter fn d ops % 2 ^ 32) ∧
      0 + missesAfter .read d ops ≤ (Runs.last d (trace d ops)).medium.calls ∧
      (Runs.last d (trace d ops)).medium.calls ≤ 0 + 2 * (missesAfter .read d ops + missesAfter .write d ops) := by
  intro d ops
  refine misses_account_calls 8 (by decide) d _ rfl ops (fun op hop => ?_) fun op hop => ?_
  · simp only [ops, List.mem_cons, List.not_mem_nil, or_false] at hop
    rcases hop with rfl | rfl | rfl
    · exact .inr ⟨_, _, rfl⟩
    · exact .inl ⟨_, _, rfl⟩
    · exact .inl ⟨_, _, rfl⟩
  · simp only [ops, List.mem_cons, List.not_mem_nil, or_false] at hop
    rcases hop with rfl | rfl | rfl
    · exact (by decide : 1000 + 2 ≤ 8 * 2 ^ 9)
    · exact (by decide : 2560 + 10 ≤ 8 * 2 ^ 9)
    · exact (by decide : 512 + 1 ≤ 8 * 2 ^ 9)

end Misses

section Window
variable {d : BlockDevice k} {first width calls : Nat}

/-- Of a window of sectors each has been missed once at most, and those missed are in the buffers. -/
structure Resident (first width calls : Nat) (c : Cache k) (stat : Stat) : Prop where
  fits : width ≤ c.buffers.size
  once : ∀ s, (stat.sectors s).count 1 ≤ 1
  resident : ∀ s, first ≤ s → s < first + width → (stat.sectors s).count 1 = 1 → (c.buffers.get s).sector = s
  calls_le : c.medium.calls ≤ calls + 2 * ∑ j ∈ Finset.range width, (stat.sectors (first + j)).count 1

private theorem misses_update (stat : Stat) (fn : Stat.Function) {s : Nat} (hs : s < 2 ^ 32) (cache t : Nat) :
    ((stat.update fn s cache).sectors t).count 1 =
      if t = s ∧ s ≠ cache then ((stat.sectors t).count 1 + 1) % 2 ^ 32 else (stat.sectors t).count 1 := by
  have hword : s % 2 ^ 32 = s := Nat.mod_eq_of_lt hs
  rw [Stat.sectors_update stat fn hs, Stat.outcome, hword]
  obtain rfl | hne := eq_or_ne t s
  · by_cases hhit : t = cache
    · simp [hhit, Stat.count_increment]
    · simp [hhit, Stat.count_increment]
  · simp [hne]

private theorem Resident.turn {c : Cache k} {stat : Stat} (h : Resident first width calls c stat) {f : Faults k}
    {s : Nat} (hlow : first ≤ s) (hhigh : s < first + width) (hword : first + width ≤ 2 ^ 32 - 1) {fill : Bool}
    {buf : Buffer k} {m : Medium k} (hret : retarget f (c.buffers.get s) c.medium s fill = (true, buf, m))
    (buf' : Buffer k) (hbuf : buf'.sector = buf.sector) (fn : Stat.Function) (held : Nat → Option Nat) :
    Resident first width calls ⟨c.buffers.put (c.buffers.slot s) buf', m, held⟩
      (stat.update fn s (c.buffers.get s).sector) := by
  have hs : s < 2 ^ 32 := by omega
  have hmisses := misses_update stat fn hs (c.buffers.get s).sector
  -- the buffer is at its sector now, and those of other sectors of the window are where they were
  have htag : buf'.sector = s := by
    rw [hbuf]
    rcases retarget_cases hret with ⟨heq, _, rfl, _⟩ | ⟨_, hr, _⟩ | ⟨_, _, _, _, hrest⟩
    · exact heq
    · cases hr
    · rcases hrest with ⟨_, hr, _⟩ | ⟨_, _, _, rfl⟩ | ⟨_, _, _, rfl⟩
      · cases hr
      · exact Nat.mod_eq_of_lt hs
      · exact Nat.mod_eq_of_lt hs
  have hother : ∀ t, first ≤ t → t < first + width → t ≠ s →
      ((c.buffers.put (c.buffers.slot s) buf').get t).sector = (c.buffers.get t).sector := by
    intro t htlow hthigh hne
    rw [BufferList.get_put, if_neg]
    intro hslot
    have hmod : t % 2 ^ c.buffers.bits = s % 2 ^ c.buffers.bits := congrArg Fin.val hslot
    have hsize : width ≤ 2 ^ c.buffers.bits := h.fits
    have hleft := Nat.sub_mod_eq_zero_of_mod_eq hmod
    have hright := Nat.sub_mod_eq_zero_of_mod_eq hmod.symm
    rw [Nat.mod_eq_of_lt (by omega)] at hleft hright
    omega
  have hself : ((c.buffers.put (c.buffers.slot s) buf').get s).sector = s := by
    rw [BufferList.get_put, if_pos rfl, htag]
  by_cases hhit : s = (c.buffers.get s).sector
  · have hkeep : ∀ t, ((stat.update fn s (c.buffers.get s).sector).sectors t).count 1 = (stat.sectors t).count 1 :=
      fun t => (hmisses t).trans (if_neg fun hand => hand.2 hhit)
    have hm : m = c.medium := by
      rcases retarget_cases hret with ⟨_, _, _, hm⟩ | ⟨hne, _⟩ | ⟨hne, _⟩
      · exact hm
      · exact absurd hhit.symm hne
      · exact absurd hhit.symm hne
    refine ⟨h.fits, fun t => (hkeep t).trans_le (h.once t), fun t htlow hthigh ht => ?_, ?_⟩
    · obtain rfl | hne := eq_or_ne t s
      · exact hself
      · exact (hother t htlow hthigh hne).trans (h.resident t htlow hthigh ((hkeep t).symm.trans ht))
    · simp only [hkeep, hm]
      exact h.calls_le
  · have hzero : (stat.sectors s).count 1 = 0 := by
      have honce := h.once s
      have hres := h.resident s hlow hhigh
      omega
    have hnow : ((stat.update fn s (c.buffers.get s).sector).sectors s).count 1 = 1 := by
      rw [hmisses, if_pos ⟨rfl, hhit⟩, hzero]
      rfl
    have hkeep : ∀ t, t ≠ s →
        ((stat.update fn s (c.buffers.get s).sector).sectors t).count 1 = (stat.sectors t).count 1 :=
      fun t ht => (hmisses t).trans (if_neg fun hand => ht hand.1)
    refine ⟨h.fits, fun t => ?_, fun t htlow hthigh ht => ?_, ?_⟩
    · obtain rfl | hne := eq_or_ne t s
      · exact hnow.le
      · exact (hkeep t hne).trans_le (h.once t)
    · obtain rfl | hne := eq_or_ne t s
      · exact hself
      · exact (hother t htlow hthigh hne).trans (h.resident t htlow hthigh ((hkeep t hne).symm.trans ht))
    · have hmem : s - first ∈ Finset.range width := Finset.mem_range.mpr (by omega)
      have hplace : first + (s - first) = s := Nat.add_sub_cancel' hlow
      have hrest : ∑ j ∈ (Finset.range width).erase (s - first),
          ((stat.update fn s (c.buffers.get s).sector).sectors (first + j)).count 1 =
          ∑ j ∈ (Finset.range width).erase (s - first), (stat.sectors (first + j)).count 1 := by
        apply Finset.sum_congr rfl
        intro j hj
        have hne := Finset.ne_of_mem_erase hj
        exact hkeep _ (by omega)
      have hbefore := h.calls_le
      obtain ⟨-, hcalls, -, -⟩ := retarget_calls hret
      rw [← Finset.add_sum_erase _ _ hmem, hplace, hzero] at hbefore
      rw [← Finset.add_sum_erase _ _ hmem, hplace, hnow, hrest]
      dsimp only
      omega

private theorem Resident.access {c : Cache k} {stat : Stat} (h : Resident first width calls c stat)
    (hfaults : ∀ n, d.faults.fails n = false) (hword : first + width ≤ 2 ^ 32 - 1) {a : Access k}
    (ha : a.IsTransfer)
    (hs : ∀ s, a.sector = some s → first ≤ s ∧ s < first + width) :
    Resident first width calls (a.exec d.faults c) (a.count c stat) := by
  rcases ha with ⟨s, rfl⟩ | ⟨s, offset, chunk, rfl⟩
  · obtain ⟨hlow, hhigh⟩ := hs s rfl
    have hok := BlockDevice.retarget_faultless hfaults (c.buffers.get s) c.medium s true
    rcases hret : retarget d.faults (c.buffers.get s) c.medium s true with ⟨r, buf, m⟩
    rw [hret] at hok
    obtain rfl : r = true := hok
    rw [Access.exec, hret]
    exact h.turn hlow hhigh hword hret buf rfl .read _
  · obtain ⟨hlow, hhigh⟩ := hs s rfl
    have hok := BlockDevice.retarget_faultless hfaults (c.buffers.get s) c.medium s
      (offset != 0 || chunk.length != 2 ^ k)
    rcases hret : retarget d.faults (c.buffers.get s) c.medium s (offset != 0 || chunk.length != 2 ^ k)
      with ⟨r, buf, m⟩
    rw [hret] at hok
    obtain rfl : r = true := hok
    rw [Access.exec, hret]
    exact h.turn hlow hhigh hword hret { buf with data := buf.data.splice offset chunk, dirty := true } rfl .write _

private theorem Resident.accesses {c : Cache k} {stat : Stat} (h : Resident first width calls c stat)
    (hfaults : ∀ n, d.faults.fails n = false) (hword : first + width ≤ 2 ^ 32 - 1) {as : List (Access k)}
    (has : ∀ a ∈ as, a.IsTransfer ∧ ∀ s, a.sector = some s → first ≤ s ∧ s < first + width) :
    Resident first width calls (as.foldl (Access.exec d.faults) c) (countAccesses d.faults c stat as) := by
  induction as generalizing c stat with
  | nil => exact h
  | cons a as ih =>
    obtain ⟨hkind, hs⟩ := has a List.mem_cons_self
    exact ih (h.access hfaults hword hkind hs) fun a ha => has a (List.mem_cons_of_mem _ ha)

/-- An operation that reads or writes within some consecutive sectors. -/
def Op.WithinSectors (first width : Nat) (op : Op k) : Prop :=
  op.IsTransfer ∧ ∀ s, op.Addresses s → first ≤ s ∧ s < first + width

/-- The state between the operations of a run in the window. -/
structure InWindow (first width calls : Nat) (faults : Faults k) (d : BlockDevice k) (stat : Stat) : Prop where
  faults_eq : d.faults = faults
  resident : ∃ bl, d.buffers = some bl ∧ Resident first width calls ⟨bl, d.medium, fun _ => none⟩ stat

private theorem Resident.held {c : Cache k} {stat : Stat} (h : Resident first width calls c stat)
    (held : Nat → Option Nat) : Resident first width calls ⟨c.buffers, c.medium, held⟩ stat :=
  ⟨h.fits, h.once, h.resident, h.calls_le⟩

private theorem InWindow.step {stat : Stat} {faults : Faults k} (h : InWindow first width calls faults d stat)
    (hfaults : ∀ n, faults.fails n = false) (hword : first + width ≤ 2 ^ 32 - 1) {op : Op k}
    (hop : op.WithinSectors first width) : InWindow first width calls faults (op.exec d).2 (op.stat d stat) := by
  obtain ⟨rfl, bl, hb, hres⟩ := h
  obtain ⟨hkind, hsectors⟩ := hop
  have hwithin : ∀ a ∈ (op.accesses d bl).2, ∀ s, a.sector = some s → first ≤ s ∧ s < first + width :=
    fun a ha s hs => hsectors s (Op.accesses_sector ha hs)
  obtain ⟨hmedium, htransfer, hkeep, bl', held', hb', hfold⟩ := hkind.accesses hb
  have hall := hres.accesses hfaults hword fun a ha => ⟨htransfer a ha, hwithin a ha⟩
  rw [hfold] at hall
  rw [Op.stat, hb]
  refine ⟨hkeep, bl', hb', ?_⟩
  dsimp only
  rw [hmedium]
  exact hall.held _

variable (first width) in
/-- In a run of reads and writes within no more consecutive sectors than there are buffers, none of whose raw
operations fails, each sector is missed once at most, and the medium is accessed twice for each at most,
however long the run. -/
theorem window_missed_once (d : BlockDevice k) (bl : BufferList k) (hb : d.buffers = some bl)
    (hfaults : ∀ n, d.faults.fails n = false) (hword : first + width ≤ 2 ^ 32 - 1) (hfits : width ≤ bl.size)
    (ops : List (Op k)) (hops : ∀ op ∈ ops, op.WithinSectors first width) :
    (∀ s, ((statAfter d .zero ops).sectors s).count 1 ≤ 1) ∧
      (Runs.last d (trace d ops)).medium.calls ≤ d.medium.calls + 2 * width := by
  have hrun : ∀ (d' : BlockDevice k) (stat : Stat), InWindow first width d.medium.calls d.faults d' stat →
      InWindow first width d.medium.calls d.faults (Runs.last d' (trace d' ops)) (statAfter d' stat ops) := by
    induction ops with
    | nil => exact fun _ _ h => h
    | cons op ops ih =>
      intro d' stat h
      exact ih (fun op hop => hops op (List.mem_cons_of_mem _ hop)) _ _
        (h.step hfaults hword (hops op List.mem_cons_self))
  have hstart : InWindow first width d.medium.calls d.faults d .zero :=
    ⟨rfl, bl, hb, hfits, fun _ => Nat.zero_le _, fun _ _ _ hmiss => absurd hmiss Nat.zero_ne_one, Nat.le_add_right _ _⟩
  obtain ⟨-, bl', -, hres⟩ := hrun d .zero hstart
  refine ⟨hres.once, hres.calls_le.trans (Nat.add_le_add_left (Nat.mul_le_mul_left 2 ?_) _)⟩
  calc ∑ j ∈ Finset.range width, ((statAfter d .zero ops).sectors (first + j)).count 1
      ≤ ∑ j ∈ Finset.range width, 1 := Finset.sum_le_sum fun j _ => hres.once _
    _ = width := by simp

/-- Four buffers, and a run over the last two sectors of them. -/
theorem window_missed_once_four :
    let d : BlockDevice 9 := { BlockDevice.fresh 8 ⟨fun _ => false, fun _ => Sector.zero⟩ fun _ => Sector.zero with
      buffers := some (.new 4 fun _ => Sector.zero) }
    (Runs.last d (trace d [.write 1030 [1, 2], .read 1600 10, .read 1500 100])).medium.calls ≤ 0 + 2 * 2 := by
  intro d
  refine (window_missed_once 2 2 d _ rfl (fun _ => rfl) (by decide) (by decide) _
    fun op hop => ?_).2
  simp only [List.mem_cons, List.not_mem_nil, or_false] at hop
  rcases hop with rfl | rfl | rfl
  · exact ⟨.inr ⟨_, _, rfl⟩, fun s hs => by simp only [Op.Addresses, List.length_cons, List.length_nil] at hs; omega⟩
  · exact ⟨.inl ⟨_, _, rfl⟩, fun s hs => by simp only [Op.Addresses] at hs; omega⟩
  · exact ⟨.inl ⟨_, _, rfl⟩, fun s hs => by simp only [Op.Addresses] at hs; omega⟩

end Window

end DiskStorage
