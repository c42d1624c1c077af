import DiskStorage.BlockDevice.Model
import DiskStorage.Lib.WriteBack
import Mathlib.Tactic.Ring

/-! The sector buffers as a write-back cache over the medium. Each buffer operation is
described by what it does to the content seen through the buffers, and by the contents
it lets the medium pass through. -/
namespace DiskStorage
open WriteBack (Line)

namespace Sector
variable {k : Nat}

theorem byte_val (s : Sector k) (i : Fin (2 ^ k)) : s.byte i.val = s i := by
  simp [byte, Nat.mod_eq_of_lt i.isLt]

private theorem byte_splice (s : Sector k) (offset : Nat) (src : List UInt8) {i : Nat} (h : i < 2 ^ k) :
    (s.splice offset src).byte i = ByteStore.patch s.byte offset src i := by
  simp [byte, splice, Nat.mod_eq_of_lt h]

theorem exists_address (k a : Nat) : ∃ s i, a = s * 2 ^ k + i ∧ i < 2 ^ k :=
  ⟨a / 2 ^ k, a % 2 ^ k, by rw [Nat.mul_comm, Nat.div_add_mod], Nat.mod_lt a (Nat.two_pow_pos k)⟩

private theorem address_split {k s i : Nat} (h : i < 2 ^ k) :
    (s * 2 ^ k + i) / 2 ^ k = s ∧ (s * 2 ^ k + i) % 2 ^ k = i := by
  have hp := Nat.two_pow_pos k
  constructor
  · rw [Nat.add_comm, Nat.add_mul_div_right _ _ hp, Nat.div_eq_of_lt h, Nat.zero_add]
  · rw [Nat.add_comm, Nat.add_mul_mod_self_right, Nat.mod_eq_of_lt h]

theorem flat_apply (m : Nat → Sector k) (s : Nat) {i : Nat} (h : i < 2 ^ k) :
    flat m (s * 2 ^ k + i) = (m s).byte i := by
  obtain ⟨hd, hm⟩ := address_split (s := s) h
  simp [flat, hd, byte, hm, Nat.mod_eq_of_lt h]

/-- Two sector contents agree when their flat bytes do. -/
theorem flat_ext {m m' : Nat → Sector k} {s : Nat}
    (h : ∀ i < 2 ^ k, flat m (s * 2 ^ k + i) = flat m' (s * 2 ^ k + i)) : m s = m' s := by
  funext i
  have hi := h i.val i.isLt
  rwa [flat_apply _ _ i.isLt, flat_apply _ _ i.isLt, byte_val, byte_val] at hi

/-- Bytes copied into one sector are the same bytes copied into the flat content. -/
theorem flat_update_splice (m : Nat → Sector k) (s offset : Nat) (src : List UInt8)
    (h : offset + src.length ≤ 2 ^ k) :
    flat (Function.update m s ((m s).splice offset src)) =
      ByteStore.patch (flat m) (s * 2 ^ k + offset) src := by
  funext a
  obtain ⟨q, r, rfl, hr⟩ := exists_address k a
  rw [flat_apply _ _ hr]
  obtain rfl | hq := eq_or_ne q s
  · rw [Function.update_self, byte_splice _ _ _ hr]
    rcases Nat.lt_or_ge r offset with hlt | hge
    · rw [ByteStore.patch_below _ _ hlt, ByteStore.patch_below _ _ (by omega), flat_apply _ _ hr]
    · obtain ⟨j, rfl⟩ := Nat.exists_eq_add_of_le hge
      rcases Nat.lt_or_ge j src.length with hj | hj
      · rw [← Nat.add_assoc, ByteStore.patch_inside _ _ _ hj, ByteStore.patch_inside _ _ _ hj]
      · rw [ByteStore.patch_above _ _ (by omega), ByteStore.patch_above _ _ (by omega), flat_apply _ _ hr]
  · rw [Function.update_of_ne hq, ByteStore.patch_outside, flat_apply _ _ hr]
    rcases Nat.lt_or_gt_of_ne hq with hlt | hgt
    · have := Nat.mul_le_mul_right (2 ^ k) (Nat.succ_le_of_lt hlt)
      rw [Nat.succ_mul] at this
      omega
    · have := Nat.mul_le_mul_right (2 ^ k) (Nat.succ_le_of_lt hgt)
      rw [Nat.succ_mul] at this
      omega

theorem slice_byte (m : Nat → Sector k) (s offset n : Nat) (h : offset + n ≤ 2 ^ k) :
    ByteStore.slice (m s).byte offset n = ByteStore.slice (flat m) (s * 2 ^ k + offset) n := by
  apply List.ext_getElem (by simp)
  intro i hi _
  rw [ByteStore.slice_length] at hi
  simp only [ByteStore.getElem_slice, Nat.add_assoc]
  rw [flat_apply _ _ (by omega)]

theorem splice_full (s t : Sector k) (src : List UInt8) (h : src.length = 2 ^ k) :
    s.splice 0 src = t.splice 0 src := by
  funext i
  have hi : i.val < src.length := by rw [h]; exact i.isLt
  have hp := fun u : Sector k => ByteStore.patch_inside u.byte 0 src hi
  simp only [Nat.zero_add] at hp
  rw [splice, splice, hp, hp]

end Sector

namespace Medium
variable {k : Nat} {m m' m'' : Medium k} {P Q : (Nat → Sector k) → Prop}

/-- Every content the medium has taken on between two moments satisfies a predicate. -/
def Evolves (P : (Nat → Sector k) → Prop) (m m' : Medium k) : Prop :=
  ∃ new, m'.contents = new ++ m.contents ∧ ∀ c ∈ new, P c

theorem Evolves.refl : Evolves P m m := ⟨[], rfl, by simp⟩

theorem evolves_tick : Evolves P m m.tick := ⟨[], rfl, by simp⟩

theorem evolves_become {c : Nat → Sector k} (h : P c) : Evolves P m (m.become c) :=
  ⟨[c], rfl, by simpa using h⟩

theorem Evolves.trans (h : Evolves P m m') (h' : Evolves P m' m'') : Evolves P m m'' := by
  obtain ⟨new, he, hP⟩ := h
  obtain ⟨new', he', hP'⟩ := h'
  refine ⟨new' ++ new, by rw [he', he, List.append_assoc], ?_⟩
  intro c hc
  exact (List.mem_append.mp hc).elim (hP' c) (hP c)

theorem Evolves.mono (h : Evolves P m m') (hPQ : ∀ c, P c → Q c) : Evolves Q m m' := by
  obtain ⟨new, he, hP⟩ := h
  exact ⟨new, he, fun c hc => hPQ c (hP c hc)⟩

theorem Evolves.current (h : Evolves P m m') (h0 : P m.sectors) : P m'.sectors := by
  obtain ⟨new, he, hP⟩ := h
  cases new with
  | nil =>
    have : m'.sectors = m.sectors := (List.cons.inj he).1
    rwa [this]
  | cons c new =>
    have : m'.sectors = c := (List.cons.inj he).1
    exact this ▸ hP c (List.mem_cons_self ..)

end Medium

/-- Every sector holds what it held in one of the given contents. -/
def Among {k : Nat} (cs : List (Nat → Sector k)) (c : Nat → Sector k) : Prop :=
  ∀ s, ∃ c' ∈ cs, c s = c' s

namespace Buffer
variable {k : Nat}

/-- The sector a buffer holds, if any. -/
def tag (buf : Buffer k) : Option Nat := if buf.sector = invalid then none else some buf.sector

def line (buf : Buffer k) : Line Nat (Sector k) := ⟨buf.tag, buf.dirty, buf.data⟩

theorem tag_of_valid {buf : Buffer k} (h : buf.sector < invalid) : buf.tag = some buf.sector :=
  if_neg (Nat.ne_of_lt h)

theorem tag_eq_some {buf : Buffer k} {s : Nat} : buf.tag = some s ↔ buf.sector = s ∧ buf.sector ≠ invalid := by
  unfold tag
  split <;> simp_all

@[simp] theorem setSector_sector (buf : Buffer k) (s : Nat) : (buf.setSector s).sector = s % 2 ^ 32 := rfl

@[simp] theorem setSector_dirty (buf : Buffer k) (s : Nat) : (buf.setSector s).dirty = buf.dirty := rfl

@[simp] theorem setSector_data (buf : Buffer k) (s : Nat) : (buf.setSector s).data = buf.data := rfl

theorem setSector_tag (buf : Buffer k) {s : Nat} (h : s < invalid) : (buf.setSector s).tag = some s := by
  have hs : s % 2 ^ 32 = s := Nat.mod_eq_of_lt (by unfold invalid at h; omega)
  rw [tag, setSector_sector, hs, if_neg (Nat.ne_of_lt h)]

end Buffer

namespace BufferList
variable {k : Nat} (bl : BufferList k)

def lines : Fin (2 ^ bl.bits) → Line Nat (Sector k) := fun i => (bl.list i).line

theorem lines_put (i : Fin (2 ^ bl.bits)) (buf : Buffer k) :
    (bl.put i buf).lines = Function.update bl.lines i buf.line := by
  funext (j : Fin (2 ^ bl.bits))
  obtain rfl | hj := eq_or_ne i j
  · simp [lines, put]
  · simp [lines, put, hj.symm]

/-- The content seen through the buffers. -/
def view (sectors : Nat → Sector k) : Nat → Sector k := WriteBack.view bl.slot sectors bl.lines

def Coherent (sectors : Nat → Sector k) : Prop := WriteBack.Coherent bl.slot sectors bl.lines

theorem coherent_put {sectors : Nat → Sector k} {i : Fin (2 ^ bl.bits)} {buf : Buffer k} :
    (bl.put i buf).Coherent sectors ↔
      WriteBack.Coherent bl.slot sectors (Function.update bl.lines i buf.line) := by
  rw [← lines_put]
  rfl

theorem view_put (sectors : Nat → Sector k) (i : Fin (2 ^ bl.bits)) (buf : Buffer k) :
    (bl.put i buf).view sectors =
      WriteBack.view bl.slot sectors (Function.update bl.lines i buf.line) := by
  rw [← lines_put]
  rfl

theorem put_get (s : Nat) : bl.put (bl.slot s) (bl.get s) = bl := by
  simp [put, get]

theorem list_put (i j : Fin (2 ^ bl.bits)) (buf : Buffer k) :
    (bl.put i buf).list j = if j = i then buf else bl.list j := by
  simp [put, Function.update_apply]

theorem coherent_new (count : Nat) (memory sectors : Nat → Sector k) :
    (new count memory).Coherent sectors ∧ (new count memory).view sectors = sectors := by
  have ht : ∀ i, ((new count memory).lines i).tag = none := fun i => by simp [lines, new, Buffer.line, Buffer.tag]
  have hc : (new count memory).Coherent sectors :=
    ⟨fun i s h => (by simp [ht] at h), fun i s h => (by simp [ht] at h), fun i _ => rfl⟩
  exact ⟨hc, WriteBack.Coherent.view_of_clean hc fun _ => rfl⟩

end BufferList

section
variable {k : Nat} {f : Faults k} {m m' : Medium k} {buf buf' : Buffer k} {r : Bool}

theorem rawSectorRead_cases {address : Nat} {dst : Option (Nat → Sector k)}
    (h : rawSectorRead f m address = (dst, m')) :
    m' = m.tick ∧ (dst = none ∨ dst = some fun i => m.sectors (address + i)) := by
  unfold rawSectorRead at h
  split at h <;> cases h
  · exact ⟨rfl, .inl rfl⟩
  · exact ⟨rfl, .inr rfl⟩

theorem rawSectorWrite_cases {address size : Nat} {src : Nat → Sector k}
    (h : rawSectorWrite f m address src size = (r, m')) :
    (r = false ∧ m' = m.tick) ∨ (r = true ∧ m' = m.become fun s =>
      if address ≤ s ∧ s < address + size then src (s - address) else m.sectors s) := by
  unfold rawSectorWrite at h
  split at h <;> cases h
  · exact .inl ⟨rfl, rfl⟩
  · exact .inr ⟨rfl, rfl⟩

theorem rawSectorEraseRange_cases {address size : Nat} (h : rawSectorEraseRange f m address size = (r, m')) :
    (r = false ∧ m' = m.tick) ∨ (r = true ∧ m' = m.become fun s =>
      if address ≤ s ∧ s < address + size then Sector.zero else m.sectors s) := by
  unfold rawSectorEraseRange at h
  split at h <;> cases h
  · exact .inl ⟨rfl, rfl⟩
  · exact .inr ⟨rfl, rfl⟩

theorem rawSectorWrite_one (f : Faults k) (m : Medium k) (s : Nat) (data : Sector k) :
    rawSectorWrite f m s (fun _ => data) 1 =
      if f.fails m.calls then (false, m.tick) else (true, m.become (Function.update m.sectors s data)) := by
  unfold rawSectorWrite
  congr 3
  funext t
  obtain rfl | ht := eq_or_ne t s
  · simp
  · rw [Function.update_of_ne ht]
    exact if_neg (by omega)

/-- A buffer is clean, or stays as it is when the write fails, or becomes clean with its
sector on the medium. -/
theorem flushBuffer_cases (h : flushBuffer f buf m = (r, buf', m')) :
    (buf.dirty = false ∧ r = true ∧ buf' = buf ∧ m' = m) ∨
    (buf.dirty = true ∧ r = false ∧ buf' = buf ∧ m' = m.tick) ∨
    (buf.dirty = true ∧ r = true ∧ buf' = { buf with dirty := false } ∧
      m' = m.become (Function.update m.sectors buf.sector buf.data)) := by
  rw [flushBuffer, rawSectorWrite_one] at h
  cases hd : buf.dirty with
  | false =>
    rw [hd] at h
    cases h
    exact .inl ⟨rfl, rfl, rfl, rfl⟩
  | true =>
    rw [hd, if_pos rfl] at h
    split at h
    · rename_i he
      split at he <;> cases he
      cases h
      exact .inr (.inr ⟨rfl, rfl, rfl, rfl⟩)
    · rename_i he
      split at he <;> cases he
      cases h
      exact .inr (.inl ⟨rfl, rfl, rfl, rfl⟩)

/-- Either the buffer already holds the sector, or it is flushed first; then the sector is
read into it unless it is about to be overwritten. -/
theorem retarget_cases {s : Nat} {fill : Bool} (h : retarget f buf m s fill = (r, buf', m')) :
    (buf.sector = s ∧ r = true ∧ buf' = buf ∧ m' = m) ∨
    (buf.sector ≠ s ∧ r = false ∧ flushBuffer f buf m = (false, buf', m')) ∨
    (buf.sector ≠ s ∧ ∃ buf₁ m₁, flushBuffer f buf m = (true, buf₁, m₁) ∧
      ((fill = true ∧ r = false ∧ m' = m₁.tick ∧ buf'.sector = Buffer.invalid ∧ buf'.dirty = false) ∨
       (fill = true ∧ r = true ∧ m' = m₁.tick ∧
          buf' = ({ buf₁.invalidate with data := m₁.sectors s } : Buffer k).setSector s) ∨
       (fill = false ∧ r = true ∧ m' = m₁ ∧ buf' = buf₁.setSector s))) := by
  unfold retarget at h
  split at h
  · cases h
    exact .inl ⟨‹_›, rfl, rfl, rfl⟩
  · have hs : buf.sector ≠ s := ‹_›
    split at h
    · cases h
      exact .inr (.inl ⟨hs, rfl, ‹_›⟩)
    · rename_i buf₁ m₁ hfl
      refine .inr (.inr ⟨hs, buf₁, m₁, hfl, ?_⟩)
      cases fill with
      | false =>
        cases h
        exact .inr (.inr ⟨rfl, rfl, rfl, rfl⟩)
      | true =>
        rw [if_pos rfl] at h
        split at h
        · rename_i m₂ he
          obtain ⟨rfl, _⟩ := rawSectorRead_cases he
          cases h
          exact .inl ⟨rfl, rfl, rfl, rfl, rfl⟩
        · rename_i dst m₂ he
          obtain ⟨rfl, he | he⟩ := rawSectorRead_cases he
          · cases he
          · cases he
            cases h
            exact .inr (.inl ⟨rfl, rfl, rfl, rfl⟩)

end

namespace BufferList
variable {k : Nat} {f : Faults k} {m m' : Medium k} {bl : BufferList k} {buf : Buffer k} {r : Bool}
variable {i : Fin (2 ^ bl.bits)} {s : Nat}

/-- Flushing a buffer changes nothing to see, and the medium's sectors only to what is seen. -/
theorem flush_spec (hc : bl.Coherent m.sectors) (h : flushBuffer f (bl.list i) m = (r, buf, m')) :
    (bl.put i buf).Coherent m'.sectors ∧ (bl.put i buf).view m'.sectors = bl.view m.sectors ∧
      (r = true → buf.dirty = false) ∧ buf.sector = (bl.list i).sector ∧ buf.data = (bl.list i).data ∧
      m.Evolves (Among [m.sectors, bl.view m.sectors]) m' := by
  rcases flushBuffer_cases h with ⟨hd, rfl, rfl, rfl⟩ | ⟨hd, rfl, rfl, rfl⟩ | ⟨hd, rfl, rfl, rfl⟩
  · have hp : bl.put i (bl.list i) = bl := by simp [put]
    exact ⟨by rwa [hp], by rw [hp], fun _ => hd, rfl, rfl, .refl⟩
  · have hp : bl.put i (bl.list i) = bl := by simp [put]
    exact ⟨by rwa [hp], by rw [hp]; rfl, fun hr => absurd hr (by decide), rfl, rfl, Medium.evolves_tick⟩
  · -- a dirty buffer has a tag, so its sector is the one the medium gets
    have ht : (bl.lines i).tag = some (bl.list i).sector := by
      have hn : (bl.list i).tag ≠ none := by
        intro hn
        have := hc.idle i hn
        rw [show (bl.lines i).dirty = true from hd] at this
        cases this
      obtain ⟨t, ht⟩ := Option.ne_none_iff_exists'.mp hn
      have := (Buffer.tag_eq_some.mp ht).1
      rw [this]
      exact ht
    obtain ⟨hco, hv⟩ := WriteBack.Coherent.flush hc ht
    refine ⟨(coherent_put bl).mpr hco, (view_put bl _ i _).trans hv, fun _ => rfl, rfl, rfl,
      Medium.evolves_become ?_⟩
    intro t
    obtain rfl | hts := eq_or_ne t (bl.list i).sector
    · refine ⟨bl.view m.sectors, by simp, ?_⟩
      rw [Function.update_self]
      exact (WriteBack.Coherent.view_of_tag hc ht).symm
    · exact ⟨m.sectors, by simp, by rw [Function.update_of_ne hts]⟩

/-- When a buffer could not be turned to a sector, nothing has changed to see. -/
theorem retarget_failed (hc : bl.Coherent m.sectors) {fill : Bool}
    (h : retarget f (bl.get s) m s fill = (false, buf, m')) :
    (bl.put (bl.slot s) buf).Coherent m'.sectors ∧
      (bl.put (bl.slot s) buf).view m'.sectors = bl.view m.sectors ∧
      m.Evolves (Among [m.sectors, bl.view m.sectors]) m' := by
  rcases retarget_cases h with ⟨_, hr, _⟩ | ⟨_, _, hfl⟩ | ⟨_, buf₁, m₁, hfl, hrest⟩
  · cases hr
  · obtain ⟨hco, hv, _, _, _, hev⟩ := flush_spec hc hfl
    exact ⟨hco, hv, hev⟩
  · obtain ⟨hco, hv, hcl, _, _, hev⟩ := flush_spec hc hfl
    rw [coherent_put] at hco
    rw [view_put] at hv
    rcases hrest with ⟨_, _, rfl, hinv, hdirty⟩ | ⟨_, hr, _⟩ | ⟨_, hr, _⟩
    · have htag : buf.line.tag = none := by simp [Buffer.line, Buffer.tag, hinv]
      obtain ⟨hco', hv'⟩ := WriteBack.Coherent.replace (l := buf.line) hco
        (by rw [Function.update_self]; exact hcl rfl) hdirty (by simp [htag])
      rw [Function.update_idem] at hco' hv'
      exact ⟨(coherent_put bl).mpr hco', (view_put bl _ _ _).trans (hv'.trans hv), hev.trans Medium.evolves_tick⟩
    · cases hr
    · cases hr

/-- A buffer turned to a sector is ready to take any content for it. When the sector was
read in, nothing has changed to see and the buffer holds what is seen. -/
theorem retarget_ready (hc : bl.Coherent m.sectors) (hs : s < Buffer.invalid) {fill : Bool}
    (h : retarget f (bl.get s) m s fill = (true, buf, m')) :
    (∀ v, (bl.put (bl.slot s) ⟨buf.sector, true, v⟩).Coherent m'.sectors ∧
      (bl.put (bl.slot s) ⟨buf.sector, true, v⟩).view m'.sectors = Function.update (bl.view m.sectors) s v) ∧
    (fill = true → (bl.put (bl.slot s) buf).Coherent m'.sectors ∧
      (bl.put (bl.slot s) buf).view m'.sectors = bl.view m.sectors ∧ buf.data = bl.view m.sectors s) ∧
    m.Evolves (Among [m.sectors, bl.view m.sectors]) m' := by
  have store : ∀ (b : Buffer k), b.sector = s → ∀ v, (⟨b.sector, true, v⟩ : Buffer k).line = ⟨some s, true, v⟩ := by
    intro b hb v
    simp [Buffer.line, Buffer.tag, hb, Nat.ne_of_lt hs]
  rcases retarget_cases h with ⟨hhit, _, rfl, rfl⟩ | ⟨_, hr, _⟩ | ⟨_, buf₁, m₁, hfl, hrest⟩
  · have ht : (bl.lines (bl.slot s)).tag = some s :=
      Buffer.tag_eq_some.mpr ⟨hhit, by rw [show (bl.list (bl.slot s)).sector = s from hhit]; exact Nat.ne_of_lt hs⟩
    refine ⟨fun v => ?_, fun _ => ?_, .refl⟩
    · rw [coherent_put, view_put, store _ hhit]
      exact WriteBack.Coherent.store hc rfl (.inl ht)
    · rw [put_get]
      exact ⟨hc, rfl, (WriteBack.Coherent.view_of_tag hc ht).symm⟩
  · cases hr
  · obtain ⟨hco, hv, hcl, _, _, hev⟩ := flush_spec hc hfl
    rw [coherent_put] at hco
    rw [view_put] at hv
    have hclean : (Function.update bl.lines (bl.slot s) buf₁.line (bl.slot s)).dirty = false := by
      rw [Function.update_self]
      exact hcl rfl
    have ready : ∀ (b : Buffer k), b.sector = s → ∀ v,
        (bl.put (bl.slot s) ⟨b.sector, true, v⟩).Coherent m₁.sectors ∧
          (bl.put (bl.slot s) ⟨b.sector, true, v⟩).view m₁.sectors = Function.update (bl.view m.sectors) s v := by
      intro b hb v
      obtain ⟨hco', hv'⟩ := WriteBack.Coherent.store (v := v) hco rfl (.inr hclean)
      rw [Function.update_idem] at hco' hv'
      rw [coherent_put, view_put, store b hb, ← hv]
      exact ⟨hco', hv'⟩
    have hmod : s % 2 ^ 32 = s := Nat.mod_eq_of_lt (by unfold Buffer.invalid at hs; omega)
    rcases hrest with ⟨_, hr, _⟩ | ⟨_, _, rfl, rfl⟩ | ⟨hfill, _, rfl, rfl⟩
    · cases hr
    · refine ⟨ready _ hmod, fun _ => ?_, hev.trans Medium.evolves_tick⟩
      -- the flushed buffer is clean, so what was seen of the sector is the medium's
      have hseen : bl.view m.sectors s = m₁.sectors s := by
        rw [← hv]
        exact hco.view_of_slot_clean hclean
      obtain ⟨hco', hv'⟩ := WriteBack.Coherent.replace (i := bl.slot s)
        (l := (({ buf₁.invalidate with data := m₁.sectors s } : Buffer k).setSector s).line) hco hclean rfl
        (fun t ht => by
          obtain rfl : s = t := Option.some.inj ((Buffer.setSector_tag _ hs).symm.trans ht)
          exact ⟨rfl, rfl⟩)
      rw [Function.update_idem] at hco' hv'
      exact ⟨(coherent_put bl).mpr hco', (view_put bl _ _ _).trans (hv'.trans hv), hseen.symm⟩
    · exact ⟨ready _ hmod, fun hf => (by rw [hfill] at hf; cases hf), hev⟩

end BufferList

end DiskStorage
