import DiskStorage.BlockDevice.Progress
import DiskStorage.BlockDevice.Windows

/-! Buffers are not to be seen: on devices of one content the same operations, as long as they succeed,
return the same and leave the same, however many buffers are allocated and whenever. -/
namespace DiskStorage
open ByteStore Runs
variable {k : Nat}

namespace Op

/-- A request to the device, as opposed to setting it up. -/
def isRequest : Op k → Bool
  | allocateBuffers _ _ => false
  | read _ _ | write _ _ | eraseRange _ _ | sync => true

theorem data_of_not_read {d d' : BlockDevice k} {op : Op k} {o : Outcome} (h : deviceStep d (op, o) d')
    (hop : ∀ address size, op ≠ .read address size) : o.data = [] := by
  replace h : op.exec d = (o, d') := h
  cases op with
  | read address size => exact absurd rfl (hop address size)
  | write address src =>
    rw [exec] at h
    cases h
    rfl
  | eraseRange address size =>
    rw [exec] at h
    cases h
    rfl
  | sync =>
    rw [exec] at h
    cases h
    rfl
  | allocateBuffers numBuffers memory =>
    rw [exec] at h
    cases h
    rfl

end Op

/-- The part of a run that its callers make. -/
def requestStep (e : Op k × Outcome) : Option (Op k × Outcome) := if e.1.isRequest then some e else none

namespace FlatStore

/-- A step of the store that succeeds, with what it returns. -/
def Success (f : Nat → UInt8) (e : Op k × Outcome) (g : Nat → UInt8) : Prop :=
  Step f e g ∧ e.2.ok = true ∧ ((∀ address size, e.1 ≠ .read address size) → e.2.data = [])

theorem Success.unique {f g g' : Nat → UInt8} {e e' : Op k × Outcome} (h : Success f e g) (h' : Success f e' g')
    (hop : e.1 = e'.1) : e = e' ∧ g = g' := by
  obtain ⟨op, ok, data⟩ := e
  obtain ⟨op', ok', data'⟩ := e'
  obtain rfl : op = op' := hop
  obtain ⟨hstep, hok, hdata⟩ := h
  obtain ⟨hstep', hok', hdata'⟩ := h'
  obtain rfl : ok = true := hok
  obtain rfl : ok' = true := hok'
  cases op with
  | read address size =>
    obtain ⟨hsame, hread⟩ := hstep
    obtain ⟨hsame', hread'⟩ := hstep'
    obtain rfl : data = slice f address size := hread rfl
    obtain rfl : data' = slice f address size := hread' rfl
    exact ⟨rfl, hsame.trans hsame'.symm⟩
  | write address src =>
    obtain rfl : data = [] := hdata (by simp)
    obtain rfl : data' = [] := hdata' (by simp)
    exact ⟨rfl, Eq.trans hstep (Eq.symm hstep')⟩
  | eraseRange address size =>
    obtain rfl : data = [] := hdata (by simp)
    obtain rfl : data' = [] := hdata' (by simp)
    obtain ⟨_, _, rfl⟩ := hstep
    obtain ⟨_, _, rfl⟩ := hstep'
    exact ⟨rfl, rfl⟩
  | sync =>
    obtain rfl : data = [] := hdata (by simp)
    obtain rfl : data' = [] := hdata' (by simp)
    exact ⟨rfl, Eq.trans hstep (Eq.symm hstep')⟩
  | allocateBuffers numBuffers memory =>
    obtain rfl : data = [] := hdata (by simp)
    obtain rfl : data' = [] := hdata' (by simp)
    exact ⟨rfl, Eq.trans hstep (Eq.symm hstep')⟩

end FlatStore

section Transparency
variable {sectorCount : Nat} {d₁ d₂ : BlockDevice k} {tr tr₁ tr₂ : List ((Op k × Outcome) × BlockDevice k)}

theorem share_requestStep_ops {view : BlockDevice k → Nat → UInt8} (tr : List ((Op k × Outcome) × BlockDevice k)) :
    (share requestStep view tr).map (fun e => e.1.1) = (tr.map fun e => e.1.1).filter Op.isRequest := by
  induction tr with
  | nil => rfl
  | cons e tr ih =>
    obtain ⟨⟨op, o⟩, d⟩ := e
    cases hio : op.isRequest with
    | true =>
      have hown : requestStep (op, o) = some (op, o) := if_pos hio
      rw [share_cons_own hown, List.map_cons, ih, List.map_cons, List.filter_cons_of_pos hio]
    | false =>
      have hnot : ¬ op.isRequest = true := by simp [hio]
      have hother : requestStep (op, o) = none := if_neg hnot
      rw [share_cons_other hother, ih, List.map_cons, List.filter_cons_of_neg hnot]

theorem run_success (hcount : sectorCount ≤ 2 ^ 32 - 1) (hs : Sound sectorCount d₁) (run : Run deviceStep d₁ tr)
    (hin : ∀ e ∈ tr, e.1.1.InRange sectorCount) (hok : ∀ e ∈ tr, e.1.1.isRequest = true → e.1.2.ok = true) :
    Run FlatStore.Success d₁.logical (share requestStep BlockDevice.logical tr) ∧
      last d₁.logical (share requestStep BlockDevice.logical tr) = (last d₁ tr).logical ∧
      ∀ d ∈ d₁ :: tr.map Prod.snd, d.logical ∈
        d₁.logical :: (share requestStep BlockDevice.logical tr).map Prod.snd := by
  refine Run.share (P := fun e => e.1.InRange sectorCount ∧ (e.1.isRequest = true → e.2.ok = true)) run hs
    (fun e he => ⟨hin e he, hok e he⟩) ?_
  rintro d ⟨op, o⟩ d' hd ⟨hop, hio⟩ hstep
  obtain ⟨hd', hflat⟩ := sound_step hcount hd hop hstep
  refine ⟨hd', fun e' he' => ?_, fun hnone => ?_⟩
  · obtain ⟨his, he'⟩ := Option.ite_none_right_eq_some.mp he'
    cases he'
    exact ⟨hflat, hio his, Op.data_of_not_read hstep⟩
  · cases op with
    | allocateBuffers numBuffers memory => exact hflat
    | read address size => cases hnone
    | write address src => cases hnone
    | eraseRange address size => cases hnone
    | sync => cases hnone

/-- Two devices of one content take the same operations, all of which succeed, each with its own buffers,
allocated before or in between, and its own raw failures. Then they return the same, the content is the same
after each operation and at the end, and so are the media once neither has anything left to flush. -/
theorem buffers_transparent (hcount : sectorCount ≤ 2 ^ 32 - 1) (hs₁ : Sound sectorCount d₁)
    (hs₂ : Sound sectorCount d₂) (hsame : d₁.logical = d₂.logical) (run₁ : Run deviceStep d₁ tr₁)
    (run₂ : Run deviceStep d₂ tr₂) (hin₁ : ∀ e ∈ tr₁, e.1.1.InRange sectorCount)
    (hin₂ : ∀ e ∈ tr₂, e.1.1.InRange sectorCount) (hok₁ : ∀ e ∈ tr₁, e.1.1.isRequest = true → e.1.2.ok = true)
    (hok₂ : ∀ e ∈ tr₂, e.1.1.isRequest = true → e.1.2.ok = true)
    (hops : (tr₁.map fun e => e.1.1).filter Op.isRequest = (tr₂.map fun e => e.1.1).filter Op.isRequest) :
    share requestStep BlockDevice.logical tr₁ = share requestStep BlockDevice.logical tr₂ ∧
      (last d₁ tr₁).logical = (last d₂ tr₂).logical ∧
      ((last d₁ tr₁).NoneDirty → (last d₂ tr₂).NoneDirty →
        (last d₁ tr₁).medium.sectors = (last d₂ tr₂).medium.sectors) := by
  obtain ⟨hstore₁, hlast₁, -⟩ := run_success hcount hs₁ run₁ hin₁ hok₁
  obtain ⟨hstore₂, hlast₂, -⟩ := run_success hcount hs₂ run₂ hin₂ hok₂
  rw [← hsame] at hstore₂ hlast₂
  have hshare : share requestStep BlockDevice.logical tr₁ = share requestStep BlockDevice.logical tr₂ := by
    apply Run.unique Prod.fst (fun _ _ _ _ _ h h' hkey => h.unique h' hkey) hstore₁ hstore₂
    rw [share_requestStep_ops, share_requestStep_ops, hops]
  have hlogical : (last d₁ tr₁).logical = (last d₂ tr₂).logical := by rw [← hlast₁, ← hlast₂, hshare]
  refine ⟨hshare, hlogical, fun hclean₁ hclean₂ => ?_⟩
  have hend₁ := (run_sound hcount hs₁ run₁ hin₁).1
  have hend₂ := (run_sound hcount hs₂ run₂ hin₂).1
  rw [← BlockDevice.seen_of_noneDirty hend₁.coherent hclean₁, ← BlockDevice.seen_of_noneDirty hend₂.coherent hclean₂,
    ← hend₁.coherent.logicalSector_eq, ← hend₂.coherent.logicalSector_eq]
  funext s
  apply Sector.flat_ext
  intro i _
  exact congrFun hlogical _

theorem accepts_of_mem_trace {ops : List (Op k)} {e : (Op k × Outcome) × BlockDevice k}
    (h : d₁.faults.OkFrom d₁.medium.calls) (he : e ∈ trace d₁ ops) :
    ∃ d : BlockDevice k, e.1.2.ok = d.accepts e.1.1 := by
  induction ops generalizing d₁ with
  | nil => cases he
  | cons op ops ih =>
    obtain ⟨hok, hfaults, hcalls⟩ := BlockDevice.exec_ok h op
    rcases List.mem_cons.mp he with rfl | he
    · exact ⟨d₁, hok⟩
    · apply ih _ he
      rw [hfaults]
      exact h.mono hcalls

/-- A device without buffers, and one that is given two of them. -/
theorem buffers_transparent_two :
    let ops : List (Op 2) := [.write 4 [1, 2, 3, 4], .read 0 8, .sync]
    let d : BlockDevice 2 := .fresh 8 ⟨fun _ => false, fun _ => Sector.zero⟩ fun _ => Sector.zero
    share requestStep BlockDevice.logical (trace d ops) =
      share requestStep BlockDevice.logical (trace d (.allocateBuffers 2 (some fun _ => Sector.zero) :: ops)) := by
  intro ops d
  have hsound : Sound 8 d := sound_fresh _ _ _
  have hin : ∀ op ∈ Op.allocateBuffers 2 (some fun _ => Sector.zero) :: ops, op.InRange 8 := by
    simp [ops, Op.InRange]
  have hok : ∀ l : List (Op 2), (∀ op ∈ l, op ∈ ops ∨ op.isRequest = false) → ∀ e ∈ trace d l,
      e.1.1.isRequest = true → e.1.2.ok = true := by
    intro l hl e he hio
    obtain ⟨d', hok⟩ := accepts_of_mem_trace (fun n _ => rfl) he
    rw [hok]
    rcases hl _ (op_of_mem_trace he) with hop | hop
    · simp only [ops, List.mem_cons, List.not_mem_nil, or_false] at hop
      rcases hop with hop | hop | hop <;> simp [hop, BlockDevice.accepts, BlockDevice.aligned]
    · rw [hio] at hop
      cases hop
  refine (buffers_transparent (by decide) hsound hsound rfl (run_trace d ops) (run_trace d _)
    (fun e he => hin _ (List.mem_cons_of_mem _ (op_of_mem_trace he))) (fun e he => hin _ (op_of_mem_trace he))
    (hok ops fun op hop => .inl hop) (hok _ fun op hop => ?_) ?_).1
  · rcases List.mem_cons.mp hop with rfl | hop
    · exact .inr rfl
    · exact .inl hop
  · rfl

end Transparency

end DiskStorage
