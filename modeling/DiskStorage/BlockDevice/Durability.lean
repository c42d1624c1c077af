import DiskStorage.BlockDevice.Refinement

/-! Write-back durability: what a power loss can leave on the medium. -/
namespace DiskStorage
open Runs
variable {k : Nat}

namespace Medium

/-- The contents the medium has had from an earlier moment of its history on, that
moment's own content included. -/
def since (m m' : Medium k) : List (Nat → Sector k) :=
  m'.contents.take (m'.contents.length - m.past.length)

theorem Evolves.mem_since {P : (Nat → Sector k) → Prop} {m m' : Medium k} (h : m.Evolves P m')
    {c : Nat → Sector k} (hc : c ∈ since m m') : P c ∨ c = m.sectors := by
  obtain ⟨new, he, hP⟩ := h
  have hsplit : m'.contents = (new ++ [m.sectors]) ++ m.past := by rw [he, contents, List.append_cons]
  have hlen : m'.contents.length - m.past.length = (new ++ [m.sectors]).length := by
    rw [hsplit, List.length_append]
    omega
  rw [since, hlen, hsplit, List.take_left] at hc
  rcases List.mem_append.mp hc with hc | hc
  · exact .inl (hP c hc)
  · exact .inr (List.mem_singleton.mp hc)

end Medium

namespace Op

/-- A write or erase addresses a byte of the sector. -/
def Touches (s : Nat) : Op k → Prop
  | write address src => address < (s + 1) * 2 ^ k ∧ s * 2 ^ k < address + src.length
  | eraseRange address size => address < (s + 1) * 2 ^ k ∧ s * 2 ^ k < address + size
  | _ => False

end Op

theorem FlatStore.step_untouched {f g : Nat → UInt8} {e : Op k × Outcome} (h : FlatStore.Step f e g) {s : Nat}
    (hs : ¬ e.1.Touches s) {i : Nat} (hi : i < 2 ^ k) : g (s * 2 ^ k + i) = f (s * 2 ^ k + i) := by
  have hsucc : (s + 1) * 2 ^ k = s * 2 ^ k + 2 ^ k := Nat.succ_mul ..
  obtain ⟨op, ok, data⟩ := e
  cases op with
  | read address size => rw [h.1]
  | write address src =>
    simp only [Op.Touches, not_and_or, Nat.not_lt] at hs
    cases ok with
    | true =>
      rw [show g = _ from h]
      exact ByteStore.patch_outside _ _ (by omega)
    | false =>
      obtain ⟨n, hn, _, rfl⟩ := h
      exact ByteStore.patch_outside _ _ (by rw [List.length_take]; omega)
  | eraseRange address size =>
    simp only [Op.Touches, not_and_or, Nat.not_lt] at hs
    cases ok with
    | true =>
      obtain ⟨_, _, rfl⟩ := h
      exact ByteStore.patch_outside _ _ (by rw [List.length_replicate]; omega)
    | false => rw [show g = f from h]
  | sync => rw [show g = f from h]
  | allocateBuffers numBuffers memory => rw [show g = f from h]

/-- Along a run the medium takes on, sector by sector, only logical contents of the run. -/
theorem run_evolves {sectorCount : Nat} (hcount : sectorCount ≤ 2 ^ 32 - 1) {d : BlockDevice k}
    {tr : List ((Op k × Outcome) × BlockDevice k)} (hs : Sound sectorCount d) (run : Run deviceStep d tr)
    (hin : ∀ e ∈ tr, e.1.1.InRange sectorCount) :
    d.medium.Evolves (Among (d.medium.sectors :: (d :: tr.map Prod.snd).map BlockDevice.logicalSector))
      (last d tr).medium := by
  induction run with
  | nil => exact .refl
  | @cons d d₁ e tr hstep _ ih =>
    have he := hin _ (List.mem_cons_self ..)
    obtain ⟨hs₁, _⟩ := sound_step hcount hs he hstep
    obtain ⟨hk, _, _⟩ := exec_spec hcount hs he hstep
    have hev := hk.evolves
    rw [← hs.coherent.logicalSector_eq, ← hs₁.coherent.logicalSector_eq] at hev
    have hfirst : [d.medium.sectors, d.logicalSector, d₁.logicalSector] ⊆
        d.medium.sectors :: (d :: ((e, d₁) :: tr).map Prod.snd).map BlockDevice.logicalSector := by
      simp
    refine (hev.mono fun c hc => hc.mono hfirst).trans
      ((ih hs₁ fun e he => hin e (List.mem_cons_of_mem _ he)).mono fun c hc => hc.trans fun c' hc' => ?_)
    rcases List.mem_cons.mp hc' with rfl | hc'
    · exact (hev.current (among_self (by simp))).mono hfirst
    · exact among_self (List.mem_cons_of_mem _ (List.mem_cons_of_mem _ hc'))

/-- Along a run that does not address a sector its logical content stays. -/
theorem run_untouched {sectorCount : Nat} (hcount : sectorCount ≤ 2 ^ 32 - 1) {d : BlockDevice k}
    {tr : List ((Op k × Outcome) × BlockDevice k)} (hs : Sound sectorCount d) (run : Run deviceStep d tr)
    (hin : ∀ e ∈ tr, e.1.1.InRange sectorCount) {s : Nat} (hun : ∀ e ∈ tr, ¬ e.1.1.Touches s) :
    ∀ d' ∈ d :: tr.map Prod.snd, d'.logicalSector s = d.logicalSector s := by
  induction run with
  | nil => simp
  | @cons d d₁ e tr hstep _ ih =>
    obtain ⟨hs₁, hflat⟩ := sound_step hcount hs (hin _ (List.mem_cons_self ..)) hstep
    have hone : d₁.logicalSector s = d.logicalSector s :=
      Sector.flat_ext fun i hi => FlatStore.step_untouched hflat (hun _ (List.mem_cons_self ..)) hi
    intro d' hd'
    rcases List.mem_cons.mp hd' with rfl | hd'
    · rfl
    · exact (ih hs₁ (fun e he => hin e (List.mem_cons_of_mem _ he))
        (fun e he => hun e (List.mem_cons_of_mem _ he)) d' hd').trans hone

theorem synced_clean {sectorCount : Nat} (hcount : sectorCount ≤ 2 ^ 32 - 1) {faults : Faults k}
    {sectors : Nat → Sector k} {pre : List ((Op k × Outcome) × BlockDevice k)}
    (run : Run deviceStep (.fresh sectorCount faults sectors) pre)
    (hin : ∀ e ∈ pre, e.1.1.InRange sectorCount)
    (hsync : pre = [] ∨ ∃ e ∈ pre.getLast?, e.1.1 = .sync ∧ e.1.2.ok = true) :
    Sound sectorCount (last (.fresh sectorCount faults sectors) pre) ∧
      (last (.fresh sectorCount faults sectors) pre).NoneDirty := by
  rcases List.eq_nil_or_concat pre with rfl | ⟨init, ⟨e, d⟩, rfl⟩
  · exact ⟨sound_fresh _ _ _, fun _ h => by cases h⟩
  · rw [List.concat_eq_append] at run hin hsync ⊢
    obtain ⟨hrun, hlast⟩ := run_append_iff.mp run
    have hmid : Sound sectorCount (last (.fresh sectorCount faults sectors) init) :=
      hrun.invariant (I := Sound sectorCount) (sound_fresh _ _ _)
        (fun e he => hin e (List.mem_append_left _ he)) fun _ _ _ hs hl h => (sound_step hcount hs hl h).1
    cases hlast with
    | cons hstep _ =>
      have he := hin (e, d) (by simp)
      rw [last_append, last_cons, last_nil]
      obtain ⟨hk, _, hclean⟩ := exec_spec hcount hmid he hstep
      refine ⟨(sound_step hcount hmid he hstep).1, ?_⟩
      rcases hsync with hnil | ⟨e', he', hop, hok⟩
      · simp at hnil
      · rw [List.getLast?_concat, Option.mem_some_iff] at he'
        subst he'
        exact hclean hop hok

/-- Right after a successful sync, or at the start, the medium holds the logical content and
no buffer is dirty. From then on, at every moment, also in the middle of an operation, each
sector of the medium holds the logical content the sector had at some point since, and its
old content if it was neither written nor erased. -/
theorem medium_holds_content_since_sync (sectorCount : Nat) (hcount : sectorCount ≤ 2 ^ 32 - 1)
    (faults : Faults k) (sectors : Nat → Sector k) {pre post : List ((Op k × Outcome) × BlockDevice k)}
    {d₀ d₁ d₂ : BlockDevice k} (h₀ : d₀ = .fresh sectorCount faults sectors)
    (h₁ : d₁ = last d₀ pre) (h₂ : d₂ = last d₁ post) (run : Run deviceStep d₀ (pre ++ post))
    (hin : ∀ e ∈ pre ++ post, e.1.1.InRange sectorCount)
    (hsync : pre = [] ∨ ∃ e ∈ pre.getLast?, e.1.1 = .sync ∧ e.1.2.ok = true) :
    (∀ c ∈ Medium.since d₁.medium d₂.medium, ∀ s, ∃ d ∈ d₁ :: post.map Prod.snd, c s = d.logicalSector s) ∧
      d₁.medium.sectors = d₁.logicalSector ∧ d₁.NoneDirty ∧
      ∀ s, (∀ e ∈ post, ¬ e.1.1.Touches s) →
        ∀ c ∈ Medium.since d₁.medium d₂.medium, c s = d₁.medium.sectors s := by
  subst h₀ h₁ h₂
  obtain ⟨hpre, hpost⟩ := run_append_iff.mp run
  have hin' : ∀ e ∈ post, e.1.1.InRange sectorCount := fun e he => hin e (List.mem_append_right _ he)
  obtain ⟨hs, hclean⟩ := synced_clean hcount hpre (fun e he => hin e (List.mem_append_left _ he)) hsync
  have hmedium := hs.coherent.logicalSector_eq.trans (BlockDevice.seen_of_noneDirty hs.coherent hclean)
  have hmoments : ∀ c ∈ Medium.since (last (.fresh sectorCount faults sectors) pre).medium
      (last (last (.fresh sectorCount faults sectors) pre) post).medium, ∀ s,
      ∃ d ∈ last (.fresh sectorCount faults sectors) pre :: post.map Prod.snd, c s = d.logicalSector s := by
    intro c hc s
    rcases (run_evolves hcount hs hpost hin').mem_since hc with hc | rfl
    · obtain ⟨c', hc', he⟩ := hc s
      rcases List.mem_cons.mp hc' with rfl | hc'
      · exact ⟨_, List.mem_cons_self .., by rw [he, hmedium]⟩
      · obtain ⟨d, hd, rfl⟩ := List.mem_map.mp hc'
        exact ⟨d, hd, he⟩
    · exact ⟨_, List.mem_cons_self .., by rw [hmedium]⟩
  refine ⟨hmoments, hmedium.symm, hclean, fun s hun c hc => ?_⟩
  obtain ⟨d, hd, he⟩ := hmoments c hc s
  rw [he, run_untouched hcount hs hpost hin' hun d hd, hmedium]

/-- After a sync, a buffered write that an eviction carries out. -/
theorem medium_holds_content_since_sync_eight :
    let f : Faults 9 := ⟨fun n => n == 4, fun _ => Sector.zero⟩
    let d₀ : BlockDevice 9 := .fresh 8 f fun _ => Sector.zero
    let pre := trace d₀ [.allocateBuffers 1 (some fun _ => Sector.zero), .sync]
    let post := trace (last d₀ pre) [.write 0 [2], .read 512 512]
    (∀ c ∈ Medium.since (last d₀ pre).medium (last (last d₀ pre) post).medium, ∀ s,
        ∃ d ∈ last d₀ pre :: post.map Prod.snd, c s = d.logicalSector s) ∧
      (last d₀ pre).medium.sectors = (last d₀ pre).logicalSector ∧ (last d₀ pre).NoneDirty ∧
      ∀ s, (∀ e ∈ post, ¬ e.1.1.Touches s) →
        ∀ c ∈ Medium.since (last d₀ pre).medium (last (last d₀ pre) post).medium,
          c s = (last d₀ pre).medium.sectors s := by
  intro f d₀ pre post
  have hin : ∀ e ∈ pre ++ post, e.1.1.InRange 8 := by
    intro e he
    rcases List.mem_append.mp he with he | he
    · have := op_of_mem_trace he
      simp only [List.mem_cons, List.not_mem_nil, or_false] at this
      rcases this with h | h <;> rw [h] <;> trivial
    · have := op_of_mem_trace he
      simp only [List.mem_cons, List.not_mem_nil, or_false] at this
      rcases this with h | h <;> rw [h] <;> simp [Op.InRange]
  refine medium_holds_content_since_sync 8 (by decide) f (fun _ => Sector.zero) rfl rfl rfl
    (run_append_iff.mpr ⟨run_trace _ _, run_trace _ _⟩) hin (.inr ⟨_, rfl, rfl, rfl⟩)

end DiskStorage
