import DiskStorage.BlockDevice.Durability
import Mathlib.Data.UInt

/-! Parts of a device: where every write and erase is to bytes of a part or to none of them, the part is
a device of its own. -/
namespace DiskStorage
open ByteStore Runs
variable {k : Nat}

namespace Op

/-- An operation as the part with the `size` bytes from `start` on has it, if it is one of this part. -/
def within (start size : Nat) : Op k → Option (Op k)
  | read address n => if start ≤ address ∧ address + n ≤ start + size then some (read (address - start) n) else none
  | write address src =>
    if start ≤ address ∧ address + src.length ≤ start + size then some (write (address - start) src) else none
  | eraseRange address n =>
    if start ≤ address ∧ address + n ≤ start + size then some (eraseRange (address - start) n) else none
  | sync => some sync
  | allocateBuffers numBuffers memory => some (allocateBuffers numBuffers memory)

/-- An operation that is not one of the part does not write or erase in it. -/
def Respects (start size : Nat) : Op k → Prop
  | write address src =>
    (start ≤ address ∧ address + src.length ≤ start + size) ∨ address + src.length ≤ start ∨ start + size ≤ address
  | eraseRange address n =>
    (start ≤ address ∧ address + n ≤ start + size) ∨ address + n ≤ start ∨ start + size ≤ address
  | _ => True

end Op

/-- A step with its outcome, as the part has it. -/
def stepWithin (start size : Nat) (e : Op k × Outcome) : Option (Op k × Outcome) := (e.1.within start size).map (·, e.2)

namespace FlatStore
variable {f g : Nat → UInt8} {op op' : Op k} {o : Outcome} {start size : Nat}

theorem Step.within (h : Step f (op, o) g) (halign : 2 ^ k ∣ start) (hop : op.within start size = some op') :
    Step (window f start size) (op', o) (window g start size) := by
  cases op with
  | read address n =>
    obtain ⟨hin, hop'⟩ := Option.ite_none_right_eq_some.mp hop
    cases hop'
    obtain ⟨rfl, hdata⟩ := h
    refine ⟨rfl, fun hok => ?_⟩
    rw [hdata hok, slice_window _ _ (by omega), Nat.add_sub_cancel' hin.1]
  | write address src =>
    obtain ⟨⟨hlo, hhi⟩, hop'⟩ := Option.ite_none_right_eq_some.mp hop
    cases hop'
    obtain ⟨ok, data⟩ := o
    cases ok with
    | true =>
      rw [show g = _ from h]
      exact window_patch_inside f src hlo hhi
    | false =>
      obtain ⟨n, hn, hend, rfl⟩ := h
      have hlen : (src.take n).length = n := List.length_take_of_le hn
      refine ⟨n, hn, hend.imp_right fun hmod => ?_, window_patch_inside f _ hlo (by omega)⟩
      -- what ends on a sector boundary of the device does so in the part
      have hdvd := Nat.dvd_sub (Nat.dvd_of_mod_eq_zero hmod) halign
      rw [Nat.sub_add_comm hlo] at hdvd
      exact Nat.mod_eq_zero_of_dvd hdvd
  | eraseRange address n =>
    obtain ⟨⟨hlo, hhi⟩, hop'⟩ := Option.ite_none_right_eq_some.mp hop
    cases hop'
    obtain ⟨ok, data⟩ := o
    cases ok with
    | true =>
      obtain ⟨haddress, hn, rfl⟩ := h
      refine ⟨?_, hn, window_patch_inside f _ hlo (by rwa [List.length_replicate])⟩
      exact Nat.mod_eq_zero_of_dvd (Nat.dvd_sub (Nat.dvd_of_mod_eq_zero haddress) halign)
    | false =>
      rw [show g = f from h]
      exact rfl
  | sync =>
    cases hop
    rw [show g = f from h]
    exact rfl
  | allocateBuffers numBuffers memory =>
    cases hop
    rw [show g = f from h]
    exact rfl

theorem Step.elsewhere (h : Step f (op, o) g) (hop : op.within start size = none) (hapart : op.Respects start size) :
    window g start size = window f start size := by
  cases op with
  | read address n => rw [h.1]
  | write address src =>
    have hout := hapart.resolve_left fun hin => absurd ((if_pos hin).symm.trans hop) (Option.some_ne_none _)
    obtain ⟨ok, data⟩ := o
    cases ok with
    | true =>
      rw [show g = _ from h]
      exact window_patch_outside f src hout
    | false =>
      obtain ⟨n, hn, _, rfl⟩ := h
      apply window_patch_outside
      rw [List.length_take]
      omega
  | eraseRange address n =>
    have hout := hapart.resolve_left fun hin => absurd ((if_pos hin).symm.trans hop) (Option.some_ne_none _)
    obtain ⟨ok, data⟩ := o
    cases ok with
    | true =>
      obtain ⟨_, _, rfl⟩ := h
      apply window_patch_outside
      rwa [List.length_replicate]
    | false => rw [show g = f from h]
  | sync => cases hop
  | allocateBuffers numBuffers memory => cases hop

end FlatStore

section Part
variable {sectorCount start size : Nat} {d : BlockDevice k} {tr : List ((Op k × Outcome) × BlockDevice k)}

/-- The logical content of a part. -/
def BlockDevice.part (start size : Nat) (d : BlockDevice k) : Nat → UInt8 := window d.logical start size

/-- Every run of the device is, with the operations of a part and their outcomes, a run of the store that
this part is. -/
theorem run_part (hcount : sectorCount ≤ 2 ^ 32 - 1) (halign : 2 ^ k ∣ start) (hs : Sound sectorCount d)
    (run : Run deviceStep d tr) (hin : ∀ e ∈ tr, e.1.1.InRange sectorCount)
    (hapart : ∀ e ∈ tr, e.1.1.Respects start size) :
    Run FlatStore.Step (d.part start size) (share (stepWithin start size) (BlockDevice.part start size) tr) ∧
      last (d.part start size) (share (stepWithin start size) (BlockDevice.part start size) tr) =
        (last d tr).part start size ∧
      ∀ d' ∈ d :: tr.map Prod.snd, d'.part start size ∈
        d.part start size :: (share (stepWithin start size) (BlockDevice.part start size) tr).map Prod.snd := by
  refine Run.share (P := fun e => e.1.InRange sectorCount ∧ e.1.Respects start size) run hs
    (fun e he => ⟨hin e he, hapart e he⟩) ?_
  rintro d ⟨op, o⟩ d' hs hop hstep
  obtain ⟨hs', hflat⟩ := sound_step hcount hs hop.1 hstep
  refine ⟨hs', fun e' he' => ?_, fun hnone => ?_⟩
  · obtain ⟨op', hwithin, rfl⟩ := Option.map_eq_some_iff.mp he'
    exact hflat.within halign hwithin
  · exact hflat.elsewhere (Option.map_eq_none_iff.mp hnone) hop.2

/-- At every moment of a run from a synced device, each sector of a part is on the medium as it is in some
state of the run of this part. -/
theorem part_drawn (hcount : sectorCount ≤ 2 ^ 32 - 1) (halign : 2 ^ k ∣ start) (hs : Sound sectorCount d)
    (hsynced : d.medium.sectors = d.logicalSector) (run : Run deviceStep d tr)
    (hin : ∀ e ∈ tr, e.1.1.InRange sectorCount) (hapart : ∀ e ∈ tr, e.1.1.Respects start size)
    {c : Nat → Sector k} (hc : c ∈ Medium.since d.medium (last d tr).medium) {s : Nat}
    (hfits : (s + 1) * 2 ^ k ≤ size) :
    ∃ g ∈ d.part start size :: (share (stepWithin start size) (BlockDevice.part start size) tr).map Prod.snd,
      ∀ i < 2 ^ k, window (Sector.flat c) start size (s * 2 ^ k + i) = g (s * 2 ^ k + i) := by
  obtain ⟨first, rfl⟩ := halign
  obtain ⟨_, _, hviews⟩ := run_part hcount ⟨first, rfl⟩ hs run hin hapart
  obtain ⟨d', hd', hsame⟩ : ∃ d' ∈ d :: tr.map Prod.snd, c (first + s) = d'.logicalSector (first + s) := by
    rcases (run_evolves hcount hs run hin).mem_since hc with hc | rfl
    · obtain ⟨c', hc', hsame⟩ := hc (first + s)
      rcases List.mem_cons.mp hc' with rfl | hc'
      · exact ⟨d, List.mem_cons_self, by rw [hsame, hsynced]⟩
      · obtain ⟨d', hd', rfl⟩ := List.mem_map.mp hc'
        exact ⟨d', hd', hsame⟩
    · exact ⟨d, List.mem_cons_self, by rw [hsynced]⟩
  refine ⟨_, hviews d' hd', fun i hi => ?_⟩
  rw [Nat.succ_mul] at hfits
  have hplace : 2 ^ k * first + (s * 2 ^ k + i) = (first + s) * 2 ^ k + i := by ring
  rw [BlockDevice.part, window_inside _ _ (by omega), window_inside _ _ (by omega), hplace, BlockDevice.logical,
    Sector.flat_apply _ _ hi, Sector.flat_apply _ _ hi, hsame]

end Part

end DiskStorage
