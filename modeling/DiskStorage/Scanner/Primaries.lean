import DiskStorage.Scanner.Termination
import DiskStorage.Scanner.Yields

/-! What becomes of the primary partitions when one of the primary records is an extended one. -/
namespace DiskStorage
open ByteStore LittleEndian
open Walks (NoRepeat noRepeat_of_ends)

variable {b : Build} (env : ScanEnv) {im : Image} {sc : Scanner} {shift k : Nat}

/-- In one pass of the scan and in no other, with the primary records in front of it and at the one of
this index, next returns the partition of the record. -/
def YieldsOnce (b : Build) (env : ScanEnv) (s : Scanner × Image) (i : Nat) (entry : MbrRecord) : Prop :=
  ∃! n, ∃ sc part, passes b env n s.1 s.2 = some (sc, s.2) ∧
    sc.configuration = (s.1.mbrEntries, i, s.1.numPartitionEntries) ∧
    returnedAt b env s n = some part ∧ part.OfRecord s.1.sectorSizeShift entry

theorem AtChain.pass_returns (h : AtChain b im shift k sc) (hlt : sc.partitionIndex < sc.mbrEntries.length)
    (htype : sc.mbrEntries[sc.partitionIndex].osType ≠ OSTYPE_EXTENDED)
    (hread : im.readableAt b shift sc.mbrEntries[sc.partitionIndex].startingLba.toNat = true) :
    ∃ part, (DiskStorage.pass (b := b) env sc im).part = some part ∧
    part.OfRecord shift sc.mbrEntries[sc.partitionIndex] := by
  have hstanding : Standing shift sc (sc.mbrEntries[sc.partitionIndex] :: sc.mbrEntries.drop (sc.partitionIndex + 1)) :=
    ⟨h.state, h.shift_eq, h.count, List.drop_eq_getElem_cons hlt⟩
  obtain ⟨part, sc', hpass, hof, -⟩ := hstanding.pass_part env htype hread
  exact ⟨part, by rw [hpass]; rfl, hof⟩

theorem AtChain.passes_to (h : AtChain b im shift k sc) (hshift : 9 ≤ shift) (hzero : sc.partitionIndex = 0) {i : Nat}
    (hi : i ≤ sc.mbrEntries.length) (hno : ∀ e ∈ sc.mbrEntries.take i, im.isLink b shift e = false) :
    ∃ sc', DiskStorage.passes b env i sc im = some (sc', im) ∧ AtChain b im shift k sc' ∧
      sc'.mbrEntries = sc.mbrEntries ∧ sc'.partitionIndex = i := by
  induction i with
  | zero => exact ⟨sc, rfl, h, rfl, hzero⟩
  | succ i ih =>
    obtain ⟨sc₁, hpasses, hat, hentries, hindex⟩ := ih (Nat.le_of_succ_le hi) fun e he =>
      hno e ((List.take_subset_take_left _ (Nat.le_succ i)) he)
    have hlt : sc₁.partitionIndex < sc₁.mbrEntries.length := by
      rw [hindex, hentries]
      exact hi
    obtain ⟨sc₂, hpass, hnext⟩ := hat.pass env hshift hlt
    have hmem : sc₁.mbrEntries[sc₁.partitionIndex] ∈ sc.mbrEntries.take (i + 1) := by
      simp only [hentries, hindex]
      rw [List.take_succ_eq_append_getElem hi]
      exact List.mem_append_right _ (List.mem_singleton_self _)
    have hstays := hno _ hmem
    rcases hnext with ⟨-, hat₂, hentries₂, hindex₂⟩ | ⟨hlink, -⟩
    · refine ⟨sc₂, ?_, hat₂, hentries₂.trans hentries, hindex₂.trans (congrArg (· + 1) hindex)⟩
      rw [passes_add, hpasses, Option.bind_some, DiskStorage.passes, hpass]
      rfl
    · rw [hstays] at hlink
      cases hlink

variable {env} {s : Scanner × Image}

private theorem configuration_unique (hs : opened b env im = some s) (hmbr : s.1.state = .mbr)
    (hno : NoRepeat (some 0) (im.link b s.1.sectorSizeShift)) {m n : Nat} {s₁ s₂ : Scanner × Image}
    (h₁ : passes b env m s.1 s.2 = some s₁) (h₂ : passes b env n s.1 s.2 = some s₂)
    (heq : s₁.1.configuration = s₂.1.configuration) : m = n := by
  have hterm : ScanTerminates b env im := terminates_of_noRepeat fun s' hs' _ => by
    rw [hs] at hs'
    cases hs'
    exact hno
  rcases Nat.lt_trichotomy m n with hlt | rfl | hgt
  · exact absurd heq (hterm.configurations s hs m n s₁ s₂ hlt h₁ h₂ ((passes_state h₁).trans hmbr)
      ((passes_state h₂).trans hmbr))
  · rfl
  · exact absurd heq.symm (hterm.configurations s hs n m s₂ s₁ hgt h₂ h₁ ((passes_state h₂).trans hmbr)
      ((passes_state h₁).trans hmbr))

private theorem yieldsOnce_before (hs : opened b env im = some s) (hmbr : s.1.state = .mbr)
    (hno : NoRepeat (some 0) (im.link b s.1.sectorSizeShift)) {i : Nat} (hi : i < s.1.mbrEntries.length)
    (hbefore : ∀ e ∈ s.1.mbrEntries.take i, im.isLink b s.1.sectorSizeShift e = false)
    (htype : s.1.mbrEntries[i].osType ≠ OSTYPE_EXTENDED)
    (hread : im.readableAt b s.1.sectorSizeShift s.1.mbrEntries[i].startingLba.toNat = true) :
    YieldsOnce b env s i s.1.mbrEntries[i] := by
  obtain ⟨him, hshift, hat, hzero⟩ := opened_mbr hs hmbr
  obtain ⟨sc₀, device⟩ := s
  obtain rfl : device = im := him
  dsimp only at *
  obtain ⟨sc, hpasses, hat', hentries, hindex⟩ := hat.passes_to env hshift hzero hi.le hbefore
  have hcount : sc.numPartitionEntries = sc₀.numPartitionEntries := by rw [hat'.count, hentries, hat.count]
  have hlt : sc.partitionIndex < sc.mbrEntries.length := by
    rw [hindex, hentries]
    exact hi
  have hentry : sc.mbrEntries[sc.partitionIndex] = sc₀.mbrEntries[i] := by simp only [hentries, hindex]
  obtain ⟨part, hpart, hof⟩ := hat'.pass_returns env hlt (hentry ▸ htype) (hentry ▸ hread)
  refine ⟨i, ⟨sc, part, hpasses, ?_, ?_, hentry ▸ hof⟩, ?_⟩
  · rw [Scanner.configuration, hentries, hindex, hcount]
  · rw [returnedAt, hpasses]
    exact hpart
  · rintro m ⟨sc', part', hpasses', hconf, -⟩
    apply configuration_unique hs hmbr hno hpasses' hpasses
    rw [hconf, Scanner.configuration, hentries, hindex, hcount]

private theorem not_yieldsOnce_behind (hs : opened b env im = some s) (hmbr : s.1.state = .mbr)
    (hno : NoRepeat (some 0) (im.link b s.1.sectorSizeShift)) {e i : Nat} (he : e < s.1.mbrEntries.length) (hei : e < i)
    (hlink : im.isLink b s.1.sectorSizeShift s.1.mbrEntries[e] = true) (entry : MbrRecord) :
    ¬ YieldsOnce b env s i entry := by
  rintro ⟨n, ⟨sc, part, hpasses, hconf, -⟩, -⟩
  obtain ⟨him, hshift, hat, hzero⟩ := opened_mbr hs hmbr
  obtain ⟨sc₀, device⟩ := s
  obtain rfl : device = im := him
  dsimp only at *
  have hentries : sc.mbrEntries = sc₀.mbrEntries := congrArg Prod.fst hconf
  have hindex : sc.partitionIndex = i := congrArg (fun c => c.2.1) hconf
  -- the scanner is still over the primary records, so it has not passed a link
  have hat' : AtChain b device sc₀.sectorSizeShift 0 sc := by
    rcases n with _ | n
    · cases hpasses
      exact hat
    · obtain ⟨-, k, hk, hfar⟩ := hat.passes hshift hpasses
      rcases hfar with hlt | ⟨rfl, -⟩
      · exact absurd hentries.symm (configuration_ne hno hat hk hlt)
      · exact hk
  have hmem : sc₀.mbrEntries[e] ∈ sc.mbrEntries.take sc.partitionIndex := by
    rw [hentries, hindex]
    have he' : e < sc₀.mbrEntries.length := he
    exact List.mem_take_iff_getElem.mpr ⟨e, by omega, rfl⟩
  have hpassed := hat'.passed _ hmem
  rw [hlink] at hpassed
  cases hpassed

/-- When one primary record is an extended one, and its chain is finite, every other one that can be read is yielded
once if and only if none that can be read comes behind it. -/
theorem primaries_kept_iff (b : Build) (env : ScanEnv) (im : Image) (s : Scanner × Image)
    (hs : opened b env im = some s) (hmbr : s.1.state = .mbr) (e : Nat) (he : e < s.1.mbrEntries.length)
    (hextended : im.isLink b s.1.sectorSizeShift s.1.mbrEntries[e] = true)
    (honly : ∀ i (hi : i < s.1.mbrEntries.length), i ≠ e → s.1.mbrEntries[i].osType ≠ OSTYPE_EXTENDED)
    (hfinite : ∃ last, im.chain b s.1.sectorSizeShift last = none) :
    (∀ i (hi : i < s.1.mbrEntries.length), i ≠ e →
        im.readableAt b s.1.sectorSizeShift s.1.mbrEntries[i].startingLba.toNat = true →
        YieldsOnce b env s i s.1.mbrEntries[i]) ↔
      ∀ i (hi : i < s.1.mbrEntries.length), e < i →
        im.readableAt b s.1.sectorSizeShift s.1.mbrEntries[i].startingLba.toNat = false := by
  obtain ⟨last, hlast⟩ := hfinite
  have hno : NoRepeat (some 0) (im.link b s.1.sectorSizeShift) := noRepeat_of_ends hlast
  constructor
  · intro hall i hi hei
    by_contra hread
    exact not_yieldsOnce_behind hs hmbr hno he hei hextended _
      (hall i hi hei.ne' (Bool.eq_true_of_not_eq_false hread))
  · intro hbehind i hi hie hread
    have hlt : i < e := by
      refine Nat.lt_of_le_of_ne (Nat.le_of_not_lt fun hei => ?_) hie
      rw [hbehind i hi hei] at hread
      cases hread
    refine yieldsOnce_before hs hmbr hno hi (fun entry hentry => ?_) (honly i hi hie) hread
    obtain ⟨j, hj, rfl⟩ := List.mem_take_iff_getElem.mp hentry
    rw [Image.isLink, beq_eq_false_iff_ne.mpr (honly j (by omega) (by omega)), Bool.false_and]

/-- A boot record with two records, for sectors 1 and 2, of which the one at the given index is extended. -/
def twoRecordImage (extended : Nat) : Image where
  bytes i :=
    if i = 510 then 0x55 else if i = 511 then 0xaa
    else if i = 450 then (if extended = 0 then OSTYPE_EXTENDED else 0x83)
    else if i = 466 then (if extended = 1 then OSTYPE_EXTENDED else 0x83)
    else if i = 470 then 2
    else if i = 454 ∨ i = 458 ∨ i = 474 then 1
    else 0
  readable _ _ := true
  sectorSize := 512
  sectorCount := 3

private theorem osType_of_map {entries : List MbrRecord} {types : List UInt8}
    (h : entries.map MbrRecord.osType = types) :
    entries.length = types.length ∧ ∀ i (hi : i < entries.length), entries[i].osType = types.getD i 0 := by
  subst h
  refine ⟨(List.length_map _).symm, fun i hi => ?_⟩
  rw [List.getD_eq_getElem?_getD, List.getElem?_map, List.getElem?_eq_getElem hi]
  rfl

/-- The extended record is the last one. -/
theorem primaries_kept_iff_last :
    ∃ s, opened ⟨true, true, true, 512⟩ ⟨⟨0xff, 1, 2, 0xff⟩, fun _ => [], some fun _ => 0, some fun _ => 0⟩
        (twoRecordImage 1) = some s ∧
      ((∀ i (hi : i < s.1.mbrEntries.length), i ≠ 1 →
          (twoRecordImage 1).readableAt ⟨true, true, true, 512⟩ s.1.sectorSizeShift
            s.1.mbrEntries[i].startingLba.toNat = true →
          YieldsOnce ⟨true, true, true, 512⟩ ⟨⟨0xff, 1, 2, 0xff⟩, fun _ => [], some fun _ => 0, some fun _ => 0⟩ s i
            s.1.mbrEntries[i]) ↔
        ∀ i (hi : i < s.1.mbrEntries.length), 1 < i →
          (twoRecordImage 1).readableAt ⟨true, true, true, 512⟩ s.1.sectorSizeShift
            s.1.mbrEntries[i].startingLba.toNat = false) := by
  have hmap : (opened ⟨true, true, true, 512⟩
      ⟨⟨0xff, 1, 2, 0xff⟩, fun _ => [], some fun _ => 0, some fun _ => 0⟩ (twoRecordImage 1)).map
        (fun s => ((s.1.state, s.1.sectorSizeShift), s.1.mbrEntries.map MbrRecord.osType)) =
      some ((.mbr, 9), [0x83, OSTYPE_EXTENDED]) := by decide +kernel
  obtain ⟨s, hs, heq⟩ := Option.map_eq_some_iff.mp hmap
  obtain ⟨hlength, htype⟩ := osType_of_map (congrArg Prod.snd heq)
  refine ⟨s, hs, primaries_kept_iff _ _ _ s hs (congrArg (fun x => x.1.1) heq) 1 (by rw [hlength]; decide) ?_ ?_ ?_⟩
  · rw [Image.isLink, htype 1]
    rfl
  · intro i hi hne
    obtain rfl : i = 0 := by
      rw [hlength] at hi
      have : i < 2 := hi
      omega
    rw [htype 0 hi]
    decide
  · rw [show s.1.sectorSizeShift = 9 from congrArg (fun x => x.1.2) heq]
    exact ⟨2, by decide +kernel⟩

/-- The extended record is the first one: the other is never yielded. -/
theorem primary_lost_behind_extended :
    ¬ ∀ s, opened ⟨true, true, true, 512⟩ ⟨⟨0xff, 1, 2, 0xff⟩, fun _ => [], some fun _ => 0, some fun _ => 0⟩
        (twoRecordImage 0) = some s → s.1.state = .mbr → ∀ he : 0 < s.1.mbrEntries.length,
      (twoRecordImage 0).isLink ⟨true, true, true, 512⟩ s.1.sectorSizeShift s.1.mbrEntries[0] = true →
      (∀ i (hi : i < s.1.mbrEntries.length), i ≠ 0 → s.1.mbrEntries[i].osType ≠ OSTYPE_EXTENDED) →
      (∃ last, (twoRecordImage 0).chain ⟨true, true, true, 512⟩ s.1.sectorSizeShift last = none) →
      ∀ i (hi : i < s.1.mbrEntries.length), i ≠ 0 →
        (twoRecordImage 0).readableAt ⟨true, true, true, 512⟩ s.1.sectorSizeShift
          s.1.mbrEntries[i].startingLba.toNat = true →
        YieldsOnce ⟨true, true, true, 512⟩ ⟨⟨0xff, 1, 2, 0xff⟩, fun _ => [], some fun _ => 0, some fun _ => 0⟩ s i
          s.1.mbrEntries[i] := by
  intro h
  have hmap : (opened ⟨true, true, true, 512⟩
      ⟨⟨0xff, 1, 2, 0xff⟩, fun _ => [], some fun _ => 0, some fun _ => 0⟩ (twoRecordImage 0)).map
        (fun s => ((s.1.state, s.1.sectorSizeShift), s.1.mbrEntries.map MbrRecord.osType)) =
      some ((.mbr, 9), [OSTYPE_EXTENDED, 0x83]) := by decide +kernel
  obtain ⟨s, hs, heq⟩ := Option.map_eq_some_iff.mp hmap
  obtain ⟨hlength, htype⟩ := osType_of_map (congrArg Prod.snd heq)
  have hstate : s.1.state = .mbr := congrArg (fun x => x.1.1) heq
  have hlast : (twoRecordImage 0).chain ⟨true, true, true, 512⟩ s.1.sectorSizeShift 2 = none := by
    rw [show s.1.sectorSizeShift = 9 from congrArg (fun x => x.1.2) heq]
    decide +kernel
  have hlink : (twoRecordImage 0).isLink ⟨true, true, true, 512⟩ s.1.sectorSizeShift
    (s.1.mbrEntries.get ⟨0, by rw [hlength]; decide⟩) =
      true := by
    rw [Image.isLink, List.get_eq_getElem, htype 0]
    rfl
  refine not_yieldsOnce_behind hs hstate (noRepeat_of_ends hlast) (by rw [hlength]; decide) Nat.zero_lt_one hlink _
    (h s hs hstate (by rw [hlength]; decide) hlink (fun i hi hne => ?_)
      ⟨2, hlast⟩ 1 (by rw [hlength]; decide) Nat.one_ne_zero rfl)
  obtain rfl : i = 1 := by
    rw [hlength] at hi
    have : i < 2 := hi
    omega
  rw [htype]
  decide

end DiskStorage
