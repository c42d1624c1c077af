import DiskStorage.Scanner.Chain

/-! Whether the scan of a disk image comes to an end. -/
namespace DiskStorage
open ByteStore LittleEndian
open Walks (walk NoRepeat)

variable {b : Build} (env : ScanEnv) (im : Image)

/-- What stands in the MBR loop: the records, the place in them and their number. -/
def Scanner.configuration (sc : Scanner) : List MbrRecord × Nat × Nat :=
  (sc.mbrEntries, sc.partitionIndex, sc.numPartitionEntries)

/-- The scan of an image is finite: scanPartitions returns, so does every call of next from a
scanner it comes to, and no configuration of the MBR loop recurs. -/
structure ScanTerminates (b : Build) (env : ScanEnv) (im : Image) : Prop where
  scan : ∃ fuel, scanPartitions (b := b) env fuel im ≠ none
  calls : ∀ s, opened b env im = some s → ∀ n sc device, passes b env n s.1 s.2 = some (sc, device) →
    ∃ fuel, nextLoop (b := b) env fuel sc device ≠ none
  configurations : ∀ s, opened b env im = some s → ∀ m n s₁ s₂, m < n → passes b env m s.1 s.2 = some s₁ →
    passes b env n s.1 s.2 = some s₂ → s₁.1.state = .mbr → s₂.1.state = .mbr →
    s₁.1.configuration ≠ s₂.1.configuration

/-- The scanner has read the boot record that is the `k`-th of the chain, and the records in
front of the present one have not been links. -/
structure AtChain (b : Build) (im : Image) (shift k : Nat) (sc : Scanner) : Prop where
  state : sc.state = .mbr
  shift_eq : sc.sectorSizeShift = shift
  entries : (im.chain b shift k).map (im.bootRecords b shift) = some sc.mbrEntries
  count : sc.numPartitionEntries = sc.mbrEntries.length
  index : sc.partitionIndex ≤ sc.mbrEntries.length
  passed : ∀ e ∈ sc.mbrEntries.take sc.partitionIndex, im.isLink b shift e = false

variable {env im} {sc sc' : Scanner} {shift k n i : Nat}

variable (env) in
/-- One pass of the MBR loop: to the next record of the same boot record, or to the first
record of the boot record behind the link. -/
theorem AtChain.pass (h : AtChain b im shift k sc) (hshift : 9 ≤ shift)
    (hlt : sc.partitionIndex < sc.mbrEntries.length) :
    ∃ sc', (DiskStorage.pass (b := b) env sc im).proceed = some (sc', im) ∧
      (im.isLink b shift sc.mbrEntries[sc.partitionIndex] = false ∧ AtChain b im shift k sc' ∧
          sc'.mbrEntries = sc.mbrEntries ∧ sc'.partitionIndex = sc.partitionIndex + 1 ∨
        im.isLink b shift sc.mbrEntries[sc.partitionIndex] = true ∧ AtChain b im shift (k + 1) sc' ∧
          sc'.partitionIndex = 0) := by
  have hentry := List.getElem?_eq_getElem hlt
  set entry := sc.mbrEntries[sc.partitionIndex]
  have htake : sc.mbrEntries.take (sc.partitionIndex + 1) = sc.mbrEntries.take sc.partitionIndex ++ [entry] :=
    List.take_succ_eq_append_getElem hlt
  have hnext : im.isLink b shift entry = false →
      ∀ e ∈ sc.mbrEntries.take (sc.partitionIndex + 1), im.isLink b shift e = false := by
    intro hno e he
    rw [htake] at he
    rcases List.mem_append.mp he with he | he
    · exact h.passed e he
    · rw [List.mem_singleton.mp he]
      exact hno
  rw [DiskStorage.pass, if_pos (by rw [h.count]; exact hlt), h.state]
  simp only [hentry, passMbr, readSector_image, h.shift_eq]
  cases hread : im.readableAt b shift entry.startingLba.toNat with
  | false =>
    have hread' : im.readable (sectorAddress b shift entry.startingLba.toNat) (2 ^ shift) = false := hread
    simp only [hread', Bool.false_eq_true, if_false]
    have hno : im.isLink b shift entry = false := by rw [Image.isLink, hread, Bool.and_false]
    exact ⟨_, rfl, Or.inl ⟨hno, ⟨h.state, rfl, h.entries, h.count, hlt, hnext hno⟩, rfl, rfl⟩⟩
  | true =>
    have hread' : im.readable (sectorAddress b shift entry.startingLba.toNat) (2 ^ shift) = true := hread
    simp only [hread', if_true]
    split
    · rename_i htype
      -- the boot record behind the link is the next of the chain
      have hlink : im.isLink b shift entry = true := by
        rw [Image.isLink, hread, htype]
        rfl
      have hrecords : scanMbrEntries (patch sc.buffer 0 (slice im.bytes (sectorAddress b shift entry.startingLba.toNat)
          (2 ^ shift))) entry.startingLba = im.bootRecords b shift entry.startingLba :=
        scanMbrEntries_congr (fun i hi => patch_sector sc.buffer hshift entry.startingLba.toNat hi) _
      obtain ⟨lba, hlba, hentries⟩ := Option.map_eq_some_iff.mp h.entries
      have hchain : im.chain b shift (k + 1) = some entry.startingLba := by
        rw [Image.chain, Walks.walk_succ]
        rw [Image.chain] at hlba
        rw [hlba, Option.bind_some, Image.link, hentries]
        have hfind : sc.mbrEntries.find? (im.isLink b shift) = some entry := by
          have hsplit := List.take_append_drop (sc.partitionIndex + 1) sc.mbrEntries
          rw [← hsplit, htake, List.append_assoc, List.find?_append,
            List.find?_eq_none.mpr fun e he => by rw [h.passed e he]; exact Bool.false_ne_true, Option.none_or,
            List.singleton_append, List.find?_cons_of_pos hlink]
        rw [hfind]
        rfl
      refine ⟨_, rfl, Or.inr ⟨hlink, ⟨h.state, rfl, ?_, rfl, Nat.zero_le _, List.forall_mem_nil _⟩, rfl⟩⟩
      rw [hchain, Option.map_some, hrecords]
    · rename_i htype
      have hno : im.isLink b shift entry = false := by
        rw [Image.isLink, beq_eq_false_iff_ne.mpr htype, Bool.false_and]
      exact ⟨_, rfl, Or.inl ⟨hno, ⟨h.state, rfl, h.entries, h.count, hlt, hnext hno⟩, rfl, rfl⟩⟩

theorem AtChain.pass_end (h : AtChain b im shift k sc) (hend : sc.partitionIndex = sc.mbrEntries.length) :
    (DiskStorage.pass (b := b) env sc im).proceed = none := by
  rw [DiskStorage.pass, if_neg (by rw [h.count]; omega)]
  rfl

/-- The state after a number of passes is further along the chain, or at a later record of
the same boot record. -/
theorem AtChain.passes (h : AtChain b im shift k sc) (hshift : 9 ≤ shift) {s : Scanner × Image}
    (hp : DiskStorage.passes b env (n + 1) sc im = some s) :
    s.2 = im ∧ ∃ k', AtChain b im shift k' s.1 ∧
      (k < k' ∨ k' = k ∧ s.1.mbrEntries = sc.mbrEntries ∧ sc.partitionIndex < s.1.partitionIndex) := by
  induction n generalizing sc k with
  | zero =>
    obtain ⟨s₁, hs₁, hrest⟩ := Option.bind_eq_some_iff.mp hp
    cases hrest
    obtain hlt | hend := Nat.lt_or_eq_of_le h.index
    · obtain ⟨sc', hsc', hnext⟩ := h.pass env hshift hlt
      rw [hsc'] at hs₁
      cases hs₁
      refine ⟨rfl, ?_⟩
      rcases hnext with ⟨-, hat, he, hi⟩ | ⟨-, hat, _⟩
      · exact ⟨k, hat, Or.inr ⟨rfl, he, by simp only [hi]; omega⟩⟩
      · exact ⟨k + 1, hat, Or.inl (Nat.lt_succ_self k)⟩
    · rw [h.pass_end hend] at hs₁
      cases hs₁
  | succ n ih =>
    obtain ⟨s₁, hs₁, hrest⟩ := Option.bind_eq_some_iff.mp hp
    obtain hlt | hend := Nat.lt_or_eq_of_le h.index
    · obtain ⟨sc', hsc', hnext⟩ := h.pass env hshift hlt
      rw [hsc'] at hs₁
      cases hs₁
      rcases hnext with ⟨-, hat, he, hi⟩ | ⟨-, hat, _⟩
      · obtain ⟨hd, k', hat', hfar⟩ := ih hat hrest
        refine ⟨hd, k', hat', ?_⟩
        rcases hfar with hlt' | ⟨hk, he', hi'⟩
        · exact Or.inl hlt'
        · exact Or.inr ⟨hk, he'.trans he, by omega⟩
      · obtain ⟨hd, k', hat', hfar⟩ := ih hat hrest
        refine ⟨hd, k', hat', Or.inl ?_⟩
        rcases hfar with hlt' | ⟨hk, _⟩ <;> omega
    · rw [h.pass_end hend] at hs₁
      cases hs₁

theorem AtChain.ends (h : AtChain b im shift k sc) (hshift : 9 ≤ shift) {last : Nat}
    (hlast : im.chain b shift last = none) : ∃ n, DiskStorage.passes b env n sc im = none := by
  -- by the boot records left in the chain, and the records left in the present one
  have hk : k < last := by
    apply Nat.lt_of_not_le
    intro hle
    have hnone := Walks.walk_none hle hlast
    have hentries := h.entries
    rw [Image.chain, hnone] at hentries
    cases hentries
  induction hrest : last - k using Nat.strong_induction_on generalizing k sc with
  | _ rest ih =>
    subst hrest
    induction hleft : sc.mbrEntries.length - sc.partitionIndex generalizing sc with
    | zero =>
      have hend : sc.partitionIndex = sc.mbrEntries.length := by
        have := h.index
        omega
      exact ⟨1, by rw [DiskStorage.passes, h.pass_end hend]; rfl⟩
    | succ left ihleft =>
      obtain ⟨sc', hsc', hnext⟩ := h.pass env hshift (by omega)
      have hpasses : ∀ n, DiskStorage.passes b env n sc' im = none →
          DiskStorage.passes b env (n + 1) sc im = none := by
        intro n hn
        rw [DiskStorage.passes, hsc']
        exact hn
      rcases hnext with ⟨-, hat, he, hi⟩ | ⟨-, hat, _⟩
      · obtain ⟨n, hn⟩ := ihleft hat (by rw [he]; omega)
        exact ⟨n + 1, hpasses n hn⟩
      · have hk' : k + 1 < last := by
          apply Nat.lt_of_not_le
          intro hle
          have hnone := Walks.walk_none hle hlast
          have hentries := hat.entries
          rw [Image.chain, hnone] at hentries
          cases hentries
        obtain ⟨n, hn⟩ := ih (last - (k + 1)) (by omega) hat hk' rfl
        exact ⟨n + 1, hpasses n hn⟩

variable (env) in
theorem AtChain.follows (h : AtChain b im shift k sc) (hshift : 9 ≤ shift)
    (hnext : im.chain b shift (k + 1) ≠ none) :
    ∃ n sc', DiskStorage.passes b env (n + 1) sc im = some (sc', im) ∧ AtChain b im shift (k + 1) sc' ∧
      sc'.partitionIndex = 0 := by
  induction hleft : sc.mbrEntries.length - sc.partitionIndex generalizing sc with
  | zero =>
    -- without a link among the records the chain would end here
    refine absurd ?_ hnext
    have hend : sc.mbrEntries.length ≤ sc.partitionIndex := by omega
    obtain ⟨lba, hlba, hentries⟩ := Option.map_eq_some_iff.mp h.entries
    have hpassed := h.passed
    rw [List.take_of_length_le hend] at hpassed
    rw [Image.chain, Walks.walk_succ]
    rw [Image.chain] at hlba
    rw [hlba, Option.bind_some, Image.link, hentries,
      List.find?_eq_none.mpr fun e he => by rw [hpassed e he]; exact Bool.false_ne_true]
    rfl
  | succ left ih =>
    obtain ⟨sc', hsc', hstep⟩ := h.pass env hshift (by omega)
    rcases hstep with ⟨-, hat, he, hi⟩ | ⟨-, hat, hi⟩
    · obtain ⟨n, sc'', hn, hat'', hi''⟩ := ih hat (by rw [he]; omega)
      refine ⟨n + 1, sc'', ?_, hat'', hi''⟩
      rw [DiskStorage.passes, hsc']
      exact hn
    · refine ⟨0, sc', ?_, hat, hi⟩
      rw [DiskStorage.passes, hsc']
      rfl

variable (env) in
theorem AtChain.follows_many (h : AtChain b im shift k sc) (hshift : 9 ≤ shift) {d : Nat}
    (hfar : im.chain b shift (k + (d + 1)) ≠ none) :
    ∃ n sc', DiskStorage.passes b env (n + 1) sc im = some (sc', im) ∧ AtChain b im shift (k + (d + 1)) sc' ∧
      sc'.partitionIndex = 0 := by
  induction d with
  | zero => exact h.follows env hshift hfar
  | succ d ih =>
    have hbefore : im.chain b shift (k + (d + 1)) ≠ none := fun hnone =>
      hfar (Walks.walk_none (Nat.le_succ _) hnone)
    obtain ⟨n, sc₁, hn, hat₁, _⟩ := ih hbefore
    obtain ⟨m, sc₂, hm, hat₂, hi₂⟩ := hat₁.follows env hshift hfar
    refine ⟨n + 1 + m, sc₂, ?_, hat₂, hi₂⟩
    rw [Nat.add_assoc, passes_add, hn]
    exact hm

private theorem passGpt_proceed {σ : Type} [Device σ] {device : σ} {p : Scanner × σ}
    (h : (passGpt (b := b) env sc device).proceed = some p) :
    p.1.partitionIndex = sc.partitionIndex + 1 ∧ p.1.numPartitionEntries = sc.numPartitionEntries := by
  have hentry : ∀ {sc₁ : Scanner} {d : σ}, (passGptEntry (b := b) env sc₁ d).proceed = some p →
      p.1.partitionIndex = sc₁.partitionIndex + 1 ∧ p.1.numPartitionEntries = sc₁.numPartitionEntries := by
    intro sc₁ d h
    rw [passGptEntry] at h
    split at h
    · cases h
      exact ⟨rfl, rfl⟩
    · split at h
      · cases h
        exact ⟨rfl, rfl⟩
      · split at h
        all_goals
          cases h
          exact ⟨rfl, rfl⟩
  rw [passGpt] at h
  split at h
  · split at h
    · cases h
    · obtain ⟨h1, h2⟩ := hentry h
      exact ⟨h1, h2⟩
  · exact hentry h

theorem gpt_ends {σ : Type} [Device σ] {device : σ} (hstate : sc.state = .gpt) :
    ∃ n, passes b env n sc device = none := by
  induction hleft : sc.numPartitionEntries - sc.partitionIndex generalizing sc device with
  | zero =>
    refine ⟨1, ?_⟩
    rw [passes, pass, if_neg (by omega)]
    rfl
  | succ left ih =>
    cases hp : (pass (b := b) env sc device).proceed with
    | none => exact ⟨1, by rw [passes, hp]; rfl⟩
    | some p =>
      have hstate' := (pass_state hp).trans hstate
      rw [pass, if_pos (by omega), hstate] at hp
      obtain ⟨hi, hn⟩ := passGpt_proceed hp
      obtain ⟨n, hn⟩ := @ih p.1 p.2 hstate' (by omega)
      refine ⟨n + 1, ?_⟩
      rw [passes, pass, if_pos (by omega), hstate]
      simp only [hp]
      exact hn

/-- What the table of an image is opened as. -/
theorem opened_cases {s : Scanner × Image} (h : opened b env im = some s) :
    s.2 = im ∧ (s.1.state = .done ∧ s.1.partitionIndex = s.1.numPartitionEntries ∨
      (s.1.state = .gpt ∧ 9 ≤ s.1.sectorSizeShift ∧ s.1.sectorSize = 2 ^ s.1.sectorSizeShift ∧ s.1.partitionIndex = 0) ∨
      s.1.state = .mbr ∧ 9 ≤ s.1.sectorSizeShift ∧ AtChain b im s.1.sectorSizeShift 0 s.1 ∧
      s.1.partitionIndex = 0) := by
  rw [opened, openTable] at h
  cases hsize : chooseSectorSize b im with
  | none =>
    rw [hsize] at h
    cases h
  | some size =>
    obtain ⟨hshift, _⟩ := chooseSectorSize_shift hsize
    simp only [hsize, readSector_image] at h
    split at h
    · cases h
    · split at h
      · cases h
      · rename_i hread
        split at hread
        · cases hread
          split at h
          · cases h
            exact ⟨rfl, Or.inl ⟨rfl, rfl⟩⟩
          · split at h
            · cases h
            · split at h
              · rw [openGpt] at h
                simp only [readSector_image] at h
                split at h
                · cases h
                · rename_i hread
                  split at hread
                  · cases hread
                    split at h
                    · split at h
                      · cases h
                      · cases h
                        exact ⟨rfl, Or.inr (Or.inl ⟨rfl, hshift, chooseSectorSize_pow hsize, rfl⟩)⟩
                    · cases h
                  · cases hread
              · cases h
                refine ⟨rfl, Or.inr (Or.inr ⟨rfl, hshift,
                  ⟨rfl, rfl, ?_, rfl, Nat.zero_le _, fun e he => nomatch he⟩, rfl⟩)⟩
                exact congrArg some (scanMbrEntries_congr (fun i hi => (patch_sector _ hshift 0 hi).symm) 0)
        · cases hread

theorem opened_mbr {s : Scanner × Image} (h : opened b env im = some s) (hmbr : s.1.state = .mbr) :
    s.2 = im ∧ 9 ≤ s.1.sectorSizeShift ∧ AtChain b im s.1.sectorSizeShift 0 s.1 ∧ s.1.partitionIndex = 0 := by
  obtain ⟨him, ⟨hst, _⟩ | ⟨hst, _⟩ | ⟨_, hchain⟩⟩ := opened_cases h
  · rw [hst] at hmbr
    cases hmbr
  · rw [hst] at hmbr
    cases hmbr
  · exact ⟨him, hchain⟩

theorem opened_not_idle {s : Scanner × Image} (h : opened b env im = some s) : s.1.state ≠ .idle := by
  obtain ⟨_, ⟨hst, _⟩ | ⟨hst, _⟩ | ⟨hst, _⟩⟩ := opened_cases h
  all_goals
    rw [hst]
    decide

private theorem opened_ends {s : Scanner × Image} (h : opened b env im = some s)
    (hacyclic : s.1.state = .mbr → NoRepeat (some 0) (im.link b s.1.sectorSizeShift)) :
    ∃ n, passes b env n s.1 s.2 = none := by
  obtain ⟨him, ⟨_, hend⟩ | ⟨hgpt, _⟩ | ⟨hmbr, hshift, hat, _⟩⟩ := opened_cases h
  · refine ⟨1, ?_⟩
    rw [passes, pass, if_neg (by omega)]
    rfl
  · exact gpt_ends hgpt
  · obtain ⟨s₁, s₂⟩ := s
    obtain rfl : s₂ = im := him
    have : Finite UInt32 := Finite.of_injective UInt32.toFin fun _ _ => UInt32.toFin_inj.mp
    obtain ⟨last, hlast⟩ := (hacyclic hmbr).ends
    exact hat.ends hshift hlast

private theorem scan_ends {n : Nat} (h : ∀ s, opened b env im = some s → passes b env n s.1 s.2 = none) :
    ∃ fuel, scanPartitions (b := b) env fuel im ≠ none := by
  refine ⟨n + 2, ?_⟩
  rw [scanPartitions, scanLoop, next, if_pos (show Scanner.new.state = .idle from rfl)]
  rw [opened] at h
  cases hopen : openTable (b := b) env Scanner.new im with
  | aborted => exact Option.some_ne_none _
  | returned part sc device =>
    cases part with
    | none => exact Option.some_ne_none _
    | some part =>
      have hs : opened b env im = some (sc, device) := by rw [opened, hopen]; rfl
      exact scanLoop_ends (opened_not_idle hs) (h _ (by rw [hopen]; rfl)) le_rfl _
  | again sc device =>
    have hs : opened b env im = some (sc, device) := by rw [opened, hopen]; rfl
    have hstate : sc.state ≠ .idle := opened_not_idle hs
    have hends := scanLoop_ends hstate (h _ (by rw [hopen]; rfl)) (Nat.le_succ n) []
    rw [scanLoop, next, if_neg hstate] at hends
    exact hends

/-- Without a repetition in the chain no configuration recurs: a configuration determines
what the chain goes on with. -/
theorem configuration_ne {k₁ k₂ : Nat} {sc₁ sc₂ : Scanner}
    (hacyclic : NoRepeat (some 0) (im.link b shift)) (h₁ : AtChain b im shift k₁ sc₁) (h₂ : AtChain b im shift k₂ sc₂)
    (hlt : k₁ < k₂) : sc₁.mbrEntries ≠ sc₂.mbrEntries := by
  intro heq
  obtain ⟨lba₁, hlba₁, he₁⟩ := Option.map_eq_some_iff.mp h₁.entries
  obtain ⟨lba₂, hlba₂, he₂⟩ := Option.map_eq_some_iff.mp h₂.entries
  rw [Image.chain] at hlba₁ hlba₂
  have hnext : walk (some 0) (im.link b shift) (k₁ + 1) = walk (some 0) (im.link b shift) (k₂ + 1) := by
    rw [Walks.walk_succ, Walks.walk_succ, hlba₁, hlba₂, Option.bind_some, Option.bind_some, Image.link, Image.link,
      he₁, he₂, heq]
  have hnone := Walks.walk_none hlt (hacyclic _ _ (Nat.succ_lt_succ hlt) hnext)
  rw [hlba₂] at hnone
  cases hnone

theorem terminates_of_noRepeat
    (h : ∀ s, opened b env im = some s → s.1.state = .mbr → NoRepeat (some 0) (im.link b s.1.sectorSizeShift)) :
    ScanTerminates b env im where
  scan := by
    cases hs : opened b env im with
    | none => exact scan_ends (n := 0) fun s heq => by rw [hs] at heq; cases heq
    | some s =>
      obtain ⟨n, hn⟩ := opened_ends hs (h s hs)
      exact scan_ends fun s' heq => by rw [hs] at heq; cases heq; exact hn
  calls := by
    intro s hs n sc device hn
    obtain ⟨m, hm⟩ := opened_ends hs (h s hs)
    have hall := passes_none (Nat.le_add_left m n) hm
    rw [passes_add, hn] at hall
    exact ⟨m, nextLoop_ends hall le_rfl⟩
  configurations := by
    intro s hs m n s₁ s₂ hmn h₁ h₂ hst _
    have hmbr : s.1.state = .mbr := (passes_state h₁).symm.trans hst
    obtain ⟨him, hshift, hat, _⟩ := opened_mbr hs hmbr
    have hacyclic := h s hs hmbr
    obtain ⟨sc, device⟩ := s
    obtain rfl : device = im := him
    -- the place of the first configuration in the chain, and the later one from there
    have hfirst : s₁.2 = device ∧ ∃ k, AtChain b device sc.sectorSizeShift k s₁.1 := by
      rcases m with _ | m
      · cases h₁
        exact ⟨rfl, 0, hat⟩
      · obtain ⟨hd, k, hk, _⟩ := hat.passes hshift h₁
        exact ⟨hd, k, hk⟩
    obtain ⟨hd, k₁, hat₁⟩ := hfirst
    obtain ⟨d, rfl⟩ := Nat.exists_eq_add_of_lt hmn
    rw [Nat.add_assoc, passes_add, h₁, Option.bind_some, hd] at h₂
    obtain ⟨_, k₂, hat₂, hlt | ⟨_, _, hi⟩⟩ := hat₁.passes hshift h₂
    · intro heq
      exact configuration_ne hacyclic hat₁ hat₂ hlt (congrArg Prod.fst heq)
    · intro heq
      have hindex := congrArg (fun c => c.2.1) heq
      simp only [Scanner.configuration] at hindex
      omega

private theorem noRepeat_of_terminates (h : ScanTerminates b env im) {s : Scanner × Image}
    (hs : opened b env im = some s) (hmbr : s.1.state = .mbr) : NoRepeat (some 0) (im.link b s.1.sectorSizeShift) := by
  intro i j hij hchain
  apply Option.eq_none_iff_forall_ne_some.mpr
  intro lba hlba
  obtain ⟨him, hshift, hat, hzero⟩ := opened_mbr hs hmbr
  obtain ⟨sc, device⟩ := s
  obtain rfl : device = im := him
  -- the scanner comes to the boot record, and from there to it again
  have hfirst : ∃ m sc₁, passes b env m sc device = some (sc₁, device) ∧ AtChain b device sc.sectorSizeShift i sc₁ ∧
      sc₁.partitionIndex = 0 := by
    rcases i with _ | i
    · exact ⟨0, sc, rfl, hat, hzero⟩
    · obtain ⟨m, sc₁, hm, hat₁, hi⟩ := hat.follows_many env hshift (d := i)
        (by rw [Nat.zero_add, Image.chain, hlba]; exact Option.some_ne_none _)
      rw [Nat.zero_add] at hat₁
      exact ⟨m + 1, sc₁, hm, hat₁, hi⟩
  obtain ⟨m, sc₁, hm, hat₁, hi₁⟩ := hfirst
  obtain ⟨d, rfl⟩ := Nat.exists_eq_add_of_lt hij
  obtain ⟨n, sc₂, hn, hat₂, hi₂⟩ := hat₁.follows_many env hshift (d := d)
    (by rw [Image.chain, ← Nat.add_assoc, ← hchain, hlba]; exact Option.some_ne_none _)
  have hsecond : passes b env (m + (n + 1)) sc device = some (sc₂, device) := by
    rw [passes_add, hm]
    exact hn
  apply h.configurations _ hs m (m + (n + 1)) _ _ (by omega) hm hsecond hat₁.state hat₂.state
  have hentries : sc₁.mbrEntries = sc₂.mbrEntries := by
    have h₁ := hat₁.entries
    have h₂ := hat₂.entries
    rw [Image.chain, ← Nat.add_assoc, ← hchain] at h₂
    exact Option.some.inj (h₁.symm.trans h₂)
  rw [Scanner.configuration, Scanner.configuration, hat₁.count, hat₂.count, hentries, hi₁, hi₂]

/-- The scan of a disk image is finite exactly when, if the image has an MBR, the chain of
boot records from sector 0 on comes to no boot record twice. -/
theorem scan_terminates_iff_no_repeat (b : Build) (env : ScanEnv) (im : Image) :
    ScanTerminates b env im ↔
      ∀ s, opened b env im = some s → s.1.state = .mbr → NoRepeat (some 0) (im.link b s.1.sectorSizeShift) :=
  ⟨fun h _ hs hmbr => noRepeat_of_terminates h hs hmbr, terminates_of_noRepeat⟩

/-- A boot record with links in sectors 0 to 2: from 0 to 1, from 1 to 2, and from 2 by
`0xffffffff` sectors on, which is back to 1. -/
def loopedImage : Image where
  bytes i :=
    if i = 510 then 0x55 else if i = 511 then 0xaa
    else if i < 1536 ∧ i % 512 = 450 then OSTYPE_EXTENDED
    else if i < 1536 ∧ i % 512 = 458 then 1
    else if i = 454 ∨ i = 966 then 1
    else if 1478 ≤ i ∧ i < 1482 then 0xff
    else 0
  readable _ _ := true
  sectorSize := 512
  sectorCount := 3

/-- The scan of the looped image goes round for ever. -/
theorem looped_scan_never_ends :
    ¬ ScanTerminates ⟨true, true, true, 512⟩
      ⟨⟨0xff, 1, 2, 0xff⟩, fun _ => [], some fun _ => 0, some fun _ => 0⟩ loopedImage := by
  intro h
  have hmap : (opened ⟨true, true, true, 512⟩
      ⟨⟨0xff, 1, 2, 0xff⟩, fun _ => [], some fun _ => 0, some fun _ => 0⟩ loopedImage).map
        (fun s => (s.1.state, s.1.sectorSizeShift)) = some (.mbr, 9) := by decide +kernel
  obtain ⟨s, hs, heq⟩ := Option.map_eq_some_iff.mp hmap
  have hnorepeat := noRepeat_of_terminates h hs (congrArg Prod.fst heq)
  rw [show s.1.sectorSizeShift = 9 from congrArg Prod.snd heq] at hnorepeat
  exact absurd (hnorepeat 1 3 (by decide) (by decide +kernel)) (by decide +kernel)

end DiskStorage
