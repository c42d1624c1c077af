import DiskStorage.Scanner.Results

/-! The partitions of an MBR scan as a relation between the records in front of the scanner and
those whose partitions it returns. -/
namespace DiskStorage
open ByteStore LittleEndian

variable {b : Build} (env : ScanEnv) {im : Image} {sc : Scanner} {shift : Nat}

/-- The partition is the one of a record, wherever the scanner takes its size and its type from. -/
def PartInfo.OfRecord (part : PartInfo b) (shift : Nat) (entry : MbrRecord) : Prop :=
  part.offset = entry.startingLba.toNat * 2 ^ shift % 2 ^ 32 ∧ part.sysind = entry.osType.toNat

theorem mbrPart_ofRecord (sc : Scanner) (entry : MbrRecord) :
    (mbrPart (b := b) env sc entry).OfRecord sc.sectorSizeShift entry := by
  refine ⟨?_, rfl⟩
  have hword : entry.startingLba.toNat * 2 ^ sc.sectorSizeShift % 2 ^ 32 < 2 ^ 32 := Nat.mod_lt _ (by decide)
  rw [mbrPart]
  dsimp only
  rw [Build.storage_of_lt_word hword]
  cases hident : identify b env.types sc.buffer (entry.startingLba.toNat * 2 ^ sc.sectorSizeShift % 2 ^ 32) with
  | none => exact Build.storage_of_lt_word hword
  | some part => exact (identify_offset hident).trans (Build.storage_of_lt_word hword)

section Relation
variable (b) (im) (shift)

/-- From the records in front of it, the scanner comes to return the partitions of the others, and then null. -/
inductive Yields : List MbrRecord → List MbrRecord → Prop
  | nil : Yields [] []
  | unreadable {e : MbrRecord} {rest es : List MbrRecord} (hread : im.readableAt b shift e.startingLba.toNat = false) :
    Yields rest es → Yields (e :: rest) es
  | link {e : MbrRecord} {rest es : List MbrRecord} (hlink : im.isLink b shift e = true) :
    Yields (im.bootRecords b shift e.startingLba) es → Yields (e :: rest) es
  | part {e : MbrRecord} {rest es : List MbrRecord} (htype : e.osType ≠ OSTYPE_EXTENDED)
    (hread : im.readableAt b shift e.startingLba.toNat = true) : Yields rest es → Yields (e :: rest) (e :: es)

/-- The scanner has these records in front of it. -/
structure Standing (sc : Scanner) (rest : List MbrRecord) : Prop where
  state : sc.state = .mbr
  shift_eq : sc.sectorSizeShift = shift
  count : sc.numPartitionEntries = sc.mbrEntries.length
  rest_eq : sc.mbrEntries.drop sc.partitionIndex = rest

end Relation

variable {rest es : List MbrRecord} {e : MbrRecord}

theorem Yields.unique {es' : List MbrRecord} (h : Yields b im shift rest es) (h' : Yields b im shift rest es') :
    es = es' := by
  induction h generalizing es' with
  | nil =>
    cases h'
    rfl
  | unreadable hread _ ih =>
    cases h' with
    | unreadable _ hrest => exact ih hrest
    | link hlink _ => rw [Image.isLink, hread, Bool.and_false] at hlink; cases hlink
    | part _ hread' _ => rw [hread] at hread'; cases hread'
  | link hlink _ ih =>
    have hboth := (Bool.and_eq_true _ _).mp hlink
    cases h' with
    | unreadable hread _ => rw [hread] at hboth; cases hboth.2
    | link _ hrest => exact ih hrest
    | part htype _ _ => exact absurd (eq_of_beq hboth.1) htype
  | part htype hread _ ih =>
    cases h' with
    | unreadable hread' _ => rw [hread] at hread'; cases hread'
    | link hlink _ => exact absurd (eq_of_beq ((Bool.and_eq_true _ _).mp hlink).1) htype
    | part _ _ hrest => rw [ih hrest]

theorem Yields.append_iff {front : List MbrRecord} (hfront : ∀ e ∈ front, e.osType ≠ OSTYPE_EXTENDED ∧
    im.readableAt b shift e.startingLba.toNat = true) :
    Yields b im shift (front ++ rest) es ↔ ∃ es', es = front ++ es' ∧ Yields b im shift rest es' := by
  induction front generalizing es with
  | nil =>
    constructor
    · intro h
      exact ⟨es, rfl, h⟩
    · rintro ⟨_, rfl, h⟩
      exact h
  | cons e front ih =>
    obtain ⟨htype, hread⟩ := hfront e (List.mem_cons_self ..)
    have ih := fun {es} => @ih es fun e he => hfront e (List.mem_cons_of_mem _ he)
    constructor
    · intro h
      cases h with
      | unreadable hread' _ => rw [hread] at hread'; cases hread'
      | link hlink _ => exact absurd (eq_of_beq ((Bool.and_eq_true _ _).mp hlink).1) htype
      | part _ _ hrest =>
        obtain ⟨es', rfl, h⟩ := ih.mp hrest
        exact ⟨es', rfl, h⟩
    · rintro ⟨es', rfl, h⟩
      exact .part htype hread (ih.mpr ⟨es', rfl, h⟩)

namespace Standing

theorem pass_nil (h : Standing shift sc []) :
    pass (b := b) env sc im = .returned none { sc with state := .done } im := by
  have hle := List.drop_eq_nil_iff.mp h.rest_eq
  rw [pass, if_neg (by rw [h.count]; omega)]

private theorem pass_eq (im : Image) (h : Standing shift sc (e :: rest)) :
    pass (b := b) env sc im = passMbr env sc im e ∧ sc.mbrEntries.drop (sc.partitionIndex + 1) = rest := by
  have hlt : sc.partitionIndex < sc.mbrEntries.length := by
    apply Nat.lt_of_not_le
    intro hle
    have hrest := h.rest_eq
    rw [List.drop_eq_nil_of_le hle] at hrest
    cases hrest
  have hsplit := h.rest_eq
  rw [List.drop_eq_getElem_cons hlt] at hsplit
  obtain ⟨rfl, rfl⟩ := List.cons.inj hsplit
  refine ⟨?_, rfl⟩
  rw [pass, if_pos (by rw [h.count]; exact hlt), h.state]
  dsimp only
  rw [List.getElem?_eq_getElem hlt]

theorem pass_unreadable (h : Standing shift sc (e :: rest))
    (hread : im.readableAt b shift e.startingLba.toNat = false) :
    ∃ sc', pass (b := b) env sc im = .again sc' im ∧ Standing shift sc' rest := by
  obtain ⟨hpass, hrest⟩ := h.pass_eq (b := b) env im
  rw [Image.readableAt] at hread
  rw [hpass, passMbr, readSector_image]
  dsimp only
  rw [h.shift_eq, hread]
  exact ⟨_, rfl, h.state, rfl, h.count, hrest⟩

theorem pass_link (h : Standing shift sc (e :: rest)) (hshift : 9 ≤ shift) (hlink : im.isLink b shift e = true) :
    ∃ sc', pass (b := b) env sc im = .again sc' im ∧ Standing shift sc' (im.bootRecords b shift e.startingLba) := by
  obtain ⟨hpass, -⟩ := h.pass_eq (b := b) env im
  obtain ⟨htype, hread⟩ := (Bool.and_eq_true _ _).mp hlink
  rw [Image.readableAt] at hread
  rw [hpass, passMbr, readSector_image]
  dsimp only
  rw [h.shift_eq, hread, if_pos rfl]
  dsimp only
  rw [if_pos (eq_of_beq htype)]
  refine ⟨_, rfl, h.state, rfl, rfl, ?_⟩
  exact scanMbrEntries_congr (fun i hi => patch_sector _ hshift e.startingLba.toNat hi) _

theorem pass_part (h : Standing shift sc (e :: rest)) (htype : e.osType ≠ OSTYPE_EXTENDED)
    (hread : im.readableAt b shift e.startingLba.toNat = true) :
    ∃ part sc', pass (b := b) env sc im = .returned (some part) sc' im ∧ part.OfRecord shift e ∧
    Standing shift sc' rest := by
  obtain ⟨hpass, hrest⟩ := h.pass_eq (b := b) env im
  rw [Image.readableAt] at hread
  rw [hpass, passMbr, readSector_image]
  dsimp only
  rw [h.shift_eq, hread, if_pos rfl]
  dsimp only
  rw [if_neg htype]
  refine ⟨_, _, rfl, ?_, h.state, rfl, h.count, hrest⟩
  have hpart := mbrPart_ofRecord (b := b) env { sc with
    partitionIndex := sc.partitionIndex + 1
    sectorSizeShift := shift
    buffer := patch sc.buffer 0 (slice im.bytes (sectorAddress b shift e.startingLba.toNat) (2 ^ shift))
    mbrPartID := (sc.mbrPartID + 1) % 2 ^ 16 } e
  exact hpart

end Standing

private theorem Yields.scans (h : Yields b im shift rest es) (hshift : 9 ≤ shift) (hs : Standing shift sc rest) :
    ∃ n parts sc', Scans env n sc im parts sc' im ∧ sc'.state = .done ∧
      List.Forall₂ (fun part e => PartInfo.OfRecord (b := b) part shift e) parts es := by
  induction h generalizing sc with
  | nil => exact ⟨1, [], _, .ends (hs.pass_nil env), rfl, .nil⟩
  | unreadable hread _ ih =>
    obtain ⟨sc₁, hpass, hs₁⟩ := hs.pass_unreadable env hread
    obtain ⟨n, parts, sc', hscans, hdone, hparts⟩ := ih hs₁
    exact ⟨n + 1, parts, sc', .again hpass hscans, hdone, hparts⟩
  | link hlink _ ih =>
    obtain ⟨sc₁, hpass, hs₁⟩ := hs.pass_link env hshift hlink
    obtain ⟨n, parts, sc', hscans, hdone, hparts⟩ := ih hs₁
    exact ⟨n + 1, parts, sc', .again hpass hscans, hdone, hparts⟩
  | part htype hread _ ih =>
    obtain ⟨part, sc₁, hpass, hof, hs₁⟩ := hs.pass_part env htype hread
    obtain ⟨n, parts, sc', hscans, hdone, hparts⟩ := ih hs₁
    exact ⟨n + 1, part :: parts, sc', .returns hpass hscans, hdone, .cons hof hparts⟩

variable {env}

private theorem Standing.nextLoop_cases {fuel : Nat} (hs : Standing shift sc rest) (hshift : 9 ≤ shift)
    {x : Option (Option (PartInfo b) × Scanner × Image)} (h : nextLoop env fuel sc im = some x) :
    (∃ sc', x = some (none, sc', im) ∧ Yields b im shift rest []) ∨
      ∃ part sc' e rest', x = some (some part, sc', im) ∧ part.OfRecord shift e ∧ Standing shift sc' rest' ∧
        ∀ es, Yields b im shift rest' es → Yields b im shift rest (e :: es) := by
  induction fuel generalizing sc rest with
  | zero => cases h
  | succ fuel ih =>
    rw [nextLoop] at h
    cases rest with
    | nil =>
      rw [hs.pass_nil env] at h
      cases h
      exact .inl ⟨_, rfl, .nil⟩
    | cons e rest =>
      cases hread : im.readableAt b shift e.startingLba.toNat with
      | false =>
        obtain ⟨sc₁, hpass, hs₁⟩ := hs.pass_unreadable env hread
        rw [hpass] at h
        rcases ih hs₁ h with ⟨sc', rfl, hyields⟩ | ⟨part, sc', e', rest', rfl, hof, hs', hyields⟩
        · exact .inl ⟨sc', rfl, .unreadable hread hyields⟩
        · exact .inr ⟨part, sc', e', rest', rfl, hof, hs', fun es hes => .unreadable hread (hyields es hes)⟩
      | true =>
        by_cases htype : e.osType = OSTYPE_EXTENDED
        · have hlink : im.isLink b shift e = true := by
            rw [Image.isLink, hread, htype]
            rfl
          obtain ⟨sc₁, hpass, hs₁⟩ := hs.pass_link env hshift hlink
          rw [hpass] at h
          rcases ih hs₁ h with ⟨sc', rfl, hyields⟩ | ⟨part, sc', e', rest', rfl, hof, hs', hyields⟩
          · exact .inl ⟨sc', rfl, .link hlink hyields⟩
          · exact .inr ⟨part, sc', e', rest', rfl, hof, hs', fun es hes => .link hlink (hyields es hes)⟩
        · obtain ⟨part, sc₁, hpass, hof, hs₁⟩ := hs.pass_part env htype hread
          rw [hpass] at h
          cases h
          exact .inr ⟨part, sc₁, e, rest, rfl, hof, hs₁, fun es hes => .part htype hread hes⟩

private theorem Standing.scanLoop_cases {fuel : Nat} (hs : Standing shift sc rest) (hshift : 9 ≤ shift)
    {pt parts : List (PartInfo b)} {res : Bool} {d : Image}
    (h : scanLoop env fuel sc im pt = some (some (res, d, parts))) :
    ∃ es news, Yields b im shift rest es ∧ parts = pt ++ news ∧
      List.Forall₂ (fun part e => PartInfo.OfRecord (b := b) part shift e) news es := by
  induction fuel generalizing sc rest pt with
  | zero => cases h
  | succ fuel ih =>
    rw [scanLoop, next, if_neg (by simp [hs.state])] at h
    cases hnext : nextLoop (b := b) env fuel sc im with
    | none =>
      rw [hnext] at h
      cases h
    | some x =>
      rw [hnext] at h
      rcases hs.nextLoop_cases hshift hnext with ⟨sc', rfl, hyields⟩ | ⟨part, sc', e, rest', rfl, hof, hs', hyields⟩
      · cases h
        exact ⟨[], [], hyields, (List.append_nil _).symm, .nil⟩
      · obtain ⟨es, news, hes, rfl, hnews⟩ := ih hs' h
        exact ⟨e :: es, env.named part :: news, hyields es hes, List.append_assoc .., .cons hof hnews⟩

/-- What scanPartitions returns, if it does, are the partitions of records that the relation gives; -/
theorem Standing.yields_of_scanPartitions {fuel : Nat} (hs : Standing shift sc rest) (hshift : 9 ≤ shift)
    (hopen : openTable (b := b) env Scanner.new im = .again sc im) {parts : List (PartInfo b)} {res : Bool} {d : Image}
    (h : scanPartitions env fuel im = some (some (res, d, parts))) :
    ∃ es, Yields b im shift rest es ∧
    List.Forall₂ (fun part e => PartInfo.OfRecord (b := b) part shift e) parts es := by
  cases fuel with
  | zero => cases h
  | succ fuel =>
    have hloop : scanLoop env (fuel + 1) sc im [] = some (some (res, d, parts)) := by
      rw [scanPartitions, scanLoop, next, if_pos (show Scanner.new.state = .idle from rfl), hopen] at h
      rw [scanLoop, next, if_neg (by simp [hs.state])]
      exact h
    obtain ⟨es, news, hes, rfl, hnews⟩ := hs.scanLoop_cases hshift hloop
    exact ⟨es, hes, hnews⟩

variable (env) in
/-- and it does return when there are such records. -/
theorem Yields.scanPartitions_eq (h : Yields b im shift rest es) (hs : Standing shift sc rest) (hshift : 9 ≤ shift)
    (hopen : openTable (b := b) env Scanner.new im = .again sc im) :
    ∃ fuel parts, scanPartitions env fuel im = some (some (true, im, parts)) ∧
      List.Forall₂ (fun part e => PartInfo.OfRecord (b := b) part shift e) parts es := by
  obtain ⟨n, parts, sc', hscans, hdone, hparts⟩ := h.scans env hshift hs
  have heq := hscans.scanPartitions_eq hopen (by simp [hs.state]) (Nat.lt_succ_self n)
  refine ⟨n + 1, parts.map env.named, ?_, ?_⟩
  · rw [heq, hdone]
    rfl
  · exact List.forall₂_map_left_iff.mpr hparts

end DiskStorage
