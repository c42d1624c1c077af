import DiskStorage.Format.Consistency
import DiskStorage.Lib.Blocks

/-! The writes of formatDisk as a list of sectors, independent of the device. -/
namespace DiskStorage
open ByteStore

/-- Sectors written one after the other, up to the first write that fails. -/
def writeAll {σ : Type} [Device σ] (sectorSize : Nat) : List (Nat × List UInt8) → σ → Bool × σ
  | [], device => (true, device)
  | (sector, src) :: ws, device =>
    match Device.write device (sector * sectorSize) src with
    | (false, device) => (false, device)
    | (true, device) => writeAll sectorSize ws device

/-- And a sync behind them. -/
def writeAndSync {σ : Type} [Device σ] (sectorSize : Nat) (ws : List (Nat × List UInt8)) (device : σ) : Bool × σ :=
  match writeAll sectorSize ws device with
  | (false, device) => (false, device)
  | (true, device) => Device.sync device

namespace GPT
variable {b : Build} (l : Layout b) (parts : List (PartInfo b))

/-- A sector of the entry array. -/
def arraySector (q : Nat) : List UInt8 := block l.sectorSize (arrayBytes l parts) q

/-- The sectors of both tables from the `q`-th on, each to the primary and then to the secondary. -/
def arrayWrites (q : Nat) : List (Nat × List UInt8) :=
  ((List.range l.numPartitionTableSectors).drop q).flatMap fun q =>
    [(2 + q, arraySector l parts q), (l.backupPartitionTableSector + q, arraySector l parts q)]

/-- The working buffer behind the loop, with the padding of the header structure. -/
def headerBuffer (env : FormatEnv) : Nat → UInt8 :=
  patch (fun x => arrayBytes l parts ((l.numPartitionTableSectors - 1) * l.sectorSize + x)) GPT_HEADER_SIZE
    env.headerPadding

/-- With the primary header. -/
def primaryBuffer (env : FormatEnv) (diskGuid : Uuid) : Nat → UInt8 :=
  patch (headerBuffer l parts env) 0 (sealed (primaryHeader l diskGuid (arrayCrc l parts))).encode

/-- With the secondary header. -/
def secondaryBuffer (env : FormatEnv) (diskGuid : Uuid) : Nat → UInt8 :=
  patch (primaryBuffer l parts env diskGuid) 0
    (sealed (secondaryHeader l (primaryHeader l diskGuid (arrayCrc l parts)))).encode

/-- All that is written for a table: the entry arrays, the headers, and last the protective MBR. -/
def tableWrites (env : FormatEnv) (diskGuid : Uuid) : List (Nat × List UInt8) :=
  arrayWrites l parts 0 ++
    [(1, block l.sectorSize (primaryBuffer l parts env diskGuid) 0),
      (l.driveSectors - 1, block l.sectorSize (secondaryBuffer l parts env diskGuid) 0),
      (0, block l.sectorSize (patch (secondaryBuffer l parts env diskGuid) 0 (protectiveMbr l)) 0)]

variable {l parts}

theorem arrayWrites_succ {q : Nat} (hq : q < l.numPartitionTableSectors) :
    arrayWrites l parts q = (2 + q, arraySector l parts q) ::
      (l.backupPartitionTableSector + q, arraySector l parts q) :: arrayWrites l parts (q + 1) := by
  rw [arrayWrites, List.drop_eq_getElem_cons (by rwa [List.length_range]), List.getElem_range]
  rfl

theorem arrayWrites_end : arrayWrites l parts l.numPartitionTableSectors = [] := by
  rw [arrayWrites, List.drop_of_length_le (by rw [List.length_range]), List.flatMap_nil]

/-- The sectors of the device that hold the table: those at the start, and the backup at the end. -/
def Layout.TableSector (l : Layout b) (s : Nat) : Prop :=
  s < 2 + l.numPartitionTableSectors ∨ l.backupPartitionTableSector ≤ s ∧ s < l.driveSectors

section Sectors
variable {env : FormatEnv} {diskGuid : Uuid} {e : Nat × List UInt8} {q : Nat}

theorem mem_arrayWrites (h : e ∈ arrayWrites l parts 0) :
    ∃ q < l.numPartitionTableSectors, (e.1 = 2 + q ∨ e.1 = l.backupPartitionTableSector + q) ∧
      e.2 = arraySector l parts q := by
  obtain ⟨q, hq, he⟩ := List.mem_flatMap.mp h
  rw [List.drop_zero, List.mem_range] at hq
  rcases List.mem_cons.mp he with rfl | he
  · exact ⟨q, hq, .inl rfl, rfl⟩
  · obtain rfl := List.mem_singleton.mp he
    exact ⟨q, hq, .inr rfl, rfl⟩

theorem whole_tableWrites : Whole l.sectorSize (tableWrites l parts env diskGuid) := by
  intro e he
  rcases List.mem_append.mp he with he | he
  · obtain ⟨q, _, _, hsector⟩ := mem_arrayWrites he
    rw [hsector]
    exact length_block ..
  · simp only [List.mem_cons, List.not_mem_nil, or_false] at he
    rcases he with rfl | rfl | rfl <;> exact length_block ..

theorem tableSector_of_mem (hl : l.Fits) (h : e ∈ tableWrites l parts env diskGuid) : l.TableSector e.1 := by
  have hroom := hl.room
  have hfirst := hl.first_le
  have hbackup := hl.backup_eq
  rcases List.mem_append.mp h with he | he
  · obtain ⟨q, hq, hsector | hsector, _⟩ := mem_arrayWrites he
    · exact .inl (by omega)
    · exact .inr (by omega)
  · simp only [List.mem_cons, List.not_mem_nil, or_false] at he
    rcases he with rfl | rfl | rfl
    · exact .inl (by dsimp only; omega)
    · exact .inr (by dsimp only; omega)
    · exact .inl (by dsimp only; omega)

theorem Layout.TableSector.lt (hl : l.Fits) {s : Nat} (h : l.TableSector s) : s < l.driveSectors := by
  have hroom := hl.room
  have hfirst := hl.first_le
  rcases h with h | h <;> omega

variable (parts env diskGuid)

theorem nodup_tableWrites (hl : l.Fits) : ((tableWrites l parts env diskGuid).map Prod.fst).Nodup := by
  have hroom := hl.room
  have hfirst := hl.first_le
  have hbackup := hl.backup_eq
  have hapart := hl.tables_apart
  rw [tableWrites, List.map_append, List.nodup_append]
  refine ⟨?_, ?_, ?_⟩
  · rw [arrayWrites, List.drop_zero, List.map_flatMap, List.nodup_flatMap]
    constructor
    · intro q hq
      rw [List.mem_range] at hq
      simp only [List.map_cons, List.map_nil, List.nodup_cons, List.mem_singleton, List.not_mem_nil, not_false_eq_true,
        List.nodup_nil, and_true]
      omega
    · refine List.pairwise_lt_range.imp_of_mem fun {p q} hp hq hlt => ?_
      rw [List.mem_range] at hp hq
      simp only [Function.onFun, List.map_cons, List.map_nil, List.disjoint_cons_left, List.mem_cons, List.not_mem_nil,
        or_false, List.disjoint_nil_left, and_true]
      omega
  · simp only [List.map_cons, List.map_nil, List.nodup_cons, List.mem_cons, List.not_mem_nil, or_false,
      not_false_eq_true, List.nodup_nil, and_true]
    omega
  · intro s hs t ht
    obtain ⟨e, he, rfl⟩ := List.mem_map.mp hs
    obtain ⟨q, hq, hsector, _⟩ := mem_arrayWrites he
    simp only [List.map_cons, List.map_nil, List.mem_cons, List.not_mem_nil, or_false] at ht
    omega

/-- The protective MBR is written last, and sector 0 not before. -/
theorem tableWrites_last (hl : l.Fits) : ∃ init v, tableWrites l parts env diskGuid = init ++ [(0, v)] ∧
    0 ∉ init.map Prod.fst := by
  have hnodup := nodup_tableWrites parts env diskGuid hl
  have hsplit : tableWrites l parts env diskGuid = (arrayWrites l parts 0 ++
      [(1, block l.sectorSize (primaryBuffer l parts env diskGuid) 0),
        (l.driveSectors - 1, block l.sectorSize (secondaryBuffer l parts env diskGuid) 0)]) ++
      [(0, block l.sectorSize (patch (secondaryBuffer l parts env diskGuid) 0 (protectiveMbr l)) 0)] := by
    rw [List.append_assoc]
    rfl
  rw [hsplit, List.map_append, List.nodup_append] at hnodup
  refine ⟨_, _, hsplit, ?_⟩
  exact fun hmem => hnodup.2.2 0 hmem 0 List.mem_cons_self rfl

variable {parts env diskGuid}

private theorem overwrite_arrayWrites (hl : l.Fits) (f : Nat → UInt8) {left : Nat}
    (h : q + left = l.numPartitionTableSectors) :
    overwrite l.sectorSize (tablesWritten l parts f q) (arrayWrites l parts q) =
      tablesWritten l parts f l.numPartitionTableSectors := by
  induction left generalizing q with
  | zero =>
    obtain rfl : q = l.numPartitionTableSectors := h
    rw [arrayWrites_end, overwrite_nil]
  | succ left ih =>
    have hq : q < l.numPartitionTableSectors := by omega
    rw [arrayWrites_succ hq, overwrite_cons, overwrite_cons]
    apply (congrArg (overwrite l.sectorSize · _) (tablesWritten_succ hl.toRoomy f hq)).trans
    exact ih (by omega)

theorem overwrite_tableWrites (hl : l.Fits) (f : Nat → UInt8) (env : FormatEnv) (diskGuid : Uuid) :
    overwrite l.sectorSize f (tableWrites l parts env diskGuid) =
      headersWritten l parts diskGuid f (headerBuffer l parts env) (primaryBuffer l parts env diskGuid)
        (secondaryBuffer l parts env diskGuid) := by
  have harray : overwrite l.sectorSize (tablesWritten l parts f 0) (arrayWrites l parts 0) = _ :=
    overwrite_arrayWrites hl f (Nat.zero_add l.numPartitionTableSectors)
  have hstart : tablesWritten l parts f 0 = f := by
    rw [tablesWritten, Nat.zero_mul, slice_zero, patch_nil, patch_nil]
  rw [hstart] at harray
  rw [tableWrites, overwrite_append, harray, headersWritten]
  simp only [overwrite_cons, overwrite_nil, block, Nat.zero_mul]
  rfl

theorem partitioned_tableWrites (hl : l.Fits) (f : Nat → UInt8) (env : FormatEnv) (diskGuid : Uuid) :
    Partitioned l diskGuid parts (overwrite l.sectorSize f (tableWrites l parts env diskGuid)) := by
  rw [overwrite_tableWrites hl]
  exact headersWritten_partitioned hl

end Sectors

section Device
variable {σ : Type} [Device σ]

theorem writeAll_singleton (sectorSize : Nat) (w : Nat × List UInt8) (d : σ) :
    writeAll sectorSize [w] d = Device.write d (w.1 * sectorSize) w.2 := by
  rw [writeAll]
  rcases Device.write d (w.1 * sectorSize) w.2 with ⟨ok, d₁⟩
  cases ok <;> rfl

theorem writeAll_append (sectorSize : Nat) (ws vs : List (Nat × List UInt8)) (d : σ) :
    writeAll sectorSize (ws ++ vs) d =
      match writeAll sectorSize ws d with
      | (false, d) => (false, d)
      | (true, d) => writeAll sectorSize vs d := by
  induction ws generalizing d with
  | nil => rfl
  | cons w ws ih =>
    rw [List.cons_append, writeAll, writeAll]
    rcases Device.write d (w.1 * sectorSize) w.2 with ⟨ok, d₁⟩
    cases ok with
    | false => rfl
    | true => exact ih d₁

theorem writeAll_split {sectorSize : Nat} (ws : List (Nat × List UInt8)) {vs : List (Nat × List UInt8)} {d d' : σ}
    (h : writeAll sectorSize (ws ++ vs) d = (true, d')) :
    ∃ d₁, writeAll sectorSize ws d = (true, d₁) ∧ writeAll sectorSize vs d₁ = (true, d') := by
  rw [writeAll_append] at h
  split at h
  · cases h
  · exact ⟨_, ‹_›, h⟩

theorem writeSector_eq (hl : l.Fits) {sector : Nat} (hs : sector < l.driveSectors) (buffer : Nat → UInt8) (d : σ) :
    writeSector b l.shift d sector buffer = Device.write d (sector * l.sectorSize) (block l.sectorSize buffer 0) := by
  rw [writeSector, hl.sectorAddress_eq hs, ← hl.pow, block, Nat.zero_mul]

theorem block_buffer {f g : Nat → UInt8} (h : ∀ x < l.sectorSize, f x = g x) :
    block l.sectorSize f 0 = block l.sectorSize g 0 := by
  apply block_congr
  intro x hx
  rw [Nat.zero_mul, Nat.zero_add]
  exact h x hx

theorem entryLoop_eq (hl : l.Fits) (left : Nat) {index : Nat} {st : EntryLoop b} (hst : LoopState l parts index st)
    (hlast : index = GPT_ITEMS → ∀ x < l.sectorSize,
      st.buffer x = arrayBytes l parts ((l.numPartitionTableSectors - 1) * l.sectorSize + x))
    (hend : index + left = GPT_ITEMS) :
    ∃ st', st'.bcc = arrayCrc l parts ∧
      (∀ x < l.sectorSize, st'.buffer x =
        arrayBytes l parts ((l.numPartitionTableSectors - 1) * l.sectorSize + x)) ∧
      ∀ d : σ, entryLoop l left index st d =
        match writeAll l.sectorSize (arrayWrites l parts (index / l.entriesPerSector)) d with
        | (false, d) => (none, d)
        | (true, d) => (some st', d) := by
  induction left generalizing index st with
  | zero =>
    have hindex : index = GPT_ITEMS := hend
    have hq : index / l.entriesPerSector = l.numPartitionTableSectors := by
      rw [hindex, ← hl.items, Nat.mul_div_cancel _ hl.entries_pos]
    refine ⟨st, ?_, hlast hindex, fun d => ?_⟩
    · rw [hst.bcc_eq, hindex]
      rfl
    · rw [hq, arrayWrites_end]
      rfl
  | succ left ih =>
    have hnext := hst.next hl.toRoomy
    have hmod := Nat.mod_lt index hl.entries_pos
    obtain ⟨_, _, hbuffer⟩ := hst.addEntry hl.toRoomy
    by_cases hfull : index % l.entriesPerSector + 1 = l.entriesPerSector
    · have hdiv := (next_sector hl.toRoomy hfull).1
      have hq := hl.arraySector_lt (by omega) hfull
      have hsector : ∀ x < l.sectorSize, (addEntry l index st).buffer x =
          arrayBytes l parts (index / l.entriesPerSector * l.sectorSize + x) := by
        intro x hx
        rw [hbuffer x hx, hfull, hl.entries_mul, if_pos hx]
      have hblock : block l.sectorSize (addEntry l index st).buffer 0 = arraySector l parts
          (index / l.entriesPerSector) := by
        apply block_congr
        intro x hx
        rw [Nat.zero_mul, Nat.zero_add]
        exact hsector x hx
      obtain ⟨st', hbcc, hlast', hloop⟩ := ih hnext (fun hitems x hx => by
        rw [hitems, ← hl.items, Nat.mul_div_cancel _ hl.entries_pos] at hdiv
        rw [hsector x hx, hdiv, Nat.add_sub_cancel]) (by omega)
      refine ⟨st', hbcc, hlast', fun d => ?_⟩
      have hroom := hl.room
      have hfirst := hl.first_le
      have hbackup := hl.backup_eq
      have hdrive := hl.drive_lt
      rw [arrayWrites_succ hq, writeAll, entryLoop, passEntry]
      dsimp only
      rw [if_pos hfull, writeSector_eq hl (by omega), hblock]
      rcases Device.write d ((2 + index / l.entriesPerSector) * l.sectorSize)
        (arraySector l parts (index / l.entriesPerSector)) with ⟨ok, d₁⟩
      cases ok with
      | false => rfl
      | true =>
        dsimp only
        rw [writeAll, u64_of_lt (Build.lt_u64 (b := b) (by omega)), writeSector_eq hl (by omega), hblock]
        rcases Device.write d₁ ((l.backupPartitionTableSector + index / l.entriesPerSector) * l.sectorSize)
          (arraySector l parts (index / l.entriesPerSector)) with ⟨ok, d₂⟩
        cases ok with
        | false => rfl
        | true =>
          dsimp only
          rw [hloop d₂, hdiv]
    · obtain ⟨hdiv, hmod'⟩ := next_index hl.toRoomy (Nat.lt_of_le_of_ne hmod hfull)
      have hitems : index + 1 ≠ GPT_ITEMS := by
        intro hitems
        rw [hitems, ← hl.items, Nat.mul_mod_left] at hmod'
        omega
      obtain ⟨st', hbcc, hlast', hloop⟩ := ih hnext (fun h => absurd h hitems) (by omega)
      refine ⟨st', hbcc, hlast', fun d => ?_⟩
      rw [entryLoop, passEntry]
      dsimp only
      rw [if_neg hfull, ← hdiv]
      exact hloop d

/-- What formatDisk does behind validate, for any device: the writes of the table, and a sync. -/
theorem writeTables_eq (hl : l.Fits) (env : FormatEnv) (buffer : Nat → UInt8) (diskGuid : Uuid) (d : σ) :
    writeTables l env buffer diskGuid parts d =
      writeAndSync l.sectorSize (tableWrites l parts env (if diskGuid.isNull then env.generated else diskGuid)) d := by
  have hroom := hl.room
  have hfirst := hl.first_le
  obtain ⟨st, hbcc, hlast, hloop⟩ := entryLoop_eq (σ := σ) hl GPT_ITEMS
    (LoopState.start : LoopState l parts 0 ⟨buffer, 0, parts⟩) (fun h => absurd h (by decide)) (Nat.zero_add _)
  rw [Nat.zero_div] at hloop
  rw [writeTables, hloop d, writeAndSync, tableWrites, writeAll_append]
  rcases writeAll l.sectorSize (arrayWrites l parts 0) d with ⟨ok, d₁⟩
  cases ok with
  | false => rfl
  | true =>
    dsimp only
    rw [hbcc]
    generalize (if diskGuid.isNull then env.generated else diskGuid) = guid
    -- the buffer holds the last sector of the array in front of the headers
    have hheader : ∀ x < l.sectorSize, patch st.buffer GPT_HEADER_SIZE env.headerPadding x =
        headerBuffer l parts env x := by
      intro x hx
      exact patch_congr (hlast x hx) _ _
    have hprimary : ∀ x < l.sectorSize, patch (patch st.buffer GPT_HEADER_SIZE env.headerPadding) 0
        (sealed (primaryHeader l guid (arrayCrc l parts))).encode x = primaryBuffer l parts env guid x := by
      intro x hx
      exact patch_congr (hheader x hx) _ _
    have hsecondary : ∀ x < l.sectorSize, patch (patch (patch st.buffer GPT_HEADER_SIZE env.headerPadding) 0
        (sealed (primaryHeader l guid (arrayCrc l parts))).encode) 0
        (sealed (secondaryHeader l (primaryHeader l guid (arrayCrc l parts)))).encode x =
          secondaryBuffer l parts env guid x := by
      intro x hx
      exact patch_congr (hprimary x hx) _ _
    have hmbr : ∀ x < l.sectorSize, patch (patch (patch (patch st.buffer GPT_HEADER_SIZE env.headerPadding) 0
        (sealed (primaryHeader l guid (arrayCrc l parts))).encode) 0
        (sealed (secondaryHeader l (primaryHeader l guid (arrayCrc l parts)))).encode) 0 (protectiveMbr l) x =
          patch (secondaryBuffer l parts env guid) 0 (protectiveMbr l) x := by
      intro x hx
      exact patch_congr (hsecondary x hx) _ _
    have halternate : (secondaryHeader l (primaryHeader l guid (arrayCrc l parts))).myLba.toNat = l.driveSectors - 1 :=
      hl.alternate_eq
    rw [show (primaryHeader l guid (arrayCrc l parts)).myLba.toNat = 1 from rfl, halternate,
      writeSector_eq hl (by omega), block_buffer hprimary, writeAll]
    rcases Device.write d₁ (1 * l.sectorSize) (block l.sectorSize (primaryBuffer l parts env guid) 0) with ⟨ok, d₂⟩
    cases ok with
    | false => rfl
    | true =>
      dsimp only
      rw [writeSector_eq hl (by omega), block_buffer hsecondary, writeAll]
      rcases Device.write d₂ ((l.driveSectors - 1) * l.sectorSize)
        (block l.sectorSize (secondaryBuffer l parts env guid) 0) with ⟨ok, d₃⟩
      cases ok with
      | false => rfl
      | true =>
        dsimp only
        rw [writeSector_eq hl (by omega), block_buffer hmbr, writeAll]
        rcases Device.write d₃ (0 * l.sectorSize)
          (block l.sectorSize (patch (secondaryBuffer l parts env guid) 0 (protectiveMbr l)) 0) with ⟨ok, d₄⟩
        cases ok <;> rfl

/-- The sectors of a device, as formatDisk divides them when it is suitable. -/
abbrev ownLayout (b : Build) (device : σ) : Layout b := ⟨Device.getSectorSize device, Device.getSectorCount device⟩

/-- What formatDisk gives to validate there. -/
abbrev ownRange (b : Build) (device : σ) : Available b :=
  Available.of b (ownLayout b device).firstAllocatableSector (ownLayout b device).allocatableSectors
    (Device.getSectorSize device)

/-- A call returns an error and leaves the device alone, or it writes the table that validate has resolved. -/
theorem Suitable.formatDisk_writes {device : σ} {env : FormatEnv} {pt table : List (PartInfo b)} {diskGuid : Uuid}
    {result : Formatted b σ} (hdevice : Suitable b device)
    (h : formatDisk env device pt table diskGuid = some result) :
    (result.err ≠ .success ∧ result.device = device) ∨
      ∃ parts, validate (ownRange b device) table = some (.returned .success parts) ∧
        writeAndSync (Device.getSectorSize device)
          (tableWrites (ownLayout b device) parts env (if diskGuid.isNull then env.generated else diskGuid)) device =
            (decide (result.err = .success), result.device) := by
  have hchoose := hdevice.supported.choose
  have hcount := hdevice.count_eq
  have herr : ∀ err : Error, err ≠ .success → (err ≠ .success ∧ device = device) := fun _ he => ⟨he, rfl⟩
  rw [formatDisk, hchoose] at h
  split at h
  · cases h
    exact .inl (herr .badParam (by decide))
  · dsimp only at h
    split at h
    · cases h
      exact .inl (herr .noMem (by decide))
    · rw [hcount] at h
      split at h
      · cases h
      · cases h
      · rename_i err parts hvalidate
        split at h
        · rename_i hok
          rw [hok] at hvalidate
          rw [writeTables_eq hdevice.fits] at h
          split at h
          · rename_i device' hwrite
            cases h
            exact .inr ⟨parts, hvalidate, hwrite⟩
          · rename_i device' hwrite
            cases h
            exact .inr ⟨parts, hvalidate, hwrite⟩
        · rename_i hfail
          cases h
          exact .inl (herr _ hfail)

end Device

section Lawful
variable {σ : Type} [LawfulDevice σ] {d₀ d d' : σ} {f : Nat → UInt8} {ws : List (Nat × List UInt8)} {sectorSize : Nat}

theorem writeAll_holds (hwhole : Whole sectorSize ws)
    (hin : ∀ w ∈ ws, (w.1 + 1) * sectorSize ≤ Device.capacity d₀) (h : Holds d₀ d f)
    (hrun : writeAll sectorSize ws d = (true, d')) : Holds d₀ d' (overwrite sectorSize f ws) := by
  induction ws generalizing d f with
  | nil =>
    cases hrun
    exact h
  | cons w ws ih =>
    rw [writeAll] at hrun
    split at hrun
    · cases hrun
    · rename_i d₁ hw
      have hfits := hin w List.mem_cons_self
      rw [Nat.succ_mul] at hfits
      refine ih hwhole.tail (fun w hw => hin w (List.mem_cons_of_mem _ hw)) (h.write ?_ hw) hrun
      rwa [hwhole w List.mem_cons_self]

theorem writeAndSync_holds (hwhole : Whole sectorSize ws)
    (hin : ∀ w ∈ ws, (w.1 + 1) * sectorSize ≤ Device.capacity d₀) (h : Holds d₀ d f)
    (hrun : writeAndSync sectorSize ws d = (true, d')) :
    Holds d₀ d' (overwrite sectorSize f ws) ∧ LawfulDevice.medium d' = overwrite sectorSize f ws := by
  rw [writeAndSync] at hrun
  split at hrun
  · cases hrun
  · rename_i d₁ hw
    exact (writeAll_holds hwhole hin h hw).sync hrun

end Lawful

end GPT

end DiskStorage
