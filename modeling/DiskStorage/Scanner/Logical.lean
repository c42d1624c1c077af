import DiskStorage.Scanner.Yields

/-! The chain of boot records of an extended partition, as DOS lays it out, and what the scanner makes of it. -/
namespace DiskStorage
open ByteStore LittleEndian

variable {b : Build} {env : ScanEnv} {im : Image} {shift : Nat}

/-- A boot record of the chain and its logical partition: in which blocks they are, and the type. -/
structure LogicalDrive where
  boot : Nat
  start : Nat
  osType : UInt8

/-- A disk whose last primary record is that of an extended partition. -/
structure DosLayout where
  shift : Nat
  primaries : List MbrRecord
  extended : MbrRecord
  drives : List LogicalDrive

/-- The chain starts with the extended partition, whose record is the only one of its type; its blocks have numbers of
32 bits and its boot records addresses, and no two logical partitions start at one block. -/
structure DosLayout.WellFormed (b : Build) (l : DosLayout) : Prop where
  primary : ∀ e ∈ l.primaries, e.osType ≠ OSTYPE_EXTENDED
  extended : l.extended.osType = OSTYPE_EXTENDED
  first : l.drives.head?.map LogicalDrive.boot = some l.extended.startingLba.toNat
  logical : ∀ d ∈ l.drives, d.osType ≠ OSTYPE_EXTENDED
  blocks : ∀ d ∈ l.drives, d.boot < 2 ^ 32 ∧ d.start < 2 ^ 32
  addresses : ∀ d ∈ l.drives, (d.boot + 1) * 2 ^ l.shift ≤ b.storageSize
  apart : (l.drives.map LogicalDrive.start).Nodup

/-- The start in the record of a logical partition is relative to its boot record. -/
def LogicalDrive.DescribedBy (d : LogicalDrive) (rec : MbrRecord) : Prop :=
  rec.osType = d.osType ∧ d.boot + rec.startingLba.toNat = d.start

namespace Image
variable (b) (env) (im) (shift)

/-- In each sector of the chain there is the record of a logical partition and, except in the last one, behind it a link
to the next, relative to the start of the extended partition. -/
def HoldsDrives (extended : Nat) : List LogicalDrive → Prop
  | [] => True
  | [d] => ∃ rec, scanMbrEntries (im.sectorAt b shift d.boot) 0 = [rec] ∧ d.DescribedBy rec
  | d :: d' :: ds =>
    (∃ rec link, scanMbrEntries (im.sectorAt b shift d.boot) 0 = [rec, link] ∧ d.DescribedBy rec ∧
      link.osType = OSTYPE_EXTENDED ∧ extended + link.startingLba.toNat = d'.boot) ∧ HoldsDrives extended (d' :: ds)

/-- The image is one of such a disk, and all of its sectors can be read. -/
structure Holds (l : DosLayout) : Prop where
  size : ∃ size, chooseSectorSize b im = some size ∧ getSizeBits size = l.shift
  reads : ∀ sector, im.readableAt b l.shift sector = true
  unidentified : identify b env.types (im.sectorAt b l.shift 0) 0 = none
  signature : mbrSignature (im.sectorAt b l.shift 0) = MSDOS_MBR_SIGNATURE
  notGpt : (mbrRecord (im.sectorAt b l.shift 0) 0).osType ≠ EFI_PMBR_OSTYPE_EFI_GPT
  records : scanMbrEntries (im.sectorAt b l.shift 0) 0 = l.primaries ++ [l.extended]
  drives : im.HoldsDrives b l.shift l.extended.startingLba.toNat l.drives

/-- The scan returns one partition for every primary record, and then exactly the logical partitions, in
the order of the chain and with their offsets. -/
def DecodesDrives (l : DosLayout) : Prop :=
  ∃ fuel primaries logicals, scanPartitions (b := b) env fuel im = some (some (true, im, primaries ++ logicals)) ∧
    primaries.length = l.primaries.length ∧
    logicals.map (fun part => (part.offset, part.sysind)) =
      l.drives.map fun d => (d.start * 2 ^ l.shift, d.osType.toNat)

end Image

/-- What the scanner makes of the start and the type in a record. -/
def MbrRecord.key (shift : Nat) (e : MbrRecord) : Nat × Nat :=
  (e.startingLba.toNat * 2 ^ shift % 2 ^ 32, e.osType.toNat)

theorem map_key {parts : List (PartInfo b)} {es : List MbrRecord}
    (h : List.Forall₂ (fun part e => PartInfo.OfRecord (b := b) part shift e) parts es) :
    parts.map (fun part => (part.offset, part.sysind)) = es.map (MbrRecord.key shift) := by
  induction h with
  | nil => rfl
  | cons hof _ ih => rw [List.map_cons, List.map_cons, ih, hof.1, hof.2, MbrRecord.key]

theorem scanMbrEntries_base (f : Nat → UInt8) (lba : UInt32) :
    scanMbrEntries f lba = (scanMbrEntries f 0).map fun rec => { rec with startingLba := rec.startingLba + lba } := by
  rw [scanMbrEntries, scanMbrEntries, List.map_map]
  apply List.map_congr_left
  intro rec _
  simp only [Function.comp_apply, UInt32.add_zero]

private theorem startingLba_ne_zero {f : Nat → UInt8} {rec : MbrRecord} (h : rec ∈ scanMbrEntries f 0) :
    rec.startingLba.toNat ≠ 0 := by
  obtain ⟨rec', hrec', rfl⟩ := List.mem_map.mp h
  have hfilter := (List.mem_filter.mp hrec').2
  have hne : rec'.startingLba ≠ 0 := bne_iff_ne.mp ((Bool.and_eq_true _ _).mp hfilter).1
  dsimp only
  rw [UInt32.add_zero]
  exact fun hzero => hne (UInt32.toNat_inj.mp hzero)

section Holds
variable {l : DosLayout}

theorem Image.Holds.openTable (h : im.Holds b env l) (hbuffer : env.buffer.isSome = true) :
    9 ≤ l.shift ∧ l.shift < 32 ∧ ∃ sc, openTable (b := b) env Scanner.new im = .again sc im ∧
      Standing l.shift sc (l.primaries ++ [l.extended]) := by
  obtain ⟨size, hsize, hbits⟩ := h.size
  obtain ⟨memory, hmemory⟩ := Option.isSome_iff_exists.mp hbuffer
  have hshift : 9 ≤ l.shift := hbits ▸ (chooseSectorSize_shift hsize).1
  have hlt : l.shift < 32 := by
    have := chooseSectorSize_lt hsize
    omega
  refine ⟨hshift, hlt, ?_⟩
  have hread := h.reads 0
  rw [Image.readableAt] at hread
  have hcongr : ∀ i < 512, patch memory 0 (slice im.bytes (sectorAddress b l.shift 0) (2 ^ l.shift)) i =
      im.sectorAt b l.shift 0 i := fun i hi => patch_sector memory hshift 0 hi
  rw [DiskStorage.openTable, hsize, hmemory]
  dsimp only
  rw [readSector_image]
  dsimp only
  rw [hbits, hread, if_pos rfl]
  dsimp only
  rw [identify_congr hcongr, h.unidentified]
  dsimp only
  rw [mbrSignature_congr hcongr, h.signature, if_neg (not_not_intro rfl), mbrRecord_congr hcongr (by decide),
    if_neg h.notGpt]
  refine ⟨_, rfl, rfl, rfl, rfl, ?_⟩
  rw [← h.records]
  exact scanMbrEntries_congr hcongr 0

theorem Image.Holds.decodes_iff (h : im.Holds b env l) (hwf : l.WellFormed b) (hbuffer : env.buffer.isSome = true) :
    im.DecodesDrives b env l ↔ ∃ es, Yields b im l.shift (im.bootRecords b l.shift l.extended.startingLba) es ∧
      es.map (MbrRecord.key l.shift) = l.drives.map fun d => (d.start * 2 ^ l.shift, d.osType.toNat) := by
  obtain ⟨hshift, -, sc, hopen, hstanding⟩ := h.openTable hbuffer
  have hfront : ∀ e ∈ l.primaries, e.osType ≠ OSTYPE_EXTENDED ∧ im.readableAt b l.shift e.startingLba.toNat = true :=
    fun e he => ⟨hwf.primary e he, h.reads _⟩
  have hlink : im.isLink b l.shift l.extended = true := by
    rw [Image.isLink, hwf.extended, h.reads]
    rfl
  constructor
  · rintro ⟨fuel, primaries, logicals, hscan, hlength, hlogicals⟩
    obtain ⟨es, hyields, hparts⟩ := hstanding.yields_of_scanPartitions hshift hopen hscan
    obtain ⟨es', rfl, hrest⟩ := (Yields.append_iff hfront).mp hyields
    have hkeys := map_key hparts
    rw [List.map_append, List.map_append] at hkeys
    obtain ⟨-, hes'⟩ := List.append_inj hkeys (by rw [List.length_map, List.length_map, hlength])
    refine ⟨es', ?_, hes'.symm.trans hlogicals⟩
    cases hrest with
    | unreadable hread _ => rw [h.reads] at hread; cases hread
    | link _ hes => exact hes
    | part htype _ _ => exact absurd hwf.extended htype
  · rintro ⟨es, hyields, hkeys⟩
    have hall : Yields b im l.shift (l.primaries ++ [l.extended]) (l.primaries ++ es) :=
      (Yields.append_iff hfront).mpr ⟨es, rfl, .link hlink hyields⟩
    obtain ⟨fuel, parts, hscan, hparts⟩ := hall.scanPartitions_eq env hstanding hshift hopen
    have hlength := hparts.length_eq
    rw [List.length_append] at hlength
    have hmap := map_key hparts
    rw [← List.take_append_drop l.primaries.length parts, List.map_append, List.map_append] at hmap
    obtain ⟨-, hdrop⟩ := List.append_inj hmap (by rw [List.length_map, List.length_map, List.length_take]; omega)
    refine ⟨fuel, parts.take l.primaries.length, parts.drop l.primaries.length, ?_, ?_, hdrop.trans hkeys⟩
    · rw [List.take_append_drop]
      exact hscan
    · rw [List.length_take]
      omega

variable {d d' : LogicalDrive} {ds : List LogicalDrive} {E : Nat} {rest es : List MbrRecord} {lba : UInt32}

private theorem holdsDrives_mem (h : im.HoldsDrives b shift E ds) (hd : d ∈ ds) :
    ∃ rec tail, scanMbrEntries (im.sectorAt b shift d.boot) 0 = rec :: tail ∧ d.DescribedBy rec := by
  induction ds with
  | nil => cases hd
  | cons d₁ ds ih =>
    cases ds with
    | nil =>
      obtain rfl := List.mem_singleton.mp hd
      obtain ⟨rec, hrec, hof⟩ := h
      exact ⟨rec, [], hrec, hof⟩
    | cons d₂ ds =>
      rcases List.mem_cons.mp hd with rfl | hd
      · obtain ⟨⟨rec, link, hrec, hof, -⟩, -⟩ := h
        exact ⟨rec, [link], hrec, hof⟩
      · exact ih h.2 hd

private theorem yields_boot (hreads : ∀ sector, im.readableAt b shift sector = true) (hd : d.osType ≠ OSTYPE_EXTENDED)
    {rec : MbrRecord} {tail : List MbrRecord} (hrec : scanMbrEntries (im.sectorAt b shift lba.toNat) 0 = rec :: tail)
    (hof : d.DescribedBy rec) :
    Yields b im shift (im.bootRecords b shift lba) es ↔
      ∃ es', es = { rec with startingLba := rec.startingLba + lba } :: es' ∧
        Yields b im shift (tail.map fun rec => { rec with startingLba := rec.startingLba + lba }) es' := by
  have hfront : ∀ e ∈ [({ rec with startingLba := rec.startingLba + lba } : MbrRecord)], e.osType ≠ OSTYPE_EXTENDED ∧
      im.readableAt b shift e.startingLba.toNat = true := by
    intro e he
    obtain rfl := List.mem_singleton.mp he
    exact ⟨hof.1.symm ▸ hd, hreads _⟩
  rw [Image.bootRecords, scanMbrEntries_base, hrec, List.map_cons]
  exact Yields.append_iff hfront

private theorem yields_link (hreads : ∀ sector, im.readableAt b shift sector = true) {link : MbrRecord}
    (htype : link.osType = OSTYPE_EXTENDED) :
    Yields b im shift [{ link with startingLba := link.startingLba + lba }] es ↔
      Yields b im shift (im.bootRecords b shift (link.startingLba + lba)) es := by
  have hlink : im.isLink b shift { link with startingLba := link.startingLba + lba } = true := by
    rw [Image.isLink, hreads, htype]
    rfl
  constructor
  · intro h
    cases h with
    | unreadable hread _ => rw [hreads] at hread; cases hread
    | link _ hes => exact hes
    | part hno _ _ => exact absurd htype hno
  · exact fun h => .link hlink h

private theorem key_start {rec : MbrRecord} (hof : d.DescribedBy rec)
    (hlba : lba.toNat * 2 ^ shift % 2 ^ 32 = d.boot * 2 ^ shift % 2 ^ 32) :
    MbrRecord.key shift { rec with startingLba := rec.startingLba + lba } =
      (d.start * 2 ^ shift % 2 ^ 32, d.osType.toNat) := by
  have hmod : (rec.startingLba + lba).toNat = (rec.startingLba.toNat + lba.toNat) % 2 ^ 32 := UInt32.toNat_add _ _
  rw [MbrRecord.key]
  dsimp only
  rw [hof.1, hmod, Nat.mod_mul_mod, ← hof.2, Nat.add_mul, Nat.add_mul, Nat.add_mod, hlba, ← Nat.add_mod, Nat.add_comm]

private theorem yields_last (hreads : ∀ sector, im.readableAt b shift sector = true) (hd : d.osType ≠ OSTYPE_EXTENDED)
    (hlba : lba.toNat = d.boot) (h : im.HoldsDrives b shift E [d]) :
    ∃ es, Yields b im shift (im.bootRecords b shift lba) es ∧
      es.map (MbrRecord.key shift) = [(d.start * 2 ^ shift % 2 ^ 32, d.osType.toNat)] := by
  obtain ⟨rec, hrec, hof⟩ := h
  refine ⟨[_], (yields_boot hreads hd (by rw [hlba]; exact hrec) hof).mpr ⟨[], rfl, .nil⟩, ?_⟩
  rw [List.map_singleton, key_start hof (by rw [hlba])]

private theorem yields_next (hreads : ∀ sector, im.readableAt b shift sector = true) (hd : d.osType ≠ OSTYPE_EXTENDED)
    (hlba : lba.toNat = d.boot) (h : im.HoldsDrives b shift E (d :: d' :: ds)) :
    ∃ (next : UInt32) (e : MbrRecord), next.toNat = (d.boot + d'.boot - E) % 2 ^ 32 ∧ E < d'.boot ∧
      e.key shift = (d.start * 2 ^ shift % 2 ^ 32, d.osType.toNat) ∧
      ∀ es, Yields b im shift (im.bootRecords b shift lba) es ↔
        ∃ es', es = e :: es' ∧ Yields b im shift (im.bootRecords b shift next) es' := by
  obtain ⟨⟨rec, link, hrec, hof, htype, hnext⟩, -⟩ := h
  have hzero : link.startingLba.toNat ≠ 0 :=
    startingLba_ne_zero (by rw [hrec]; exact List.mem_cons_of_mem _ (List.mem_singleton_self _))
  refine ⟨link.startingLba + lba, { rec with startingLba := rec.startingLba + lba }, ?_, by omega,
    key_start hof (by rw [hlba]), fun es => ?_⟩
  · rw [UInt32.toNat_add, hlba]
    congr 1
    omega
  · rw [yields_boot hreads hd (by rw [hlba]; exact hrec) hof, List.map_singleton]
    simp only [yields_link hreads htype]

private theorem yields_of_short (h : im.Holds b env l) (hwf : l.WellFormed b) (hshort : l.drives.length ≤ 2)
    (hfit : ∀ d ∈ l.drives, d.start * 2 ^ l.shift < 2 ^ 32) :
    ∃ es, Yields b im l.shift (im.bootRecords b l.shift l.extended.startingLba) es ∧
      es.map (MbrRecord.key l.shift) = l.drives.map fun d => (d.start * 2 ^ l.shift, d.osType.toNat) := by
  have hfirst := hwf.first
  have hdrives := h.drives
  have hlogical := hwf.logical
  have hblocks := hwf.blocks
  match hds : l.drives with
  | [] =>
    rw [hds] at hfirst
    cases hfirst
  | [d] =>
    rw [hds] at hfirst hdrives hlogical hfit
    have hd := List.mem_singleton_self d
    obtain ⟨es, hes, hkeys⟩ := yields_last h.reads (hlogical d hd) (Option.some.inj hfirst).symm hdrives
    refine ⟨es, hes, ?_⟩
    rw [hkeys, Nat.mod_eq_of_lt (hfit d hd)]
    rfl
  | [d₁, d₂] =>
    rw [hds] at hfirst hdrives hlogical hfit hblocks
    have hd₁ : d₁ ∈ [d₁, d₂] := List.mem_cons_self ..
    have hd₂ : d₂ ∈ [d₁, d₂] := List.mem_cons_of_mem _ (List.mem_singleton_self _)
    have hE : l.extended.startingLba.toNat = d₁.boot := (Option.some.inj hfirst).symm
    obtain ⟨next, e, hnext, hlt, hkey, hyields⟩ := yields_next h.reads (hlogical d₁ hd₁) hE hdrives
    rw [hE, Nat.add_sub_cancel_left, Nat.mod_eq_of_lt (hblocks d₂ hd₂).1] at hnext
    obtain ⟨es, hes, hkeys⟩ := yields_last h.reads (hlogical d₂ hd₂) hnext hdrives.2
    refine ⟨e :: es, (hyields _).mpr ⟨es, rfl, hes⟩, ?_⟩
    rw [List.map_cons, hkey, hkeys, Nat.mod_eq_of_lt (hfit d₁ hd₁), Nat.mod_eq_of_lt (hfit d₂ hd₂)]
    rfl
  | d₁ :: d₂ :: d₃ :: ds =>
    rw [hds] at hshort
    simp only [List.length_cons] at hshort
    omega

end Holds

section Address
variable {lba lba' : UInt32} {rest rest' es : List MbrRecord}

theorem sectorAddress_lba (b : Build) (shift : Nat) (lba : UInt32) :
    sectorAddress b shift lba.toNat = b.storage (lba.toNat * 2 ^ shift) := by
  rw [sectorAddress, Build.storage_of_lt_word lba.toNat_lt]

private theorem offset_eq {m n : Nat} (h : b.storage m = b.storage n) : m % 2 ^ 32 = n % 2 ^ 32 := by
  have hdvd : 2 ^ 32 ∣ b.storageSize := by
    rcases b.storageSize_cases with hsize | hsize
    · rw [hsize]
      decide
    · rw [hsize]
  rw [← Nat.mod_mod_of_dvd m hdvd, ← Nat.mod_mod_of_dvd n hdvd]
  exact congrArg (· % 2 ^ 32) h

private theorem sectorAddress_add (hshift : shift ≤ 32) (start : UInt32)
    (h : sectorAddress b shift lba.toNat = sectorAddress b shift lba'.toNat) :
    sectorAddress b shift (start + lba).toNat = sectorAddress b shift (start + lba').toNat := by
  rw [sectorAddress_lba, sectorAddress_lba] at h ⊢
  rcases b.storageSize_cases with hsize | hsize
  · have hpow := Nat.pow_le_pow_right (n := 2) (by decide) hshift
    have hlt : ∀ lba : UInt32, lba.toNat * 2 ^ shift < 2 ^ 64 := fun lba =>
      (Nat.mul_lt_mul_of_lt_of_le lba.toNat_lt hpow (Nat.two_pow_pos 32)).trans_eq (by decide)
    rw [Build.storage_of_lt (hsize ▸ hlt lba), Build.storage_of_lt (hsize ▸ hlt lba')] at h
    rw [UInt32.toNat_inj.mp (Nat.eq_of_mul_eq_mul_right (Nat.two_pow_pos _) h)]
  · have hoffset := offset_eq h
    rw [Build.storage, Build.storage, hsize, UInt32.toNat_add, UInt32.toNat_add, Nat.mod_mul_mod, Nat.mod_mul_mod,
      Nat.add_mul, Nat.add_mul, Nat.add_mod, hoffset, ← Nat.add_mod]

/-- Records of one type and address. -/
private def Alias (b : Build) (shift : Nat) (e e' : MbrRecord) : Prop :=
  e.osType = e'.osType ∧ sectorAddress b shift e.startingLba.toNat = sectorAddress b shift e'.startingLba.toNat

private theorem bootRecords_alias (hshift : shift ≤ 32)
    (h : sectorAddress b shift lba.toNat = sectorAddress b shift lba'.toNat) :
    List.Forall₂ (Alias b shift) (im.bootRecords b shift lba) (im.bootRecords b shift lba') := by
  have hsector : im.sectorAt b shift lba.toNat = im.sectorAt b shift lba'.toNat := by
    funext i
    rw [Image.sectorAt, h, Image.sectorAt]
  rw [Image.bootRecords, Image.bootRecords, hsector, scanMbrEntries_base, scanMbrEntries_base _ lba']
  rw [List.forall₂_map_left_iff, List.forall₂_map_right_iff]
  exact List.forall₂_same.mpr fun rec _ => ⟨rfl, sectorAddress_add hshift rec.startingLba h⟩

private theorem Yields.alias (h : Yields b im shift rest es) (hshift : shift ≤ 32)
    (halias : List.Forall₂ (Alias b shift) rest rest') :
    ∃ es', Yields b im shift rest' es' ∧ es'.length = es.length := by
  have hreads : ∀ {e e' : MbrRecord}, Alias b shift e e' →
      im.readableAt b shift e'.startingLba.toNat = im.readableAt b shift e.startingLba.toNat := fun h => by
    rw [Image.readableAt, Image.readableAt, h.2]
  induction h generalizing rest' with
  | nil =>
    cases halias
    exact ⟨[], .nil, rfl⟩
  | unreadable hread _ ih =>
    cases halias with
    | cons he hrest =>
      obtain ⟨es', hes', hlength⟩ := ih hrest
      exact ⟨es', .unreadable ((hreads he).trans hread) hes', hlength⟩
  | link hlink _ ih =>
    cases halias with
    | cons he hrest =>
      obtain ⟨es', hes', hlength⟩ := ih (bootRecords_alias hshift he.2)
      refine ⟨es', .link ?_ hes', hlength⟩
      rw [Image.isLink, hreads he, ← he.1]
      exact hlink
  | part htype hread _ ih =>
    cases halias with
    | cons he hrest =>
      obtain ⟨es', hes', hlength⟩ := ih hrest
      exact ⟨_ :: es', .part (he.1 ▸ htype) ((hreads he).trans hread) hes', congrArg (· + 1) hlength⟩

end Address

section Misled
variable {l : DosLayout} {d₁ d₂ d₃ : LogicalDrive} {ds : List LogicalDrive}

private theorem Image.Holds.behind_second (h : im.Holds b env l) (hwf : l.WellFormed b)
    (hbuffer : env.buffer.isSome = true)
    (hds : l.drives = d₁ :: d₂ :: d₃ :: ds) (hdecodes : im.DecodesDrives b env l) :
    l.extended.startingLba.toNat < d₂.boot ∧ ∃ next : UInt32,
      next.toNat = (d₂.boot + d₃.boot - l.extended.startingLba.toNat) % 2 ^ 32 ∧ ∃ e₁ e₂ es,
        Yields b im l.shift (im.bootRecords b l.shift l.extended.startingLba) (e₁ :: e₂ :: es) ∧
        Yields b im l.shift (im.bootRecords b l.shift next) es ∧
        es.map (MbrRecord.key l.shift) = (d₃ :: ds).map fun d => (d.start * 2 ^ l.shift, d.osType.toNat) := by
  obtain ⟨es, hes, hkeys⟩ := (h.decodes_iff hwf hbuffer).mp hdecodes
  have hfirst := hwf.first
  have hdrives := h.drives
  have hlogical := hwf.logical
  have hblocks := hwf.blocks
  rw [hds] at hfirst hdrives hlogical hblocks hkeys
  have hE : l.extended.startingLba.toNat = d₁.boot := (Option.some.inj hfirst).symm
  obtain ⟨second, e₁, hsecond, hlt, -, hyields₁⟩ := yields_next h.reads (hlogical d₁ (by simp)) hE hdrives
  rw [hE, Nat.add_sub_cancel_left, Nat.mod_eq_of_lt (hblocks d₂ (by simp)).1] at hsecond
  obtain ⟨next, e₂, hnext, -, -, hyields₂⟩ := yields_next h.reads (hlogical d₂ (by simp)) hsecond hdrives.2
  obtain ⟨es', rfl, hes'⟩ := (hyields₁ _).mp hes
  obtain ⟨es'', rfl, hes''⟩ := (hyields₂ _).mp hes'
  refine ⟨hlt, next, hnext, e₁, e₂, es'', hes, hes'', ?_⟩
  rw [List.map_cons, List.map_cons] at hkeys
  exact (List.cons.inj (List.cons.inj hkeys).2).2

private theorem holdsDrives_congr {im' : Image} {E : Nat}
    (hsame : ∀ d ∈ ds, ∀ i < 512, im'.sectorAt b shift d.boot i = im.sectorAt b shift d.boot i)
    (h : im.HoldsDrives b shift E ds) : im'.HoldsDrives b shift E ds := by
  induction ds with
  | nil => trivial
  | cons d ds ih =>
    have hscan := scanMbrEntries_congr (hsame d (List.mem_cons_self ..)) 0
    cases ds with
    | nil =>
      obtain ⟨rec, hrec, hof⟩ := h
      exact ⟨rec, hscan.trans hrec, hof⟩
    | cons d' ds =>
      obtain ⟨⟨rec, link, hrec, hlink⟩, hrest⟩ := h
      exact ⟨⟨rec, link, hscan.trans hrec, hlink⟩, ih (fun d hd => hsame d (List.mem_cons_of_mem _ hd)) hrest⟩

/-- The image with a sector full of zeros. -/
private def Image.cleared (im : Image) (shift sector : Nat) : Image :=
  { im with bytes := patch im.bytes (sector * 2 ^ shift) (List.replicate (2 ^ shift) 0) }

private theorem sectorAddress_of_le {sector : Nat} (h : (sector + 1) * 2 ^ shift ≤ b.storageSize) :
    sectorAddress b shift sector = sector * 2 ^ shift := by
  have hpos := Nat.two_pow_pos shift
  have hle := Nat.le_mul_of_pos_right sector hpos
  rw [Nat.succ_mul] at h
  rw [sectorAddress, Build.storage_of_lt (n := sector) (by omega), Build.storage_of_lt (by omega)]

private theorem sectorAt_cleared {sector other : Nat}
    (hother : (other + 1) * 2 ^ shift ≤ b.storageSize) {i : Nat} (hi : i < 2 ^ shift) :
    (im.cleared shift sector).sectorAt b shift other i = if other = sector then 0 else im.sectorAt b shift other i := by
  rw [Image.sectorAt, Image.sectorAt, sectorAddress_of_le hother, Image.cleared]
  dsimp only
  split
  · rename_i heq
    rw [heq, patch_inside _ _ _ (by rw [List.length_replicate]; exact hi), List.getElem_replicate]
  · rename_i hne
    rw [patch_outside]
    rw [List.length_replicate]
    rcases Nat.lt_or_gt_of_ne hne with hlt | hgt
    · have hmul := Nat.mul_le_mul_right (2 ^ shift) (Nat.succ_le_of_lt hlt)
      rw [Nat.succ_mul] at hmul
      omega
    · have hmul := Nat.mul_le_mul_right (2 ^ shift) (Nat.succ_le_of_lt hgt)
      rw [Nat.succ_mul] at hmul
      omega

private theorem Image.Holds.cleared (h : im.Holds b env l) (hwf : l.WellFormed b) (hshift : 9 ≤ l.shift) {sector : Nat}
    (hsector : (sector + 1) * 2 ^ l.shift ≤ b.storageSize) (hzero : sector ≠ 0)
    (hchain : ∀ d ∈ l.drives, d.boot ≠ sector) : (im.cleared l.shift sector).Holds b env l := by
  have hpow : 512 ≤ 2 ^ l.shift := Nat.pow_le_pow_right (n := 2) (by decide) hshift
  have hfirst : ∀ i < 512, (im.cleared l.shift sector).sectorAt b l.shift 0 i = im.sectorAt b l.shift 0 i := by
    intro i hi
    have hle := Nat.mul_le_mul_right (2 ^ l.shift) (Nat.succ_le_succ (Nat.zero_le sector))
    rw [sectorAt_cleared (hle.trans hsector) (by omega), if_neg hzero.symm]
  refine ⟨h.size, h.reads, (identify_congr hfirst _ _).trans h.unidentified,
    (mbrSignature_congr hfirst).trans h.signature, ?_,
    (scanMbrEntries_congr hfirst 0).trans h.records, holdsDrives_congr (fun d hd i hi => ?_) h.drives⟩
  · rw [mbrRecord_congr hfirst (by decide)]
    exact h.notGpt
  · rw [sectorAt_cleared (hwf.addresses d hd) (by omega), if_neg (hchain d hd)]

private theorem exists_sector (b : Build) (hshift : shift ≤ 32) (lba : UInt32) :
    ∃ sector, (sector + 1) * 2 ^ shift ≤ b.storageSize ∧
    sectorAddress b shift sector = sectorAddress b shift lba.toNat := by
  have hdvd : 2 ^ shift ∣ b.storageSize := by
    rcases b.storageSize_cases with hsize | hsize
    · rw [hsize]
      exact Nat.pow_dvd_pow 2 (hshift.trans (by decide))
    · rw [hsize]
      exact Nat.pow_dvd_pow 2 hshift
  have hmul : 2 ^ shift ∣ sectorAddress b shift lba.toNat := by
    rw [sectorAddress_lba, Build.storage]
    exact (Nat.dvd_mod_iff hdvd).mpr (Nat.dvd_mul_left _ _)
  have hlt : sectorAddress b shift lba.toNat < b.storageSize := Nat.mod_lt _ b.storageSize_pos
  obtain ⟨sector, hsector⟩ := hmul
  have hle : (sector + 1) * 2 ^ shift ≤ b.storageSize := by
    obtain ⟨n, hn⟩ := hdvd
    rw [hn, hsector] at hlt
    rw [hn, Nat.mul_comm]
    exact Nat.mul_le_mul_left _ (Nat.lt_of_mul_lt_mul_left hlt)
  refine ⟨sector, hle, ?_⟩
  rw [sectorAddress_of_le hle, hsector, Nat.mul_comm]

private theorem third_missed {first second third : Nat} {next : UInt32} (hshift : shift ≤ 32) (hlt : first < second)
    (hsecond : second < 2 ^ 32) (hthird : third < 2 ^ 32) (haddress : (second + 1) * 2 ^ shift ≤ b.storageSize)
    (hnext : next.toNat = (second + third - first) % 2 ^ 32) :
    sectorAddress b shift third ≠ sectorAddress b shift next.toNat := by
  intro heq
  rw [sectorAddress_lba, sectorAddress, Build.storage_of_lt_word hthird] at heq
  have hpos := Nat.two_pow_pos shift
  rcases b.storageSize_cases with hsize | hsize
  · have hpow := Nat.pow_le_pow_right (n := 2) (by decide) hshift
    have hfit : ∀ n < 2 ^ 32, n * 2 ^ shift < b.storageSize := fun n hn => by
      rw [hsize]
      exact (Nat.mul_lt_mul_of_lt_of_le hn hpow (Nat.two_pow_pos 32)).trans_eq (by decide)
    rw [Build.storage_of_lt (hfit _ hthird), Build.storage_of_lt (hfit _ next.toNat_lt)] at heq
    have := Nat.eq_of_mul_eq_mul_right hpos heq
    omega
  · have hoffset := offset_eq heq
    obtain ⟨gap, rfl⟩ := Nat.exists_eq_add_of_lt hlt
    have hsum : first + gap + 1 + third - first = third + (gap + 1) := by omega
    rw [hnext, Nat.mod_mul_mod, hsum, Nat.add_mul] at hoffset
    have hgap : (gap + 1) * 2 ^ shift % 2 ^ 32 = 0 := by
      generalize third * 2 ^ shift = a at hoffset
      generalize (gap + 1) * 2 ^ shift = g at hoffset ⊢
      omega
    have hle : (gap + 1) * 2 ^ shift ≤ (first + gap + 1) * 2 ^ shift := Nat.mul_le_mul_right _ (by omega)
    rw [hsize, Nat.succ_mul] at haddress
    rw [Nat.mod_eq_of_lt (by omega)] at hgap
    have := Nat.le_mul_of_pos_right (gap + 1) hpos
    omega

private theorem not_decodes_long (hwf : l.WellFormed b) (hbuffer : env.buffer.isSome = true)
    (hds : l.drives = d₁ :: d₂ :: d₃ :: ds) (h : im.Holds b env l)
    (hfit : ∀ d ∈ l.drives, d.start * 2 ^ l.shift < 2 ^ 32)
    (hall : ∀ im : Image, im.Holds b env l → im.DecodesDrives b env l) : False := by
  obtain ⟨hshift, hword, -⟩ := h.openTable hbuffer
  obtain ⟨hlt, next, hnext, e₁, e₂, es, hfirst, hrest, hkeys⟩ := h.behind_second hwf hbuffer hds (hall im h)
  have hd₂ : d₂ ∈ l.drives := by rw [hds]; simp
  have hd₃ : d₃ ∈ l.drives := by rw [hds]; simp
  obtain ⟨sector, hsector, haddress⟩ := exists_sector b hword.le next
  have hsame : ∀ im : Image, im.sectorAt b l.shift next.toNat = im.sectorAt b l.shift sector := fun im => by
    funext i
    rw [Image.sectorAt, ← haddress, Image.sectorAt]
  by_cases hzero : sector = 0
  · -- the primary records again, from which the scan comes to the chain once more
    subst hzero
    have halias : List.Forall₂ (Alias b l.shift) (im.bootRecords b l.shift next) (im.bootRecords b l.shift 0) :=
      bootRecords_alias hword.le haddress.symm
    obtain ⟨es', hes', hlength⟩ := hrest.alias hword.le halias
    have hfront : ∀ e ∈ l.primaries, e.osType ≠ OSTYPE_EXTENDED ∧ im.readableAt b l.shift e.startingLba.toNat = true :=
      fun e he => ⟨hwf.primary e he, h.reads _⟩
    have hrecords : im.bootRecords b l.shift 0 = l.primaries ++ [l.extended] := h.records
    rw [hrecords] at hes'
    obtain ⟨es'', rfl, hes''⟩ := (Yields.append_iff hfront).mp hes'
    have hagain : Yields b im l.shift (im.bootRecords b l.shift (l.extended.startingLba + 0)) es'' :=
      (yields_link h.reads hwf.extended).mp (by rw [UInt32.add_zero]; exact hes'')
    rw [UInt32.add_zero] at hagain
    rw [hagain.unique hfirst, List.length_append, List.length_cons, List.length_cons] at hlength
    omega
  · by_cases hchain : ∃ d ∈ l.drives, d.boot = sector
    · -- one of the boot records, but not the third, so another logical partition comes next
      obtain ⟨d, hd, rfl⟩ := hchain
      obtain ⟨rec, tail, hrec, hof⟩ := holdsDrives_mem h.drives hd
      obtain ⟨es', rfl, -⟩ := (yields_boot h.reads (hwf.logical d hd) (by rw [hsame]; exact hrec) hof).mp hrest
      have hoffset : next.toNat * 2 ^ l.shift % 2 ^ 32 = d.boot * 2 ^ l.shift % 2 ^ 32 := by
        rw [sectorAddress_lba, sectorAddress, Build.storage_of_lt_word (hwf.blocks d hd).1] at haddress
        exact (offset_eq haddress).symm
      rw [List.map_cons, List.map_cons, key_start hof hoffset] at hkeys
      have hstart : d.start * 2 ^ l.shift % 2 ^ 32 = d₃.start * 2 ^ l.shift := congrArg Prod.fst (List.cons.inj hkeys).1
      rw [Nat.mod_eq_of_lt (hfit d hd)] at hstart
      obtain rfl : d = d₃ :=
        List.inj_on_of_nodup_map hwf.apart hd hd₃ (Nat.eq_of_mul_eq_mul_right (Nat.two_pow_pos _) hstart)
      exact third_missed hword.le hlt (hwf.blocks d₂ hd₂).1 (hwf.blocks d hd₃).1 (hwf.addresses d₂ hd₂) hnext haddress
    · -- any other sector may be empty
      have hcleared := h.cleared hwf hshift hsector hzero fun d hd heq => hchain ⟨d, hd, heq⟩
      obtain ⟨-, next', hnext', e₁', e₂', es', -, hrest', hkeys'⟩ :=
        hcleared.behind_second hwf hbuffer hds (hall _ hcleared)
      obtain rfl : next' = next := UInt32.toNat_inj.mp (hnext'.trans hnext.symm)
      have hempty : (im.cleared l.shift sector).bootRecords b l.shift next' = [] := by
        have hpow : 512 ≤ 2 ^ l.shift := Nat.pow_le_pow_right (n := 2) (by decide) hshift
        have hsectorAt : (im.cleared l.shift sector).sectorAt b l.shift next'.toNat =
            (im.cleared l.shift sector).sectorAt b l.shift sector := by
          funext i
          rw [Image.sectorAt, ← haddress, Image.sectorAt]
        have hzeros : ∀ i < 512, (im.cleared l.shift sector).sectorAt b l.shift sector i =
          (fun _ => 0) i := fun i hi => by
          rw [sectorAt_cleared hsector (by omega), if_pos rfl]
        rw [Image.bootRecords, hsectorAt, scanMbrEntries_congr hzeros, scanMbrEntries_base]
        rfl
      rw [hempty] at hrest'
      cases hrest'
      cases hkeys'

end Misled

/-- A chain is decoded from every image that holds it, if there is one, if and only if it has at most two
boot records and its partitions start at offsets of 32 bits. -/
theorem drives_decoded_iff (b : Build) (env : ScanEnv) (hbuffer : env.buffer.isSome = true) (l : DosLayout)
    (hwf : l.WellFormed b) (hheld : ∃ im : Image, im.Holds b env l) :
    (∀ im : Image, im.Holds b env l → im.DecodesDrives b env l) ↔
      l.drives.length ≤ 2 ∧ ∀ d ∈ l.drives, d.start * 2 ^ l.shift < 2 ^ 32 := by
  constructor
  · intro hall
    obtain ⟨im, h⟩ := hheld
    have hfit : ∀ d ∈ l.drives, d.start * 2 ^ l.shift < 2 ^ 32 := by
      intro d hd
      obtain ⟨es, -, hkeys⟩ := (h.decodes_iff hwf hbuffer).mp (hall im h)
      have hmem : (d.start * 2 ^ l.shift, d.osType.toNat) ∈ es.map (MbrRecord.key l.shift) := by
        rw [hkeys]
        exact List.mem_map_of_mem hd
      obtain ⟨e, -, hkey⟩ := List.mem_map.mp hmem
      rw [← show (MbrRecord.key l.shift e).1 = d.start * 2 ^ l.shift from congrArg Prod.fst hkey]
      exact Nat.mod_lt _ (by decide)
    refine ⟨?_, hfit⟩
    match hds : l.drives with
    | [] => exact Nat.zero_le _
    | [_] => exact Nat.le_succ _
    | [_, _] => exact le_rfl
    | d₁ :: d₂ :: d₃ :: ds => exact (not_decodes_long hwf hbuffer hds h hfit hall).elim
  · rintro ⟨hshort, hfit⟩ im h
    exact (h.decodes_iff hwf hbuffer).mpr (yields_of_short h hwf hshort hfit)

/-- A chain of so many drives in blocks 1, 3, 5 and so on, each with a partition in the block behind it. -/
def chainLayout (count : Nat) : DosLayout where
  shift := 9
  primaries := []
  extended := ⟨0, 0, 0, 0, OSTYPE_EXTENDED, 0, 0, 0, 1, 1⟩
  drives := (List.range count).map fun i => ⟨2 * i + 1, 2 * i + 2, 0x83⟩

/-- A disk with such a chain. -/
def chainImage (count : Nat) : Image where
  bytes i :=
    let sector := i / 512
    let boot := sector % 2 = 1 ∧ sector < 2 * count
    if i = 510 then 0x55 else if i = 511 then 0xaa
    else if i = 450 then OSTYPE_EXTENDED
    else if i = 454 ∨ i = 458 then 1
    else if boot ∧ i % 512 = 450 then 0x83
    else if boot ∧ (i % 512 = 454 ∨ i % 512 = 458) then 1
    else if boot ∧ sector + 2 < 2 * count then
      if i % 512 = 466 then OSTYPE_EXTENDED
      else if i % 512 = 470 then UInt8.ofNat (sector + 1)
      else if i % 512 = 474 then 1
      else 0
    else 0
  readable _ _ := true
  sectorSize := 512
  sectorCount := 16

theorem drives_decoded_iff_two :
    (∀ im : Image, im.Holds ⟨true, true, true, 512⟩ ⟨⟨0xff, 1, 2, 0xff⟩, fun _ => [], some fun _ => 0, none⟩
      (chainLayout 2) →
      im.DecodesDrives ⟨true, true, true, 512⟩ ⟨⟨0xff, 1, 2, 0xff⟩, fun _ => [], some fun _ => 0, none⟩
      (chainLayout 2)) ↔
      (chainLayout 2).drives.length ≤ 2 ∧
      ∀ d ∈ (chainLayout 2).drives, d.start * 2 ^ (chainLayout 2).shift < 2 ^ 32 := by
  refine drives_decoded_iff _ _ rfl _ ?_ ⟨chainImage 2, ?_⟩
  · constructor
    all_goals decide +kernel
  · refine ⟨⟨512, by decide +kernel, by decide +kernel⟩, fun _ => rfl, Option.isNone_iff_eq_none.mp (by decide +kernel),
      by decide +kernel, by decide +kernel, by decide +kernel, ?_⟩
    refine ⟨⟨⟨0, 0, 0, 0, 0x83, 0, 0, 0, 1, 1⟩, ⟨0, 0, 0, 0, OSTYPE_EXTENDED, 0, 0, 0, 2, 1⟩, by decide +kernel,
      ⟨rfl, rfl⟩, rfl, rfl⟩, ?_⟩
    exact ⟨⟨0, 0, 0, 0, 0x83, 0, 0, 0, 1, 1⟩, by decide +kernel, ⟨rfl, rfl⟩⟩

/-- The third link of the chain is taken to lead from block 3 to block 7, which is empty. -/
theorem third_drive_lost :
    (chainLayout 3).WellFormed ⟨true, true, true, 512⟩ ∧
      (chainImage 3).Holds ⟨true, true, true, 512⟩ ⟨⟨0xff, 1, 2, 0xff⟩, fun _ => [], some fun _ => 0, none⟩
      (chainLayout 3) ∧
      ¬ (chainImage 3).DecodesDrives ⟨true, true, true, 512⟩ ⟨⟨0xff, 1, 2, 0xff⟩, fun _ => [], some fun _ => 0, none⟩
        (chainLayout 3) := by
  have hwf : (chainLayout 3).WellFormed ⟨true, true, true, 512⟩ := by
    constructor
    all_goals decide +kernel
  have hholds : (chainImage 3).Holds ⟨true, true, true, 512⟩ ⟨⟨0xff, 1, 2, 0xff⟩, fun _ => [], some fun _ => 0, none⟩
      (chainLayout 3) := by
    refine ⟨⟨512, by decide +kernel, by decide +kernel⟩, fun _ => rfl, Option.isNone_iff_eq_none.mp (by decide +kernel),
      by decide +kernel, by decide +kernel, by decide +kernel, ?_⟩
    refine ⟨⟨⟨0, 0, 0, 0, 0x83, 0, 0, 0, 1, 1⟩, ⟨0, 0, 0, 0, OSTYPE_EXTENDED, 0, 0, 0, 2, 1⟩, by decide +kernel,
      ⟨rfl, rfl⟩, rfl, rfl⟩, ?_⟩
    refine ⟨⟨⟨0, 0, 0, 0, 0x83, 0, 0, 0, 1, 1⟩, ⟨0, 0, 0, 0, OSTYPE_EXTENDED, 0, 0, 0, 4, 1⟩, by decide +kernel,
      ⟨rfl, rfl⟩, rfl, rfl⟩, ?_⟩
    exact ⟨⟨0, 0, 0, 0, 0x83, 0, 0, 0, 1, 1⟩, by decide +kernel, ⟨rfl, rfl⟩⟩
  refine ⟨hwf, hholds, fun hdecodes => ?_⟩
  obtain ⟨-, next, hnext, e₁, e₂, es, -, hes, hkeys⟩ := hholds.behind_second hwf rfl rfl hdecodes
  obtain rfl : next = 7 := UInt32.toNat_inj.mp hnext
  rw [show (chainImage 3).bootRecords ⟨true, true, true, 512⟩ (chainLayout 3).shift 7 = [] by decide +kernel] at hes
  cases hes
  cases hkeys

end DiskStorage
