import MyOS.Library.Bytes

/-! Disks and their partitions: `blk_rw`, `add_partition` and the scan of the MBR and the GPT. -/

namespace MyOS.Fs

open Library

abbrev Sector := ℕ → UInt8

/-- A whole disk; `read` is what its driver delivers for one sector, an error being `none`. -/
structure Disk where
  sectors : ℕ
  sectors_lt : sectors < 2 ^ 64
  dev : ℕ
  read : ℕ → Option Sector

inductive BlockDevice
  | disk (sectors : ℕ)
  | part (parent : BlockDevice) (start sectors : ℕ)

inductive Request
  | nothing
  | einval
  | driver (lba count : ℕ)
  deriving DecidableEq, Repr

namespace BlockDevice

def sectors : BlockDevice → ℕ
  | disk n => n
  | part _ _ n => n

def toDisk : BlockDevice → ℕ → ℕ
  | disk _, lba => lba
  | part parent start _, lba => parent.toDisk ((lba + start) % 2 ^ 64)

def rw (bd : BlockDevice) (lba count : ℕ) : Request :=
  if count = 0 then .nothing
  else if (lba + count) % 2 ^ 64 < lba ∨ bd.sectors < (lba + count) % 2 ^ 64 then .einval
  else .driver (bd.toDisk lba) count

end BlockDevice

structure Partition where
  num : ℕ
  start : ℕ
  sectors : ℕ
  dev : ℕ
  deriving DecidableEq, Repr

inductive DivideError
  | divide
  deriving DecidableEq

namespace Disk

variable (disk : Disk)

def device : BlockDevice := .disk disk.sectors

def blkRead (lba : ℕ) : Option Sector :=
  match disk.device.rw lba 1 with
  | .driver l _ => disk.read l
  | _ => none

def addPartition (alloc : ℕ → Bool) (num start sectors : ℕ) : Option Partition :=
  if disk.sectors ≤ start ∨ sectors = 0 ∨ disk.sectors < (start + sectors) % 2 ^ 64 then none
  else if alloc num then some ⟨num, start, sectors, (disk.dev + num) % 2 ^ 32⟩ else none

end Disk

structure MbrEntry where
  type : UInt8
  lbaStart : ℕ
  sectors : ℕ

def mbrEntry (sec : Sector) (i : ℕ) : MbrEntry :=
  let a := 446 + 16 * i
  ⟨sec (a + 4), Bytes.read sec (a + 8) 4, Bytes.read sec (a + 12) 4⟩

structure GptHeader where
  signature : List UInt8
  entriesLba : ℕ
  numEntries : ℕ
  entrySize : ℕ

def gptHeader (sec : Sector) : GptHeader :=
  ⟨Bytes.load sec 0 8, Bytes.read sec 72 8, Bytes.read sec 80 4, Bytes.read sec 84 4⟩

def gptSignature : List UInt8 := [69, 70, 73, 32, 80, 65, 82, 84]

def gptEntryLen : ℕ := 128

structure GptEntry where
  typeGuid : List UInt8
  firstLba : ℕ
  lastLba : ℕ

def gptEntry (sec : Sector) (a : ℕ) : GptEntry :=
  ⟨Bytes.load sec a 16, Bytes.read sec (a + 32) 8, Bytes.read sec (a + 40) 8⟩

def GptEntry.empty (e : GptEntry) : Bool := e.typeGuid.all (· == 0)

namespace GptHeader

variable (h : GptHeader)

def perSector : ℕ := 512 / h.entrySize

def entryAt (sec : Sector) (i : ℕ) : GptEntry :=
  gptEntry sec (i % h.perSector * h.entrySize)

end GptHeader

namespace Disk

variable (disk : Disk) (alloc : ℕ → Bool)

def gptSector (h : GptHeader) (i : ℕ) : Option Sector :=
  disk.blkRead ((h.entriesLba + i / h.perSector) % 2 ^ 64)

def scanEntry (e : GptEntry) (i : ℕ) : Option Partition :=
  if ¬ e.empty ∧ e.firstLba ≤ e.lastLba then
    disk.addPartition alloc (i + 1) e.firstLba ((e.lastLba - e.firstLba + 1) % 2 ^ 64)
  else none

def scanEntries (h : GptHeader) : ℕ → ℕ → Sector → Except DivideError (List Partition)
  | 0, _, _ => .ok []
  | k + 1, i, sec =>
    if h.perSector = 0 then .error .divide
    else
      match if i % h.perSector = 0 then disk.gptSector h i else some sec with
      | none => .ok []
      | some sec =>
        (scanEntries h k (i + 1) sec).map
          ((disk.scanEntry alloc (h.entryAt sec i) i).toList ++ ·)

def scanGpt : Except DivideError (List Partition) :=
  match disk.blkRead 1 with
  | none => .ok []
  | some sec =>
    let h := gptHeader sec
    if h.signature ≠ gptSignature ∨ h.entrySize < gptEntryLen ∨ 256 < h.numEntries then .ok []
    else disk.scanEntries alloc h h.numEntries 0 sec

def scanMbr (sec : Sector) : List Partition :=
  (List.range 4).filterMap fun i =>
    let e := mbrEntry sec i
    if e.type ≠ 0 ∧ e.sectors ≠ 0 then disk.addPartition alloc (i + 1) e.lbaStart e.sectors
    else none

/-- `buffer`: the `kmalloc` of the sector buffer succeeds. The result is what is registered. -/
def scanPartitions (buffer : Bool) : Except DivideError (List Partition) :=
  if buffer then
    match disk.blkRead 0 with
    | none => .ok []
    | some sec =>
      if sec 510 = 0x55 ∧ sec 511 = 0xAA then
        if (mbrEntry sec 0).type = 0xEE then disk.scanGpt alloc
        else .ok (disk.scanMbr alloc sec)
      else .ok []
  else .ok []

end Disk

end MyOS.Fs

/-! When every registered partition has a part of its disk to itself. -/

namespace MyOS.Fs

open Library

def Partition.device (disk : Disk) (p : Partition) : BlockDevice :=
  .part disk.device p.start p.sectors

def Partition.Has (p : Partition) (s : ℕ) : Prop := p.start ≤ s ∧ s < p.start + p.sectors

structure HasGpt (disk : Disk) (h : GptHeader) : Prop where
  mbr : ∃ sec, disk.blkRead 0 = some sec ∧ sec 510 = 0x55 ∧ sec 511 = 0xAA ∧
    (mbrEntry sec 0).type = 0xEE
  header : ∃ sec, disk.blkRead 1 = some sec ∧ gptHeader sec = h
  signature : h.signature = gptSignature
  entrySize : gptEntryLen ≤ h.entrySize
  perSector : h.perSector ≠ 0
  numEntries : h.numEntries ≤ 256

def Disk.InTable (disk : Disk) (s : ℕ) : Prop :=
  s = 0 ∨ ∃ h, HasGpt disk h ∧ (s = 1 ∨ ∃ i < h.numEntries, s = (h.entriesLba + i / h.perSector) % 2 ^ 64)

/-- The partition ends on the disk, and no request on it reaches the driver outside of it, in the table or in another
one of the registered partitions. -/
structure Contained (disk : Disk) (ps : List Partition) (p : Partition) : Prop where
  fits : p.start + p.sectors ≤ disk.sectors
  request : ∀ lba count l c, lba < 2 ^ 64 → count < 2 ^ 32 →
    (p.device disk).rw lba count = .driver l c →
      c = count ∧ p.start ≤ l ∧ l + c ≤ p.start + p.sectors ∧
        ∀ s, l ≤ s → s < l + c → ¬ disk.InTable s ∧ ∀ q ∈ ps, q ≠ p → ¬ q.Has s

structure TableEntry where
  num : ℕ
  start : ℕ
  sectors : ℕ

inductive HasEntry (disk : Disk) : TableEntry → Prop
  | mbr {sec : Sector} {i : ℕ} (read : disk.blkRead 0 = some sec) (signature : sec 510 = 0x55 ∧ sec 511 = 0xAA)
    (noGpt : (mbrEntry sec 0).type ≠ 0xEE) (index : i < 4) (type : (mbrEntry sec i).type ≠ 0)
    (sectors : (mbrEntry sec i).sectors ≠ 0) :
    HasEntry disk ⟨i + 1, (mbrEntry sec i).lbaStart, (mbrEntry sec i).sectors⟩
  | gpt {h : GptHeader} {sec : Sector} {i : ℕ} (gpt : HasGpt disk h) (index : i < h.numEntries)
    (reads : ∀ j ≤ i, disk.gptSector h j ≠ none) (read : disk.gptSector h i = some sec)
    (used : (h.entryAt sec i).empty = false) (order : (h.entryAt sec i).firstLba ≤ (h.entryAt sec i).lastLba) :
    HasEntry disk ⟨i + 1, (h.entryAt sec i).firstLba, (h.entryAt sec i).lastLba - (h.entryAt sec i).firstLba + 1⟩

namespace TableEntry

variable (e : TableEntry) (disk : Disk)

def Has (s : ℕ) : Prop := e.start ≤ s ∧ s < e.start + e.sectors

def Fits : Prop := e.start + e.sectors ≤ disk.sectors

def Wraps : Prop := 0 < e.start ∧ e.start < disk.sectors ∧ e.start + e.sectors = 2 ^ 64

def partition : Partition := ⟨e.num, e.start, e.sectors, (disk.dev + e.num) % 2 ^ 32⟩

end TableEntry

/-- Of the entries that there is memory for, none ends with the sector `2^64 - 1`, and those that fit on the disk have no
sector of the table and none in common. -/
structure SoundTable (disk : Disk) (alloc : ℕ → Bool) : Prop where
  ends : ∀ e, HasEntry disk e → alloc e.num = true → ¬ e.Wraps disk
  table : ∀ e, HasEntry disk e → alloc e.num = true → e.Fits disk → ∀ s, e.Has s → ¬ disk.InTable s
  apart : ∀ e e', HasEntry disk e → HasEntry disk e' → alloc e.num = true → alloc e'.num = true → e.Fits disk →
    e'.Fits disk → e ≠ e' → ∀ s, e.Has s → ¬ e'.Has s

variable {disk : Disk} {alloc : ℕ → Bool} {p : Partition} {ps : List Partition} {h : GptHeader} {e : TableEntry}

lemma rw_driver {bd : BlockDevice} {lba count l c : ℕ} (h : bd.rw lba count = .driver l c) :
    c = count ∧ l = bd.toDisk lba ∧ lba ≤ (lba + count) % 2 ^ 64 ∧
      (lba + count) % 2 ^ 64 ≤ bd.sectors := by
  unfold BlockDevice.rw at h
  by_cases h0 : count = 0
  · simp [h0] at h
  rw [if_neg h0] at h
  by_cases hwrap : (lba + count) % 2 ^ 64 < lba ∨ bd.sectors < (lba + count) % 2 ^ 64
  · rw [if_pos hwrap] at h
    exact Request.noConfusion h
  · rw [if_neg hwrap] at h
    obtain ⟨rfl, rfl⟩ := Request.driver.inj h
    push Not at hwrap
    exact ⟨rfl, rfl, hwrap⟩

lemma rw_inside (hfit : p.start + p.sectors ≤ disk.sectors) {lba count l c : ℕ} (hl : lba < 2 ^ 64) (hc : count < 2 ^ 32)
    (hrw : (p.device disk).rw lba count = .driver l c) : c = count ∧ p.start ≤ l ∧ l + c ≤ p.start + p.sectors := by
  have hd := disk.sectors_lt
  obtain ⟨rfl, hlba, h₁, h₂⟩ := rw_driver hrw
  have h₃ : (lba + c) % 2 ^ 64 ≤ p.sectors := h₂
  have h₄ : l = (lba + p.start) % 2 ^ 64 := hlba
  omega

lemma rw_sector (hfit : p.start + p.sectors ≤ disk.sectors) {s : ℕ} (hs : p.Has s) :
    (p.device disk).rw (s - p.start) 1 = .driver s 1 := by
  have hd := disk.sectors_lt
  obtain ⟨hle, hlt⟩ := hs
  have hend : (s - p.start + 1) % 2 ^ 64 = s - p.start + 1 := Nat.mod_eq_of_lt (by omega)
  have hplace : (p.device disk).toDisk (s - p.start) = s := by
    show (s - p.start + p.start) % 2 ^ 64 = s
    rw [Nat.sub_add_cancel hle]
    exact Nat.mod_eq_of_lt (by omega)
  have hsize : (p.device disk).sectors = p.sectors := rfl
  rw [BlockDevice.rw, if_neg Nat.one_ne_zero, hend, hsize, if_neg (by omega), hplace]

lemma lastLba_lt (sec : Sector) (i : ℕ) : (h.entryAt sec i).lastLba < 2 ^ 64 := Bytes.read_lt

lemma scanEntry_wraps {e : GptEntry} {i : ℕ} (ha : alloc (i + 1) = true)
    (he : e.empty = false) (hl : e.lastLba = 2 ^ 64 - 1) (h0 : 0 < e.firstLba)
    (hf : e.firstLba < disk.sectors) :
    ∃ p, disk.scanEntry alloc e i = some p ∧ ¬ p.start + p.sectors ≤ disk.sectors := by
  have hd := disk.sectors_lt
  have hsize : (e.lastLba - e.firstLba + 1) % 2 ^ 64 = 2 ^ 64 - e.firstLba := by omega
  refine ⟨⟨i + 1, e.firstLba, 2 ^ 64 - e.firstLba, (disk.dev + (i + 1)) % 2 ^ 32⟩, ?_, by simp only; omega⟩
  unfold Disk.scanEntry
  rw [if_pos ⟨by simp [he], by omega⟩, hsize]
  unfold Disk.addPartition
  rw [if_neg (by omega), if_pos ha]

lemma firstEntry (sec : Sector) : 0 % h.perSector ≠ 0 → disk.gptSector h 0 = some sec :=
  fun hne => absurd (Nat.zero_mod _) hne

lemma mem_scanEntries (alloc : ℕ → Bool) (p : Partition) (hps : h.perSector ≠ 0) {k i : ℕ}
    {sec : Sector} (hsec : i % h.perSector ≠ 0 → disk.gptSector h i = some sec) :
    ∃ ps, disk.scanEntries alloc h k i sec = .ok ps ∧ (p ∈ ps ↔
      ∃ m, i ≤ m ∧ m < i + k ∧ (∀ j, i ≤ j → j ≤ m → disk.gptSector h j ≠ none) ∧
        ∃ s, disk.gptSector h m = some s ∧
          disk.scanEntry alloc (h.entryAt s m) m = some p) := by
  induction k generalizing i sec with
  | zero =>
    refine ⟨[], rfl, ?_⟩
    simp only [List.not_mem_nil, false_iff, not_exists, not_and]
    intro m h₁ h₂
    omega
  | succ k ih =>
    have hread : (if i % h.perSector = 0 then disk.gptSector h i else some sec) =
        disk.gptSector h i := by
      by_cases hi : i % h.perSector = 0
      · rw [if_pos hi]
      · rw [if_neg hi, hsec hi]
    unfold Disk.scanEntries
    rw [if_neg hps, hread]
    cases hs : disk.gptSector h i with
    | none =>
      refine ⟨[], rfl, ?_⟩
      simp only [List.not_mem_nil, false_iff, not_exists, not_and]
      intro m h₁ _ h₃
      exact absurd hs (h₃ i le_rfl h₁)
    | some s =>
      have hnext : (i + 1) % h.perSector ≠ 0 → disk.gptSector h (i + 1) = some s := by
        intro hne
        have hdiv : (i + 1) / h.perSector = i / h.perSector := by
          rw [Nat.succ_div, if_neg (by rwa [Nat.dvd_iff_mod_eq_zero]), Nat.add_zero]
        rw [← hs]
        unfold Disk.gptSector
        rw [hdiv]
      obtain ⟨ps, hok, hmem⟩ := ih hnext
      refine ⟨(disk.scanEntry alloc (h.entryAt s i) i).toList ++ ps, ?_, ?_⟩
      · simp only [hok]
        rfl
      · rw [List.mem_append, hmem, Option.mem_toList]
        constructor
        · rintro (hp | ⟨m, h₁, h₂, h₃, h₄⟩)
          · refine ⟨i, le_rfl, by omega, ?_, s, hs, hp⟩
            intro j h₁ h₂
            obtain rfl := le_antisymm h₁ h₂
            simp [hs]
          · refine ⟨m, by omega, by omega, ?_, h₄⟩
            intro j h₅ h₆
            rcases Nat.eq_or_lt_of_le h₅ with rfl | hlt
            · simp [hs]
            · exact h₃ j hlt h₆
        · rintro ⟨m, h₁, h₂, h₃, s', hs', hp⟩
          rcases Nat.eq_or_lt_of_le h₁ with rfl | hlt
          · cases hs.symm.trans hs'
            exact .inl hp
          · exact .inr ⟨m, hlt, by omega, fun j h₄ h₅ => h₃ j (by omega) h₅, s', hs', hp⟩

lemma scanGpt_eq (alloc : ℕ → Bool) (hg : HasGpt disk h) : ∃ sec,
    disk.scanGpt alloc = disk.scanEntries alloc h h.numEntries 0 sec := by
  obtain ⟨sec, hr, rfl⟩ := hg.header
  refine ⟨sec, ?_⟩
  unfold Disk.scanGpt
  simp only [hr]
  rw [if_neg]
  push Not
  exact ⟨hg.signature, hg.entrySize, hg.numEntries⟩

lemma HasEntry.bounds (he : HasEntry disk e) : 0 < e.sectors ∧ e.start + e.sectors ≤ 2 ^ 64 := by
  cases he with
  | @mbr sec i _ _ _ _ _ hne =>
    have h₁ : (mbrEntry sec i).lbaStart < 256 ^ 4 := Bytes.read_lt
    have h₂ : (mbrEntry sec i).sectors < 256 ^ 4 := Bytes.read_lt
    exact ⟨Nat.pos_of_ne_zero hne, by simp only; omega⟩
  | @gpt h sec i _ _ _ _ _ hle =>
    have hlast := lastLba_lt (h := h) sec i
    exact ⟨Nat.succ_pos _, by simp only; omega⟩

def Registers (disk : Disk) (alloc : ℕ → Bool) (e : TableEntry) (p : Partition) : Prop :=
  disk.addPartition alloc e.num e.start (e.sectors % 2 ^ 64) = some p

lemma registers_iff (he : HasEntry disk e) : Registers disk alloc e p ↔
    alloc e.num = true ∧ p = e.partition disk ∧ (e.Fits disk ∨ e.Wraps disk) := by
  have hd := disk.sectors_lt
  obtain ⟨hpos, hend⟩ := he.bounds
  unfold Registers Disk.addPartition TableEntry.Fits TableEntry.Wraps TableEntry.partition
  constructor
  · intro hp
    split_ifs at hp with hbad ha
    cases hp
    have hsize : e.sectors % 2 ^ 64 = e.sectors := Nat.mod_eq_of_lt (by omega)
    rw [hsize] at hbad ⊢
    exact ⟨ha, rfl, by omega⟩
  · rintro ⟨ha, rfl, hor⟩
    have hsize : e.sectors % 2 ^ 64 = e.sectors := Nat.mod_eq_of_lt (by omega)
    rw [hsize, if_neg (by omega), if_pos ha]

lemma mem_scanMbr {sec : Sector} (hr : disk.blkRead 0 = some sec) (hsig : sec 510 = 0x55 ∧ sec 511 = 0xAA)
    (hno : (mbrEntry sec 0).type ≠ 0xEE) :
    p ∈ disk.scanMbr alloc sec ↔ ∃ e, HasEntry disk e ∧ Registers disk alloc e p := by
  have hsize : ∀ i, (mbrEntry sec i).sectors % 2 ^ 64 = (mbrEntry sec i).sectors := fun i => by
    have hlt : (mbrEntry sec i).sectors < 256 ^ 4 := Bytes.read_lt
    exact Nat.mod_eq_of_lt (by omega)
  constructor
  · intro hp
    obtain ⟨i, hi, hp⟩ := List.mem_filterMap.1 hp
    simp only at hp
    split_ifs at hp with hused
    refine ⟨_, .mbr hr hsig hno (List.mem_range.1 hi) hused.1 hused.2, ?_⟩
    rwa [Registers, hsize]
  · rintro ⟨e, he, hp⟩
    cases he with
    | @mbr sec' i hr' hsig' hno' hi ht hs =>
      cases hr.symm.trans hr'
      refine List.mem_filterMap.2 ⟨i, List.mem_range.2 hi, ?_⟩
      rw [Registers, hsize] at hp
      exact (if_pos ⟨ht, hs⟩).trans hp
    | gpt hg =>
      obtain ⟨sec', hr', -, -, hee⟩ := hg.mbr
      cases hr.symm.trans hr'
      exact absurd hee hno

lemma scanEntry_eq_some {g : GptEntry} {i : ℕ} : disk.scanEntry alloc g i = some p ↔ g.empty = false ∧
    g.firstLba ≤ g.lastLba ∧ Registers disk alloc ⟨i + 1, g.firstLba, g.lastLba - g.firstLba + 1⟩ p := by
  rw [Disk.scanEntry, Registers]
  split_ifs with hused
  · rw [Bool.not_eq_true] at hused
    exact ⟨fun hp => ⟨hused.1, hused.2, hp⟩, fun hp => hp.2.2⟩
  · refine iff_of_false nofun fun hp => hused ⟨?_, hp.2.1⟩
    rw [hp.1]
    exact Bool.false_ne_true

lemma mem_scanGpt (hg : HasGpt disk h) : ∃ ps, disk.scanGpt alloc = .ok ps ∧
    (p ∈ ps ↔ ∃ e, HasEntry disk e ∧ Registers disk alloc e p) := by
  obtain ⟨sec, hscan⟩ := scanGpt_eq alloc hg
  obtain ⟨ps, hok, hmem⟩ := mem_scanEntries alloc p hg.perSector (firstEntry sec) (k := h.numEntries)
  refine ⟨ps, hscan.trans hok, hmem.trans ⟨?_, ?_⟩⟩
  · rintro ⟨m, -, hm, hread, s, hs, hp⟩
    obtain ⟨hused, hle, hp⟩ := scanEntry_eq_some.1 hp
    exact ⟨_, .gpt hg (by simpa using hm) (fun j hj => hread j (Nat.zero_le j) hj) hs hused hle, hp⟩
  · rintro ⟨e, he, hp⟩
    cases he with
    | mbr hr hsig hno =>
      obtain ⟨sec', hr', -, -, hee⟩ := hg.mbr
      cases hr.symm.trans hr'
      exact absurd hee hno
    | @gpt h' s m hg' hm hread hs hused hle =>
      obtain ⟨sec₁, hr₁, rfl⟩ := hg.header
      obtain ⟨sec₂, hr₂, rfl⟩ := hg'.header
      cases hr₁.symm.trans hr₂
      exact ⟨m, Nat.zero_le m, by simpa using hm, fun j _ hj => hread j hj, s, hs, scanEntry_eq_some.2 ⟨hused, hle, hp⟩⟩

lemma scanGpt_cases {ps : List Partition} (hps : disk.scanGpt alloc = .ok ps) :
    ps = [] ∨ ∃ sec, disk.blkRead 1 = some sec ∧ (gptHeader sec).signature = gptSignature ∧
      gptEntryLen ≤ (gptHeader sec).entrySize ∧ (gptHeader sec).numEntries ≤ 256 ∧
      disk.scanEntries alloc (gptHeader sec) (gptHeader sec).numEntries 0 sec = .ok ps := by
  unfold Disk.scanGpt at hps
  cases hr : disk.blkRead 1 with
  | none =>
    rw [hr] at hps
    exact .inl (Except.ok.inj hps).symm
  | some sec =>
    simp only [hr] at hps
    split_ifs at hps with hbad
    · exact .inl (Except.ok.inj hps).symm
    · push Not at hbad
      exact .inr ⟨sec, rfl, hbad.1, hbad.2.1, hbad.2.2, hps⟩

lemma perSector_ne_zero {k : ℕ} {sec : Sector} {ps : List Partition}
    (hok : disk.scanEntries alloc h k 0 sec = .ok ps) : ps = [] ∨ h.perSector ≠ 0 := by
  cases k with
  | zero => exact .inl (Except.ok.inj hok).symm
  | succ k =>
    right
    intro h0
    unfold Disk.scanEntries at hok
    simp [h0] at hok

lemma scanGpt_nothing (hok : disk.scanGpt alloc = .ok ps) (hmbr : ∃ sec, disk.blkRead 0 = some sec ∧ sec 510 = 0x55 ∧
    sec 511 = 0xAA ∧ (mbrEntry sec 0).type = 0xEE) (hno : ¬ ∃ h, HasGpt disk h) : ps = [] := by
  rcases scanGpt_cases hok with hps | ⟨sec, hsec, h₁, h₂, h₃, hscan⟩
  · exact hps
  · exact (perSector_ne_zero hscan).resolve_right fun hper => hno ⟨_, hmbr, ⟨sec, hsec, rfl⟩, h₁, h₂, hper, h₃⟩

lemma HasEntry.scans (he : HasEntry disk e) (alloc : ℕ → Bool) : ∃ ps, disk.scanPartitions alloc true = .ok ps := by
  rw [Disk.scanPartitions, if_pos rfl]
  cases he with
  | mbr hr hsig hno =>
    rw [hr]
    dsimp only
    rw [if_pos hsig, if_neg hno]
    exact ⟨_, rfl⟩
  | gpt hg =>
    obtain ⟨ps, hok, -⟩ : ∃ ps, disk.scanGpt alloc = .ok ps ∧ _ := mem_scanGpt (p := ⟨0, 0, 0, 0⟩) hg
    obtain ⟨sec, hr, h510, h511, hee⟩ := hg.mbr
    rw [hr]
    dsimp only
    rw [if_pos ⟨h510, h511⟩, if_pos hee]
    exact ⟨ps, hok⟩

lemma mem_scanPartitions (hok : disk.scanPartitions alloc true = .ok ps) :
    p ∈ ps ↔ ∃ e, HasEntry disk e ∧ Registers disk alloc e p := by
  have hnone (hno : ∀ e, ¬ HasEntry disk e) (hps : ps = []) :
      p ∈ ps ↔ ∃ e, HasEntry disk e ∧ Registers disk alloc e p := by
    rw [hps]
    exact iff_of_false List.not_mem_nil fun ⟨e, he, _⟩ => hno e he
  rw [Disk.scanPartitions, if_pos rfl] at hok
  cases hr : disk.blkRead 0 with
  | none =>
    rw [hr] at hok
    refine hnone (fun e he => ?_) (Except.ok.inj hok).symm
    cases he with
    | mbr hr' => exact nomatch hr.symm.trans hr'
    | gpt hg =>
      obtain ⟨sec, hr', -⟩ := hg.mbr
      exact nomatch hr.symm.trans hr'
  | some sec =>
    simp only [hr] at hok
    split_ifs at hok with hsig hee
    · by_cases hg : ∃ h, HasGpt disk h
      · obtain ⟨h, hg⟩ := hg
        obtain ⟨ps', hok', hmem⟩ := mem_scanGpt (p := p) hg
        cases hok.symm.trans hok'
        exact hmem
      · refine hnone (fun e he => ?_) ?_
        · cases he with
          | mbr hr' _ hno =>
            cases hr.symm.trans hr'
            exact hno hee
          | gpt hg' => exact hg ⟨_, hg'⟩
        · exact scanGpt_nothing hok ⟨sec, hr, hsig.1, hsig.2, hee⟩ hg
    · cases hok
      exact mem_scanMbr hr hsig hee
    · refine hnone (fun e he => ?_) (Except.ok.inj hok).symm
      cases he with
      | mbr hr' hsig' =>
        cases hr.symm.trans hr'
        exact hsig hsig'
      | gpt hg =>
        obtain ⟨sec', hr', h510, h511, -⟩ := hg.mbr
        cases hr.symm.trans hr'
        exact hsig ⟨h510, h511⟩

lemma Contained.sector (hc : Contained disk ps p) {s : ℕ} (hs : p.Has s) :
    ¬ disk.InTable s ∧ ∀ q ∈ ps, q ≠ p → ¬ q.Has s := by
  have hd := disk.sectors_lt
  have hfit := hc.fits
  have hlt := hs.2
  obtain ⟨-, -, -, hall⟩ := hc.request _ _ _ _ (by omega) (by decide) (rw_sector hfit hs)
  exact hall s le_rfl (Nat.lt_succ_self s)

lemma partition_inj {e e' : TableEntry} (heq : e.partition disk = e'.partition disk) : e = e' := by
  cases e
  cases e'
  obtain ⟨rfl, rfl, rfl, -⟩ := Partition.mk.inj heq
  rfl

lemma SoundTable.of_contained
    (hall : ∀ ps, disk.scanPartitions alloc true = .ok ps → ∀ p ∈ ps, Contained disk ps p) : SoundTable disk alloc := by
  have hregister {e : TableEntry} (he : HasEntry disk e) (ha : alloc e.num = true) (hor : e.Fits disk ∨ e.Wraps disk) :
      ∃ ps, disk.scanPartitions alloc true = .ok ps ∧ e.partition disk ∈ ps ∧ Contained disk ps (e.partition disk) := by
    obtain ⟨ps, hok⟩ := he.scans alloc
    have hmem := (mem_scanPartitions hok).2 ⟨e, he, (registers_iff he).2 ⟨ha, rfl, hor⟩⟩
    exact ⟨ps, hok, hmem, hall ps hok _ hmem⟩
  refine ⟨fun e he ha hw => ?_, fun e he ha hf s hs => ?_, fun e e' he he' ha ha' hf hf' hne s hs hs' => ?_⟩
  · obtain ⟨ps, -, -, hc⟩ := hregister he ha (.inr hw)
    have hfits : e.start + e.sectors ≤ disk.sectors := hc.fits
    have hd := disk.sectors_lt
    obtain ⟨-, -, hend⟩ := hw
    omega
  · obtain ⟨ps, -, -, hc⟩ := hregister he ha (.inl hf)
    exact (hc.sector hs).1
  · obtain ⟨ps, hok, -, hc⟩ := hregister he ha (.inl hf)
    have hmem := (mem_scanPartitions hok).2 ⟨e', he', (registers_iff he').2 ⟨ha', rfl, .inl hf'⟩⟩
    refine (hc.sector hs).2 _ hmem (fun heq => hne ?_) hs'
    exact (partition_inj heq).symm

lemma SoundTable.contained (hsound : SoundTable disk alloc) (hok : disk.scanPartitions alloc true = .ok ps) (hp : p ∈ ps) :
    Contained disk ps p := by
  have hentry {q : Partition} (hq : q ∈ ps) :
      ∃ e, HasEntry disk e ∧ alloc e.num = true ∧ q = e.partition disk ∧ e.Fits disk := by
    obtain ⟨e, he, hreg⟩ := (mem_scanPartitions hok).1 hq
    obtain ⟨ha, rfl, hor⟩ := (registers_iff he).1 hreg
    exact ⟨e, he, ha, rfl, hor.resolve_right (hsound.ends e he ha)⟩
  obtain ⟨e, he, ha, rfl, hf⟩ := hentry hp
  refine ⟨hf, fun lba count l c hl hc hrw => ?_⟩
  obtain ⟨hcount, hstart, hend⟩ := rw_inside (p := e.partition disk) hf hl hc hrw
  refine ⟨hcount, hstart, hend, fun s hs hs' => ?_⟩
  have hin : e.Has s := ⟨hstart.trans hs, hs'.trans_le hend⟩
  refine ⟨hsound.table e he ha hf s hin, fun q hq hne => ?_⟩
  obtain ⟨e', he', ha', rfl, hf'⟩ := hentry hq
  refine hsound.apart e e' he he' ha ha' hf hf' (fun heq => hne ?_) s hin
  rw [heq]

theorem scanPartitions_contained_iff (disk : Disk) (alloc : ℕ → Bool) (buffer : Bool) :
    (∀ ps, disk.scanPartitions alloc buffer = .ok ps → ∀ p ∈ ps, Contained disk ps p) ↔
      (buffer = true → SoundTable disk alloc) := by
  constructor
  · rintro hall rfl
    exact SoundTable.of_contained hall
  · intro hsound ps hok p hp
    cases buffer with
    | false =>
      cases hok
      exact absurd hp List.not_mem_nil
    | true => exact (hsound rfl).contained hok hp

section Tables

/-- A protective MBR, a header with one entry, and the entry: from the sector 100 to `2^64 - 1`. -/
def wrappingSectors : ℕ → Sector
  | 0 => Bytes.store (Bytes.store (fun _ => 0) 450 [0xEE]) 510 [0x55, 0xAA]
  | 1 => Bytes.write (Bytes.write (Bytes.write (Bytes.store (fun _ => 0) 0 gptSignature) 72 8 2) 80 4 1)
      84 4 128
  | _ => Bytes.write (Bytes.write (Bytes.write (fun _ => 0) 0 16 1) 32 8 100) 40 8 (2 ^ 64 - 1)

def wrappingDisk : Disk where
  sectors := 1000
  sectors_lt := by decide
  dev := 2048
  read lba := some (wrappingSectors lba)

lemma wrappingDisk_scan : wrappingDisk.scanPartitions (fun _ => true) true =
    .ok [⟨1, 100, 2 ^ 64 - 100, 2049⟩] := by
  decide +kernel

/-- An MBR with two entries: the sectors 0 to 99 and the sectors 50 to 149. -/
def sharedSector : Sector :=
  Bytes.store (Bytes.store (Bytes.store (fun _ => 0) 450 [0x83, 0, 0, 0, 0, 0, 0, 0, 100]) 466 [0x83, 0, 0, 0, 50, 0, 0, 0, 100])
    510 [0x55, 0xAA]

def sharedDisk : Disk := { wrappingDisk with read := fun _ => some sharedSector }

lemma sharedDisk_scan : sharedDisk.scanPartitions (fun _ => true) true =
    .ok [⟨1, 0, 100, 2049⟩, ⟨2, 50, 100, 2050⟩] := by
  decide +kernel

theorem not_contained_wrappingDisk :
    (¬ ∀ ps, wrappingDisk.scanPartitions (fun _ => true) true = .ok ps →
      ∀ p ∈ ps, p.start + p.sectors ≤ wrappingDisk.sectors) ∧
    (¬ ∀ ps, wrappingDisk.scanPartitions (fun _ => true) true = .ok ps → ∀ p ∈ ps, Contained wrappingDisk ps p) ∧
    ∃ ps, sharedDisk.scanPartitions (fun _ => true) true = .ok ps ∧ ∃ p ∈ ps, (p.Has 0 ∧ sharedDisk.InTable 0) ∧
      ∃ q ∈ ps, q ≠ p ∧ p.Has 50 ∧ q.Has 50 := by
  have hend : ¬ 100 + (2 ^ 64 - 100) ≤ wrappingDisk.sectors := by decide
  refine ⟨fun hall => ?_, fun hall => ?_, ?_⟩
  · exact hend (hall _ wrappingDisk_scan _ (List.mem_singleton_self _))
  · exact hend (hall _ wrappingDisk_scan _ (List.mem_singleton_self _)).fits
  · refine ⟨_, sharedDisk_scan, ⟨1, 0, 100, 2049⟩, .head _, ⟨⟨by decide, by decide⟩, .inl rfl⟩, ⟨2, 50, 100, 2050⟩,
      .tail _ (.head _), by decide, ⟨by decide, by decide⟩, by decide, by decide⟩

end Tables

end MyOS.Fs
