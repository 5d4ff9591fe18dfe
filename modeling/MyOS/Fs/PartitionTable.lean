import MyOS.Fs.Partition

/-! What `scan_partitions` registers of a GPT, whatever the size of its entries is. -/

namespace MyOS.Fs

open Library

namespace Disk

variable (disk : Disk) (alloc : ℕ → Bool)

def bytesFrom (lba : ℕ) : ℕ → UInt8 := fun a =>
  (disk.blkRead (lba + a / 512)).elim 0 fun sec => sec (a % 512)

def tableEntry (h : GptHeader) (i : ℕ) : GptEntry := gptEntry (disk.bytesFrom h.entriesLba) (i * h.entrySize)

def entryPartition (e : GptEntry) (i : ℕ) : Option Partition :=
  if e.empty = false ∧ e.firstLba ≤ e.lastLba ∧ e.lastLba < disk.sectors ∧ alloc (i + 1) = true then
    some ⟨i + 1, e.firstLba, e.lastLba - e.firstLba + 1, (disk.dev + (i + 1)) % 2 ^ 32⟩
  else none

def tablePartitions (h : GptHeader) : List Partition :=
  (List.range h.numEntries).filterMap fun i => disk.entryPartition alloc (disk.tableEntry h i) i

end Disk

structure Announced (disk : Disk) (h : GptHeader) : Prop where
  mbr : ∃ sec, disk.blkRead 0 = some sec ∧ sec 510 = 0x55 ∧ sec 511 = 0xAA ∧
    (mbrEntry sec 0).type = 0xEE
  header : ∃ sec, disk.blkRead 1 = some sec ∧ gptHeader sec = h
  signature : h.signature = gptSignature
  entrySize : gptEntryLen ≤ h.entrySize
  numEntries : h.numEntries ≤ 256

structure ValidGpt (disk : Disk) (h : GptHeader) : Prop extends Announced disk h where
  multiple : gptEntryLen ∣ h.entrySize
  table : ∀ a < h.numEntries * h.entrySize, disk.blkRead (h.entriesLba + a / 512) ≠ none

/-- The entries are of a size that fills the sectors, or there is only one in the first sector. -/
def Fills (h : GptHeader) : Prop := h.entrySize ∣ 512 ∨ h.entrySize ≤ 512 ∧ h.numEntries ≤ 1

def Wraps (disk : Disk) (alloc : ℕ → Bool) (e : GptEntry) (i : ℕ) : Prop :=
  alloc (i + 1) = true ∧ e.empty = false ∧ e.lastLba = 2 ^ 64 - 1 ∧ 0 < e.firstLba ∧ e.firstLba < disk.sectors

variable {disk : Disk} {alloc : ℕ → Bool} {h h' : GptHeader} {e : GptEntry} {i : ℕ} {p : Partition}

lemma blkRead_lt {lba : ℕ} (hl : disk.blkRead lba ≠ none) : lba < 2 ^ 64 := by
  by_contra hge
  refine hl ?_
  rw [Disk.blkRead, BlockDevice.rw, if_neg Nat.one_ne_zero, if_pos]
  left
  omega

lemma scanEntry_eq (hl : e.lastLba < 2 ^ 64) (hno : ¬ Wraps disk alloc e i) :
    disk.scanEntry alloc e i = disk.entryPartition alloc e i := by
  have hd := disk.sectors_lt
  rw [Disk.scanEntry, Disk.entryPartition]
  by_cases hused : e.empty = false ∧ e.firstLba ≤ e.lastLba
  · obtain ⟨hempty, hle⟩ := hused
    rw [if_pos ⟨by simp [hempty], hle⟩, Disk.addPartition]
    by_cases hlast : e.lastLba = 2 ^ 64 - 1
    · rw [if_neg (c := _ ∧ _) fun hc => absurd hc.2.2.1 (by omega)]
      by_cases hbad : disk.sectors ≤ e.firstLba ∨ (e.lastLba - e.firstLba + 1) % 2 ^ 64 = 0 ∨
          disk.sectors < (e.firstLba + (e.lastLba - e.firstLba + 1) % 2 ^ 64) % 2 ^ 64
      · rw [if_pos hbad]
      · rw [if_neg hbad, if_neg]
        exact fun ha => hno ⟨ha, hempty, hlast, by omega, by omega⟩
    · have hcount : (e.lastLba - e.firstLba + 1) % 2 ^ 64 = e.lastLba - e.firstLba + 1 :=
        Nat.mod_eq_of_lt (by omega)
      have hend : (e.firstLba + (e.lastLba - e.firstLba + 1)) % 2 ^ 64 = e.lastLba + 1 := by
        rw [show e.firstLba + (e.lastLba - e.firstLba + 1) = e.lastLba + 1 by omega]
        exact Nat.mod_eq_of_lt (by omega)
      rw [hcount, hend]
      by_cases hfit : e.lastLba < disk.sectors
      · rw [if_neg (by omega)]
        simp only [hempty, hle, hfit, true_and]
      · rw [if_pos (by omega), if_neg fun hc => hfit hc.2.2.1]
  · rw [if_neg (by simpa using hused), if_neg fun hc => hused ⟨hc.1, hc.2.1⟩]

lemma entryPartition_fits (hp : disk.entryPartition alloc e i = some p) : p.start + p.sectors ≤ disk.sectors := by
  rw [Disk.entryPartition] at hp
  split_ifs at hp with hc
  cases hp
  simp only
  omega

lemma scanEntries_eq (alloc : ℕ → Bool) (hps : h.perSector ≠ 0) (k : ℕ)
    (hread : ∀ m < i + k, disk.gptSector h m ≠ none) {sec : Sector}
    (hsec : i % h.perSector ≠ 0 → disk.gptSector h i = some sec) :
    disk.scanEntries alloc h k i sec = .ok ((List.range' i k).filterMap fun m =>
      (disk.gptSector h m).bind fun s => disk.scanEntry alloc (h.entryAt s m) m) := by
  induction k generalizing i sec with
  | zero => rfl
  | succ k ih =>
    obtain ⟨s, hs⟩ := Option.ne_none_iff_exists'.1 (hread i (by omega))
    have hthis : (if i % h.perSector = 0 then disk.gptSector h i else some sec) = some s := by
      by_cases hi : i % h.perSector = 0
      · rw [if_pos hi, hs]
      · rw [if_neg hi, ← hsec hi, hs]
    have hnext : (i + 1) % h.perSector ≠ 0 → disk.gptSector h (i + 1) = some s := by
      intro hne
      rw [← hs, Disk.gptSector, Disk.gptSector, Nat.succ_div, if_neg (by rwa [Nat.dvd_iff_mod_eq_zero]), Nat.add_zero]
    rw [Disk.scanEntries, if_neg hps, hthis]
    dsimp only
    rw [ih (fun m hm => hread m (by omega)) hnext, List.range'_succ, List.filterMap_cons, hs]
    dsimp only [Option.bind_some]
    cases disk.scanEntry alloc (h.entryAt s i) i <;> rfl

lemma gptEntry_shift {m m' : Sector} {a b : ℕ} (h : ∀ x < 48, m' (b + x) = m (a + x)) : gptEntry m' b = gptEntry m a := by
  have hread : ∀ k, k + 8 ≤ 48 → Bytes.read m' (b + k) 8 = Bytes.read m (a + k) 8 := fun k hk =>
    Bytes.read_shift fun x hx => by
      rw [Nat.add_assoc, Nat.add_assoc]
      exact h (k + x) (by omega)
  rw [gptEntry, gptEntry, Bytes.load_shift fun x hx => h x (by omega), hread 32 (by norm_num), hread 40 (by norm_num)]

lemma entry_inside (hs : gptEntryLen ≤ h.entrySize) (hps : h.perSector ≠ 0) (i : ℕ) :
    i % h.perSector * h.entrySize + gptEntryLen ≤ 512 := by
  have hlt : i % h.perSector < h.perSector := Nat.mod_lt _ (Nat.pos_of_ne_zero hps)
  calc i % h.perSector * h.entrySize + gptEntryLen ≤ i % h.perSector * h.entrySize + h.entrySize := by omega
    _ = (i % h.perSector + 1) * h.entrySize := by ring
    _ ≤ h.perSector * h.entrySize := Nat.mul_le_mul_right _ hlt
    _ ≤ 512 := Nat.div_mul_le_self ..

lemma perSector_ne_zero_iff (hs : gptEntryLen ≤ h.entrySize) : h.perSector ≠ 0 ↔ h.entrySize ≤ 512 := by
  have hpos : 0 < h.entrySize := lt_of_lt_of_le (by decide) hs
  rw [GptHeader.perSector, Ne, Nat.div_eq_zero_iff, not_or, not_lt]
  exact and_iff_right hpos.ne'

lemma Fills.perSector (hf : Fills h) (hs : gptEntryLen ≤ h.entrySize) : h.perSector ≠ 0 :=
  (perSector_ne_zero_iff hs).2 (hf.elim (Nat.le_of_dvd (by decide)) And.left)

lemma Fills.split (hf : Fills h) (hi : i < h.numEntries) :
    i * h.entrySize = i / h.perSector * 512 + i % h.perSector * h.entrySize := by
  rcases hf with hdvd | ⟨-, hone⟩
  · have hfull : h.perSector * h.entrySize = 512 := Nat.div_mul_cancel hdvd
    conv_lhs => rw [← Nat.div_add_mod' i h.perSector]
    rw [Nat.add_mul, Nat.mul_assoc, hfull]
  · obtain rfl : i = 0 := by omega
    rw [Nat.zero_div, Nat.zero_mod, Nat.zero_mul, Nat.zero_mul]

lemma entryAt_eq (hv : ValidGpt disk h) (hf : Fills h) (hi : i < h.numEntries) :
    ∃ s, disk.gptSector h i = some s ∧ h.entryAt s i = disk.tableEntry h i := by
  have hs := hv.entrySize
  have hpos : 0 < h.entrySize := lt_of_lt_of_le (by decide) hs
  have hsplit := hf.split hi
  have hin := entry_inside hs (hf.perSector hs) i
  have hlen : gptEntryLen = 128 := rfl
  have hplace : i * h.entrySize / 512 = i / h.perSector := by omega
  have hread := hv.table (i * h.entrySize) (Nat.mul_lt_mul_of_pos_right hi hpos)
  rw [hplace] at hread
  obtain ⟨s, hsec⟩ := Option.ne_none_iff_exists'.1 hread
  refine ⟨s, ?_, gptEntry_shift fun x hx => ?_⟩
  · rw [Disk.gptSector, Nat.mod_eq_of_lt (blkRead_lt hread), hsec]
  · have hdiv : (i * h.entrySize + x) / 512 = i / h.perSector := by omega
    have hmod : (i * h.entrySize + x) % 512 = i % h.perSector * h.entrySize + x := by omega
    rw [Disk.bytesFrom, hdiv, hmod, hsec]
    rfl

lemma scanPartitions_announced (alloc : ℕ → Bool) (hg : Announced disk h) : ∃ sec,
    disk.scanPartitions alloc true = disk.scanEntries alloc h h.numEntries 0 sec := by
  obtain ⟨mbr, hr, h510, h511, hee⟩ := hg.mbr
  obtain ⟨sec, hsec, rfl⟩ := hg.header
  refine ⟨sec, ?_⟩
  have hgood : ¬ ((gptHeader sec).signature ≠ gptSignature ∨ (gptHeader sec).entrySize < gptEntryLen ∨
      256 < (gptHeader sec).numEntries) := by
    push Not
    exact ⟨hg.signature, hg.entrySize, hg.numEntries⟩
  rw [Disk.scanPartitions, if_pos rfl, hr]
  dsimp only
  rw [if_pos ⟨h510, h511⟩, if_pos hee, Disk.scanGpt, hsec]
  dsimp only
  rw [if_neg hgood]

lemma scanPartitions_cases (disk : Disk) (alloc : ℕ → Bool) (buffer : Bool) :
    (∃ ps, disk.scanPartitions alloc buffer = .ok ps) ∨ buffer = true ∧ ∃ h, Announced disk h := by
  cases buffer with
  | false => exact .inl ⟨[], rfl⟩
  | true =>
    rw [Disk.scanPartitions, if_pos rfl]
    cases hr : disk.blkRead 0 with
    | none => exact .inl ⟨[], rfl⟩
    | some mbr =>
      dsimp only
      split_ifs with hsig hee
      · rw [Disk.scanGpt]
        cases hsec : disk.blkRead 1 with
        | none => exact .inl ⟨[], rfl⟩
        | some sec =>
          dsimp only
          split_ifs with hbad
          · exact .inl ⟨[], rfl⟩
          · push Not at hbad
            exact .inr ⟨rfl, gptHeader sec, ⟨mbr, hr, hsig.1, hsig.2, hee⟩, ⟨sec, hsec, rfl⟩, hbad.1, hbad.2.1, hbad.2.2⟩
      · exact .inl ⟨_, rfl⟩
      · exact .inl ⟨[], rfl⟩

lemma scanPartitions_ok_iff (hg : Announced disk h) :
    (∃ ps, disk.scanPartitions alloc true = .ok ps) ↔ h.numEntries = 0 ∨ h.entrySize ≤ 512 := by
  obtain ⟨sec, hscan⟩ := scanPartitions_announced alloc hg
  rw [hscan]
  cases hk : h.numEntries with
  | zero => exact iff_of_true ⟨[], rfl⟩ (.inl rfl)
  | succ k =>
    rw [← perSector_ne_zero_iff hg.entrySize]
    refine ⟨fun ⟨ps, hok⟩ => .inr fun hzero => ?_, fun hor => ?_⟩
    · rw [Disk.scanEntries, if_pos hzero] at hok
      cases hok
    · obtain ⟨ps, hok, -⟩ := mem_scanEntries alloc ⟨0, 0, 0, 0⟩ (hor.resolve_left (Nat.succ_ne_zero k)) (firstEntry sec)
      exact ⟨ps, hok⟩

lemma scanPartitions_table (hv : ValidGpt disk h) (hf : Fills h) :
    disk.scanPartitions alloc true = .ok (disk.tablePartitions alloc h) ↔
      ∀ i < h.numEntries, ¬ Wraps disk alloc (disk.tableEntry h i) i := by
  obtain ⟨sec, hscan⟩ := scanPartitions_announced alloc hv.toAnnounced
  have hread : ∀ m < 0 + h.numEntries, disk.gptSector h m ≠ none := by
    intro m hm
    obtain ⟨s, hs, -⟩ := entryAt_eq hv hf (i := m) (by omega)
    rw [hs]
    nofun
  have hloop : disk.scanPartitions alloc true =
      .ok ((List.range h.numEntries).filterMap fun i => disk.scanEntry alloc (disk.tableEntry h i) i) := by
    rw [hscan, scanEntries_eq alloc (hf.perSector hv.entrySize) h.numEntries hread (firstEntry sec), List.range_eq_range']
    refine congrArg Except.ok (List.filterMap_congr fun m hm => ?_)
    obtain ⟨s, hs, he⟩ := entryAt_eq hv hf (i := m) (by simpa using hm)
    rw [hs, Option.bind_some, he]
  rw [hloop]
  constructor
  · rintro heq i hi ⟨ha, hempty, hlast, hzero, hlt⟩
    obtain ⟨p, hp, hbad⟩ := scanEntry_wraps ha hempty hlast hzero hlt
    have hmem : p ∈ disk.tablePartitions alloc h := by
      rw [← Except.ok.inj heq]
      exact List.mem_filterMap.2 ⟨i, List.mem_range.2 hi, hp⟩
    obtain ⟨j, -, hj⟩ := List.mem_filterMap.1 hmem
    exact hbad (entryPartition_fits hj)
  · intro hno
    refine congrArg Except.ok (List.filterMap_congr fun i hi => ?_)
    exact scanEntry_eq Bytes.read_lt (hno i (List.mem_range.1 hi))

theorem scanPartitions_parses_iff (disk : Disk) (alloc : ℕ → Bool) (buffer : Bool) :
    ((∃ ps, disk.scanPartitions alloc buffer = .ok ps) ↔
      ∀ h, buffer = true → Announced disk h → h.numEntries = 0 ∨ h.entrySize ≤ 512) ∧
    (∀ h, Announced disk h → h.perSector ≠ 0 → ∀ i, i % h.perSector * h.entrySize + gptEntryLen ≤ 512) ∧
    ∀ h, ValidGpt disk h → Fills h →
      (disk.scanPartitions alloc true = .ok (disk.tablePartitions alloc h) ↔
        ∀ i < h.numEntries, ¬ Wraps disk alloc (disk.tableEntry h i) i) := by
  refine ⟨⟨fun hok h hb hg => ?_, fun hall => ?_⟩, fun h hg hps i => entry_inside hg.entrySize hps i,
    fun h hv hf => scanPartitions_table hv hf⟩
  · subst hb
    exact (scanPartitions_ok_iff hg).1 hok
  · rcases scanPartitions_cases disk alloc buffer with hok | ⟨rfl, h, hg⟩
    · exact hok
    · exact (scanPartitions_ok_iff hg).2 (hall h rfl hg)

section LargeEntries

/-- A protective MBR and a header with one entry of 1024 bytes, in the sectors 2 and 3. -/
def largeSectors : ℕ → Sector
  | 0 => Bytes.store (Bytes.store (fun _ => 0) 450 [0xEE]) 510 [0x55, 0xAA]
  | 1 => Bytes.write (Bytes.write (Bytes.write (Bytes.store (fun _ => 0) 0 gptSignature) 72 8 2) 80 4 1)
      84 4 1024
  | _ => fun _ => 0

def largeDisk : Disk where
  sectors := 1000
  sectors_lt := wrappingDisk.sectors_lt
  dev := 2048
  read lba := some (largeSectors lba)

lemma largeDisk_read {lba : ℕ} (hl : lba < 1000) : largeDisk.blkRead lba = some (largeSectors lba) := by
  have hmod : (lba + 1) % 2 ^ 64 = lba + 1 := Nat.mod_eq_of_lt (by omega)
  rw [Disk.blkRead, BlockDevice.rw, if_neg Nat.one_ne_zero, hmod, if_neg]
  · rfl
  · show ¬ (lba + 1 < lba ∨ 1000 < lba + 1)
    omega

lemma largeDisk_valid : ValidGpt largeDisk ⟨gptSignature, 2, 1, 1024⟩ where
  mbr := ⟨_, largeDisk_read (by decide), by decide, by decide, by decide⟩
  header := ⟨_, largeDisk_read (by decide), by
    rw [gptHeader, GptHeader.mk.injEq]
    decide +kernel⟩
  signature := rfl
  entrySize := by decide
  numEntries := by decide
  multiple := by decide
  table a ha := by
    dsimp only at ha ⊢
    rw [largeDisk_read (by omega)]
    nofun

theorem not_parses_largeDisk : ¬ ∀ (disk : Disk) (alloc : ℕ → Bool),
    (∃ ps, disk.scanPartitions alloc true = .ok ps) ∧
      ∀ h, ValidGpt disk h → disk.scanPartitions alloc true = .ok (disk.tablePartitions alloc h) := by
  intro hall
  have hcond := (scanPartitions_ok_iff largeDisk_valid.toAnnounced).1 (hall largeDisk fun _ => true).1
  revert hcond
  decide

end LargeEntries

end MyOS.Fs
