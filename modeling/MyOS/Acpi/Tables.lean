import MyOS.Library.Reading
import Mathlib.Data.UInt

/-! The tables of the firmware: the processors and interrupt controllers of the MADT, the ports of the
FADT, and the package `_S5_` of the DSDT. -/

namespace MyOS.Acpi

open Library

def acpiMaxCpus : ℕ := 64
def acpiMaxIoapics : ℕ := 8

def sdtHeader : ℕ := 36

structure AcpiCpu where
  apicId : ℕ
  acpiId : ℕ
  deriving DecidableEq, Repr

structure AcpiIoapic where
  id : ℕ
  phys : ℕ
  gsiBase : ℕ
  deriving DecidableEq, Repr

structure IrqOverride where
  gsi : ℕ
  activeLow : Bool := false
  levelTriggered : Bool := false
  deriving DecidableEq, Repr

structure AcpiInfo where
  lapicPhys : ℕ := 0
  cpus : List AcpiCpu := []
  ioapics : List AcpiIoapic := []
  isa : ℕ → IrqOverride := fun _ => { gsi := 0 }
  legacyPic : Bool := false
  pm1aCnt : ℕ := 0
  pm1bCnt : ℕ := 0
  slpTypa : ℕ := 0
  slpTypb : ℕ := 0
  s5Found : Bool := false
  smiCmd : ℕ := 0
  acpiEnable : ℕ := 0
  resetSupported : Bool := false
  resetAddr : ℕ := 0
  resetSpace : ℕ := 0
  resetValue : ℕ := 0

structure Table where
  bytes : ℕ → UInt8
  length : ℕ
  header : Bytes.read bytes 4 4 = length
  long : sdtHeader ≤ length
  short : length ≤ 16 * 1024 * 1024
  checksum : (Bytes.load bytes 0 length).sum = 0

/-! ### The MADT -/

def AcpiInfo.addCpu (acpi : AcpiInfo) (apicId acpiId : ℕ) : AcpiInfo :=
  { acpi with cpus := acpi.cpus ++ [⟨apicId, acpiId⟩] }

def parseLapic (p : ℕ) (acpi : AcpiInfo) : Reading AcpiInfo := do
  let flags ← Reading.read (p + 4) 4
  if flags % 4 ≠ 0 ∧ acpi.cpus.length < acpiMaxCpus then do
    let apicId ← Reading.read (p + 3) 1
    let acpiId ← Reading.read (p + 2) 1
    pure (acpi.addCpu apicId acpiId)
  else pure acpi

def parseIoapic (p : ℕ) (acpi : AcpiInfo) : Reading AcpiInfo :=
  if acpi.ioapics.length < acpiMaxIoapics then do
    let id ← Reading.read (p + 2) 1
    let phys ← Reading.read (p + 4) 4
    let gsiBase ← Reading.read (p + 8) 4
    pure { acpi with ioapics := acpi.ioapics ++ [⟨id, phys, gsiBase⟩] }
  else pure acpi

def parseOverride (p : ℕ) (acpi : AcpiInfo) : Reading AcpiInfo := do
  let irq ← Reading.read (p + 3) 1
  let gsi ← Reading.read (p + 4) 4
  let flags ← Reading.read (p + 8) 2
  if irq < 16 then
    pure { acpi with isa := Function.update acpi.isa irq ⟨gsi, flags % 4 == 3, flags / 4 % 4 == 3⟩ }
  else pure acpi

def parseLapicAddress (p : ℕ) (acpi : AcpiInfo) : Reading AcpiInfo := do
  let phys ← Reading.read (p + 4) 8
  pure { acpi with lapicPhys := phys }

def parseX2apic (p : ℕ) (acpi : AcpiInfo) : Reading AcpiInfo := do
  let flags ← Reading.read (p + 8) 4
  if flags % 4 ≠ 0 ∧ acpi.cpus.length < acpiMaxCpus then do
    let apicId ← Reading.read (p + 4) 4
    let acpiId ← Reading.read (p + 12) 4
    pure (acpi.addCpu apicId acpiId)
  else pure acpi

def parseEntry (p : ℕ) (acpi : AcpiInfo) : ℕ → Reading AcpiInfo
  | 0 => parseLapic p acpi
  | 1 => parseIoapic p acpi
  | 2 => parseOverride p acpi
  | 5 => parseLapicAddress p acpi
  | 9 => parseX2apic p acpi
  | _ => pure acpi

def madtLoop (stop : ℕ) : ℕ → ℕ → AcpiInfo → Reading (Option AcpiInfo)
  | 0, _, _ => pure none
  | n + 1, p, acpi =>
    if p + 2 ≤ stop then do
      let len ← Reading.read (p + 1) 1
      if 2 ≤ len ∧ p + len ≤ stop then do
        let type ← Reading.read p 1
        let acpi ← parseEntry p acpi type
        madtLoop stop n (p + len) acpi
      else pure (some acpi)
    else pure (some acpi)

/-- Every entry takes two bytes at least, so that as many rounds as bytes are enough. -/
def parseMadt (acpi : AcpiInfo) : Reading (Option AcpiInfo) := do
  let lapic ← Reading.read 36 4
  let flags ← Reading.read 40 4
  let length ← Reading.read 4 4
  madtLoop length length 44
    { acpi with
      lapicPhys := lapic
      legacyPic := flags % 2 == 1
      isa := fun i => if i < 16 then { gsi := i } else acpi.isa i }

/-! ### The DSDT -/

def s5Name : List UInt8 := [0x5f, 0x53, 0x35, 0x5f]

def s5Named (p : ℕ) : Reading Bool := do
  let before ← Reading.read (p - 1) 1
  if before = 0x08 then pure true
  else do
    let first ← Reading.read (p - 2) 1
    pure (first == 0x08 && before == 0x5c)

def s5Value (q : ℕ) : Reading (ℕ × ℕ) := do
  let c ← Reading.read q 1
  let q := if c = 0x0a then q + 1 else q
  let v ← Reading.read q 1
  pure (v, q + 1)

def s5Package (q : ℕ) (acpi : AcpiInfo) : Reading AcpiInfo := do
  let lead ← Reading.read q 1
  let a ← s5Value (q + (lead / 64 + 1) + 1)
  let b ← s5Value a.2
  pure { acpi with slpTypa := a.1, slpTypb := b.1, s5Found := true }

def s5Loop (stop : ℕ) : ℕ → ℕ → AcpiInfo → Reading (Option AcpiInfo)
  | 0, _, _ => pure none
  | n + 1, p, acpi =>
    if p + 8 < stop then do
      let name ← Reading.load p 4
      if name = s5Name then do
        let named ← s5Named p
        if named then do
          let op ← Reading.read (p + 4) 1
          if op = 0x12 then do
            let acpi ← s5Package (p + 5) acpi
            pure (some acpi)
          else s5Loop stop n (p + 6) acpi
        else s5Loop stop n (p + 1) acpi
      else s5Loop stop n (p + 1) acpi
    else pure (some acpi)

def parseS5 (acpi : AcpiInfo) : Reading (Option AcpiInfo) := do
  let length ← Reading.read 4 4
  s5Loop length length sdtHeader acpi

/-! ### The FADT -/

def parseReset (length : ℕ) (acpi : AcpiInfo) : Reading AcpiInfo :=
  if 129 ≤ length then do
    let flags ← Reading.read 112 4
    let addr ← Reading.read 120 8
    let space ← Reading.read 116 1
    let value ← Reading.read 128 1
    pure { acpi with
      resetSupported := flags / 2 ^ 10 % 2 == 1, resetAddr := addr, resetSpace := space, resetValue := value }
  else pure acpi

def parseFadt (acpi : AcpiInfo) : Reading (AcpiInfo × ℕ) := do
  let dsdt ← Reading.read 40 4
  let smiCmd ← Reading.read 48 4
  let enable ← Reading.read 52 1
  let pm1a ← Reading.read 64 4
  let pm1b ← Reading.read 68 4
  let acpi := { acpi with
    smiCmd := smiCmd, acpiEnable := enable, pm1aCnt := pm1a % 2 ^ 16, pm1bCnt := pm1b % 2 ^ 16 }
  let length ← Reading.read 4 4
  let acpi ← parseReset length acpi
  if 148 ≤ length then do
    let x ← Reading.read 140 8
    pure (acpi, if x ≠ 0 then x else dsdt)
  else pure (acpi, dsdt)

end MyOS.Acpi

/-! Which tables of the firmware are read to their ends only. -/

namespace MyOS.Acpi

open Library Reading

structure AcpiInfo.Bounded (acpi : AcpiInfo) : Prop where
  cpus : acpi.cpus.length ≤ acpiMaxCpus
  ioapics : acpi.ioapics.length ≤ acpiMaxIoapics

structure AcpiInfo.Within (r acpi : AcpiInfo) : Prop extends r.Bounded where
  isa : ∀ i, 16 ≤ i → r.isa i = acpi.isa i

def isCpu (m : ℕ → UInt8) (p : ℕ) : Bool :=
  match Bytes.read m p 1 with
  | 0 => Bytes.read m (p + 4) 4 % 4 != 0
  | 9 => Bytes.read m (p + 8) 4 % 4 != 0
  | _ => false

/-- The bytes of an entry that are read when so many processors and interrupt controllers are known. -/
def entryExtent (m : ℕ → UInt8) (cpus ioapics p : ℕ) : ℕ :=
  match Bytes.read m p 1 with
  | 0 => 8
  | 1 => if ioapics < acpiMaxIoapics then 12 else 2
  | 2 => 10
  | 5 => 12
  | 9 => if isCpu m p ∧ cpus < acpiMaxCpus then 16 else 12
  | _ => 2

def nextCpus (m : ℕ → UInt8) (cpus p : ℕ) : ℕ :=
  if isCpu m p ∧ cpus < acpiMaxCpus then cpus + 1 else cpus

def nextIoapics (m : ℕ → UInt8) (ioapics p : ℕ) : ℕ :=
  if Bytes.read m p 1 = 1 ∧ ioapics < acpiMaxIoapics then ioapics + 1 else ioapics

def EntryAt (m : ℕ → UInt8) (stop p : ℕ) : Prop :=
  p + 2 ≤ stop ∧ 2 ≤ Bytes.read m (p + 1) 1 ∧ p + Bytes.read m (p + 1) 1 ≤ stop

instance (m : ℕ → UInt8) (stop p : ℕ) : Decidable (EntryAt m stop p) :=
  inferInstanceAs (Decidable (_ ∧ _ ∧ _))

def EntriesFit (m : ℕ → UInt8) (stop : ℕ) : ℕ → ℕ → ℕ → ℕ → Prop
  | 0, _, _, _ => True
  | n + 1, p, cpus, ioapics =>
    EntryAt m stop p → p + entryExtent m cpus ioapics p ≤ stop ∧
      EntriesFit m stop n (p + Bytes.read m (p + 1) 1) (nextCpus m cpus p) (nextIoapics m ioapics p)

def MadtFits (acpi : AcpiInfo) (t : Table) : Prop :=
  44 ≤ t.length ∧ EntriesFit t.bytes t.length t.length 44 acpi.cpus.length acpi.ioapics.length

def Named (m : ℕ → UInt8) (p : ℕ) : Prop :=
  m (p - 1) = 0x08 ∨ m (p - 2) = 0x08 ∧ m (p - 1) = 0x5c

instance (m : ℕ → UInt8) (p : ℕ) : Decidable (Named m p) := inferInstanceAs (Decidable (_ ∨ _))

def s5Find (m : ℕ → UInt8) (stop : ℕ) : ℕ → ℕ → Option ℕ
  | 0, _ => none
  | n + 1, p =>
    if p + 8 < stop then
      if Bytes.load m p 4 = s5Name ∧ Named m p then
        if m (p + 4) = 0x12 then some (p + 5) else s5Find m stop n (p + 6)
      else s5Find m stop n (p + 1)
    else none

def valueEnd (m : ℕ → UInt8) (q : ℕ) : ℕ := if m q = 0x0a then q + 2 else q + 1

def S5Fits (t : Table) : Prop :=
  ∀ q ∈ s5Find t.bytes t.length t.length sdtHeader,
    valueEnd t.bytes (valueEnd t.bytes (q + ((t.bytes q).toNat / 64 + 1) + 1)) ≤ t.length

structure ParsesInside (acpi : AcpiInfo) (madt fadt dsdt : Table) : Prop where
  madtReads : (parseMadt acpi).Stays madt.bytes madt.length
  madtEnds : ∃ r, (parseMadt acpi madt.bytes).1 = some r ∧ r.Within acpi
  fadtReads : (parseFadt acpi).Stays fadt.bytes fadt.length
  fadtEnds : (parseFadt acpi fadt.bytes).1.1.Within acpi
  s5Reads : (parseS5 acpi).Stays dsdt.bytes dsdt.length
  s5Ends : ∃ r, (parseS5 acpi dsdt.bytes).1 = some r ∧ r.Within acpi

variable {m : ℕ → UInt8} {stop n p q : ℕ} {acpi r : AcpiInfo} {t : Table}

lemma read_one (m : ℕ → UInt8) (a : ℕ) : Bytes.read m a 1 = (m a).toNat := by simp [Bytes.read]

section Madt

lemma parseLapic_stays : (parseLapic p acpi).Stays m stop ↔ p + 8 ≤ stop := by
  unfold parseLapic
  simp only [stays_bind, stays_read, stays_ite, stays_pure, implies_true, and_true]
  omega

lemma parseIoapic_stays (hp : p + 2 ≤ stop) : (parseIoapic p acpi).Stays m stop ↔
    p + (if acpi.ioapics.length < acpiMaxIoapics then 12 else 2) ≤ stop := by
  unfold parseIoapic
  simp only [stays_bind, stays_read, stays_ite, stays_pure, implies_true, and_true]
  split_ifs <;> omega

lemma parseOverride_stays : (parseOverride p acpi).Stays m stop ↔ p + 10 ≤ stop := by
  unfold parseOverride
  simp only [stays_bind, stays_read, stays_ite, stays_pure, implies_true, and_true]
  omega

lemma parseLapicAddress_stays : (parseLapicAddress p acpi).Stays m stop ↔ p + 12 ≤ stop := by
  unfold parseLapicAddress
  simp only [stays_bind, stays_read, stays_pure, and_true]

lemma parseX2apic_stays : (parseX2apic p acpi).Stays m stop ↔
    p + (if Bytes.read m (p + 8) 4 % 4 ≠ 0 ∧ acpi.cpus.length < acpiMaxCpus then 16 else 12) ≤ stop := by
  unfold parseX2apic
  simp only [stays_bind, stays_read, stays_ite, stays_pure, implies_true, and_true]
  simp only [read_fst]
  split_ifs <;> omega

lemma parseEntry_stays (hp : p + 2 ≤ stop) : (parseEntry p acpi (Bytes.read m p 1)).Stays m stop ↔
    p + entryExtent m acpi.cpus.length acpi.ioapics.length p ≤ stop := by
  unfold entryExtent isCpu
  generalize Bytes.read m p 1 = type
  unfold parseEntry
  split
  · exact parseLapic_stays
  · exact parseIoapic_stays hp
  · exact parseOverride_stays
  · exact parseLapicAddress_stays
  · simpa using parseX2apic_stays
  · simpa using hp

structure Added (m : ℕ → UInt8) (p : ℕ) (acpi r : AcpiInfo) : Prop where
  cpus : r.cpus.length = nextCpus m acpi.cpus.length p
  ioapics : r.ioapics.length = nextIoapics m acpi.ioapics.length p
  isa : ∀ i, 16 ≤ i → r.isa i = acpi.isa i

lemma Added.refl (h : isCpu m p = false) (hi : Bytes.read m p 1 ≠ 1) : Added m p acpi acpi where
  cpus := by simp [nextCpus, h]
  ioapics := by simp [nextIoapics, hi]
  isa _ _ := rfl

lemma added_cpu {c : Prop} [Decidable c] (hc : isCpu m p ↔ c) (hi : Bytes.read m p 1 ≠ 1)
    (apicId acpiId : ℕ) :
    Added m p acpi (if c ∧ acpi.cpus.length < acpiMaxCpus then acpi.addCpu apicId acpiId else acpi) where
  cpus := by
    simp only [nextCpus, hc, apply_ite AcpiInfo.cpus, AcpiInfo.addCpu]
    split_ifs <;> simp
  ioapics := by simp [nextIoapics, hi, apply_ite AcpiInfo.ioapics, AcpiInfo.addCpu]
  isa i _ := by simp [apply_ite AcpiInfo.isa, AcpiInfo.addCpu]

lemma parseEntry_added : Added m p acpi (parseEntry p acpi (Bytes.read m p 1) m).1 := by
  generalize hk : Bytes.read m p 1 = type
  unfold parseEntry
  split
  · rw [parseLapic, bind_fst, ite_fst]
    exact added_cpu (by simp [isCpu, hk]) (by simp [hk]) _ _
  · have hc : isCpu m p = false := by simp [isCpu, hk]
    rw [parseIoapic, ite_fst]
    split_ifs with h
    · exact ⟨by simp [nextCpus, hc], by simp [nextIoapics, hk, h], fun _ _ => rfl⟩
    · exact ⟨by simp [nextCpus, hc], by simp [nextIoapics, h], fun _ _ => rfl⟩
  · have hc : isCpu m p = false := by simp [isCpu, hk]
    rw [parseOverride, bind_fst, bind_fst, bind_fst, ite_fst]
    split_ifs with h
    · exact ⟨by simp [nextCpus, hc], by simp [nextIoapics, hk],
        fun i hi => Function.update_of_ne (by rintro rfl; omega) _ _⟩
    · exact .refl hc (by simp [hk])
  · have hc : isCpu m p = false := by simp [isCpu, hk]
    exact ⟨by simp [nextCpus, hc, parseLapicAddress], by simp [nextIoapics, hk, parseLapicAddress],
      fun _ _ => rfl⟩
  · rw [parseX2apic, bind_fst, ite_fst]
    exact added_cpu (by simp [isCpu, hk]) (by simp [hk]) _ _
  · next h₀ h₁ _ _ h₉ =>
    refine .refl ?_ (hk ▸ h₁)
    unfold isCpu
    rw [hk]
    split <;> simp_all

lemma Added.within (h : Added m p acpi r) (hb : acpi.Bounded) : r.Within acpi where
  cpus := by
    have := hb.cpus
    rw [h.cpus, nextCpus]
    split_ifs <;> omega
  ioapics := by
    have := hb.ioapics
    rw [h.ioapics, nextIoapics]
    split_ifs <;> omega
  isa := h.isa

lemma AcpiInfo.Within.trans {b : AcpiInfo} (h : r.Within b) (hb : b.Within acpi) : r.Within acpi :=
  ⟨h.toBounded, fun i hi => (h.isa i hi).trans (hb.isa i hi)⟩

lemma madtLoop_stays : (madtLoop stop n p acpi).Stays m stop ↔
    EntriesFit m stop n p acpi.cpus.length acpi.ioapics.length := by
  induction n generalizing p acpi with
  | zero => simp [madtLoop, EntriesFit]
  | succ n ih =>
    unfold madtLoop EntriesFit
    by_cases hp : p + 2 ≤ stop
    · have hread : p + 1 + 1 ≤ stop := hp
      rw [if_pos hp, stays_bind, stays_read, stays_ite, read_fst]
      by_cases hlen : 2 ≤ Bytes.read m (p + 1) 1 ∧ p + Bytes.read m (p + 1) 1 ≤ stop
      · have hat : EntryAt m stop p := ⟨hp, hlen⟩
        have hadd : Added m p acpi _ := parseEntry_added
        simp only [hread, hlen, hat, stays_bind, stays_read, read_fst, parseEntry_stays hp, ih, hadd.cpus,
          hadd.ioapics, true_and, forall_const, not_true_eq_false, IsEmpty.forall_iff, and_true, and_self]
        exact and_iff_right (by omega)
      · have hat : ¬ EntryAt m stop p := fun h => hlen h.2
        simp [hread, hlen, hat]
    · have hat : ¬ EntryAt m stop p := fun h => hp h.1
      simp [hp, hat]

lemma madtLoop_ends (hn : 0 < n) (hstop : stop < p + n) (hb : acpi.Bounded) :
    ∃ r, (madtLoop stop n p acpi m).1 = some r ∧ r.Within acpi := by
  induction n generalizing p acpi with
  | zero => omega
  | succ n ih =>
    have hself : acpi.Within acpi := ⟨hb, fun _ _ => rfl⟩
    unfold madtLoop
    by_cases hp : p + 2 ≤ stop
    · rw [if_pos hp, bind_fst, read_fst, ite_fst]
      split_ifs with hlen
      · have hadd := (parseEntry_added (m := m) (p := p)).within hb
        obtain ⟨r, hr, hw⟩ := ih (p := p + Bytes.read m (p + 1) 1) (by omega) (by omega) hadd.toBounded
        exact ⟨r, hr, hw.trans hadd⟩
      · exact ⟨acpi, rfl, hself⟩
    · rw [if_neg hp]
      exact ⟨acpi, rfl, hself⟩

variable (t) in
lemma parseMadt_stays : (parseMadt acpi).Stays t.bytes t.length ↔ MadtFits acpi t := by
  have := t.long
  unfold parseMadt MadtFits
  simp only [stays_bind, stays_read, madtLoop_stays, read_fst, t.header]
  exact ⟨fun h => ⟨h.2.1, h.2.2.2⟩, fun h => ⟨by omega, h.1, by omega, h.2⟩⟩

variable (t) in
lemma parseMadt_ends (hb : acpi.Bounded) :
    ∃ r, (parseMadt acpi t.bytes).1 = some r ∧ r.Within acpi := by
  have hpos : 0 < t.length := Nat.lt_of_lt_of_le (by decide) t.long
  simp only [parseMadt, bind_fst, read_fst, t.header]
  obtain ⟨r, hr, hw⟩ := madtLoop_ends (m := t.bytes) (p := 44) hpos (Nat.lt_add_of_pos_left (by omega))
    (⟨hb.cpus, hb.ioapics⟩ : AcpiInfo.Bounded { acpi with
      lapicPhys := Bytes.read t.bytes 36 4
      legacyPic := Bytes.read t.bytes 40 4 % 2 == 1
      isa := fun i => if i < 16 then { gsi := i } else acpi.isa i })
  refine ⟨r, hr, hw.toBounded, fun i hi => (hw.isa i hi).trans (if_neg (by omega))⟩

end Madt

section S5

lemma read_one_eq (m : ℕ → UInt8) (a : ℕ) (b : UInt8) : Bytes.read m a 1 = b.toNat ↔ m a = b := by
  rw [read_one, UInt8.toNat_inj]

lemma s5Named_stays (hp : 2 ≤ p) (hstop : p ≤ stop) : (s5Named p).Stays m stop := by
  unfold s5Named
  simp only [stays_bind, stays_read, stays_ite, stays_pure]
  exact ⟨by omega, fun _ => trivial, fun _ => ⟨by omega, trivial⟩⟩

lemma s5Named_iff : (s5Named p m).1 = true ↔ Named m p := by
  have h₁ : Bytes.read m (p - 1) 1 = 0x08 ↔ m (p - 1) = 0x08 := read_one_eq m _ 0x08
  have h₂ : Bytes.read m (p - 2) 1 = 0x08 ↔ m (p - 2) = 0x08 := read_one_eq m _ 0x08
  have h₃ : Bytes.read m (p - 1) 1 = 0x5c ↔ m (p - 1) = 0x5c := read_one_eq m _ 0x5c
  unfold s5Named Named
  rw [bind_fst, ite_fst, read_fst, ← h₁, ← h₂, ← h₃]
  split_ifs with h
  · exact ⟨fun _ => .inl h, fun _ => rfl⟩
  · simp [h]

lemma s5Value_fst : (s5Value q m).1.2 = valueEnd m q := by
  have h : Bytes.read m q 1 = 0x0a ↔ m q = 0x0a := read_one_eq m _ 0x0a
  unfold s5Value valueEnd
  simp only [bind_fst, read_fst, pure_fst, h]
  split_ifs <;> rfl

lemma s5Value_stays : (s5Value q).Stays m stop ↔ valueEnd m q ≤ stop := by
  have h : Bytes.read m q 1 = 0x0a ↔ m q = 0x0a := read_one_eq m _ 0x0a
  unfold s5Value valueEnd
  simp only [stays_bind, stays_read, stays_pure, read_fst, h, and_true]
  split_ifs <;> omega

lemma s5Package_stays (hq : q < stop) : (s5Package q acpi).Stays m stop ↔
    valueEnd m (valueEnd m (q + ((m q).toNat / 64 + 1) + 1)) ≤ stop := by
  have hend (a : ℕ) : a ≤ valueEnd m a := by unfold valueEnd; split_ifs <;> omega
  unfold s5Package
  simp only [stays_bind, stays_read, stays_pure, s5Value_stays, s5Value_fst, read_fst, read_one, and_true]
  have := hend (valueEnd m (q + ((m q).toNat / 64 + 1) + 1))
  omega

lemma s5Loop_stays (hp : 2 ≤ p) : (s5Loop stop n p acpi).Stays m stop ↔
    ∀ q ∈ s5Find m stop n p, valueEnd m (valueEnd m (q + ((m q).toNat / 64 + 1) + 1)) ≤ stop := by
  induction n generalizing p with
  | zero => simp [s5Loop, s5Find]
  | succ n ih =>
    have hop : Bytes.read m (p + 4) 1 = 0x12 ↔ m (p + 4) = 0x12 := read_one_eq m _ 0x12
    unfold s5Loop s5Find
    by_cases hstop : p + 8 < stop
    · rw [if_pos hstop, if_pos hstop, stays_bind, stays_load, load_fst, stays_ite]
      by_cases hname : Bytes.load m p 4 = s5Name
      · rw [stays_bind, stays_ite, s5Named_iff, and_iff_right (s5Named_stays hp (by omega))]
        by_cases hnamed : Named m p
        · rw [stays_bind, stays_read, read_fst, stays_ite, hop]
          by_cases hpkg : m (p + 4) = 0x12
          · simp [hname, hnamed, hpkg, s5Package_stays (m := m) (q := p + 5) (by omega : p + 5 < stop)]
            exact ⟨fun h => h.2.2, fun h => ⟨by omega, by omega, h⟩⟩
          · simp [hname, hnamed, hpkg, ih (p := p + 6) (by omega)]
            exact ⟨fun h => h.2.2, fun h => ⟨by omega, by omega, h⟩⟩
        · simp [hname, hnamed, ih (p := p + 1) (by omega)]
          omega
      · simp [hname, ih (p := p + 1) (by omega)]
        omega
    · simp [hstop]

lemma s5Loop_ends (hn : 0 < n) (hstop : stop < p + n) (hb : acpi.Bounded) :
    ∃ r, (s5Loop stop n p acpi m).1 = some r ∧ r.Within acpi := by
  induction n generalizing p with
  | zero => omega
  | succ n ih =>
    unfold s5Loop
    split_ifs with hp
    · rw [bind_fst, ite_fst]
      split_ifs
      · rw [bind_fst, ite_fst]
        split_ifs
        · rw [bind_fst, ite_fst]
          split_ifs
          · exact ⟨_, rfl, ⟨hb.cpus, hb.ioapics⟩, fun _ _ => rfl⟩
          · exact ih (by omega) (by omega)
        · exact ih (by omega) (by omega)
      · exact ih (by omega) (by omega)
    · exact ⟨acpi, rfl, hb, fun _ _ => rfl⟩

variable (t) in
lemma parseS5_stays : (parseS5 acpi).Stays t.bytes t.length ↔ S5Fits t := by
  have : 36 ≤ t.length := t.long
  unfold parseS5 S5Fits
  rw [stays_bind, stays_read, read_fst, t.header, s5Loop_stays (by decide)]
  exact and_iff_right (by omega)

variable (t) in
lemma parseS5_ends (hb : acpi.Bounded) : ∃ r, (parseS5 acpi t.bytes).1 = some r ∧ r.Within acpi := by
  have hpos : 0 < t.length := Nat.lt_of_lt_of_le (by decide) t.long
  rw [parseS5, bind_fst, read_fst, t.header]
  exact s5Loop_ends hpos (Nat.lt_add_of_pos_left (by decide)) hb

end S5

section Fadt

variable (t) in
lemma parseFadt_stays : (parseFadt acpi).Stays t.bytes t.length ↔ 72 ≤ t.length := by
  unfold parseFadt parseReset
  simp only [stays_bind, stays_read, stays_ite, stays_pure, read_fst, t.header, and_true, implies_true]
  omega

lemma parseReset_within (hb : acpi.Bounded) : (parseReset n acpi m).1.Within acpi := by
  rw [parseReset, ite_fst]
  split_ifs <;> exact ⟨⟨hb.cpus, hb.ioapics⟩, fun _ _ => rfl⟩

lemma parseFadt_within (hb : acpi.Bounded) : (parseFadt acpi m).1.1.Within acpi := by
  have hreset (a b c d : ℕ) : ((parseReset (Bytes.read m 4 4)
      { acpi with smiCmd := a, acpiEnable := b, pm1aCnt := c, pm1bCnt := d } m).1).Within acpi := by
    obtain ⟨hw, hisa⟩ := parseReset_within (n := Bytes.read m 4 4) (m := m)
      (⟨hb.cpus, hb.ioapics⟩ : AcpiInfo.Bounded
        { acpi with smiCmd := a, acpiEnable := b, pm1aCnt := c, pm1bCnt := d })
    exact ⟨hw, hisa⟩
  unfold parseFadt
  iterate 7 rw [bind_fst]
  rw [ite_fst]
  split_ifs <;> exact hreset _ _ _ _

end Fadt

theorem parsesInside_iff (hb : acpi.Bounded) (madt fadt dsdt : Table) :
    ParsesInside acpi madt fadt dsdt ↔ MadtFits acpi madt ∧ 72 ≤ fadt.length ∧ S5Fits dsdt := by
  constructor
  · intro h
    exact ⟨(parseMadt_stays madt).1 h.madtReads, (parseFadt_stays fadt).1 h.fadtReads,
      (parseS5_stays dsdt).1 h.s5Reads⟩
  · intro ⟨hm, hf, hs⟩
    exact {
      madtReads := (parseMadt_stays madt).2 hm
      madtEnds := parseMadt_ends madt hb
      fadtReads := (parseFadt_stays fadt).2 hf
      fadtEnds := parseFadt_within hb
      s5Reads := (parseS5_stays dsdt).2 hs
      s5Ends := parseS5_ends dsdt hb }

def truncatedMadt : Table where
  bytes a :=
    List.getD ([0x41, 0x50, 0x49, 0x43, 46, 0, 0, 0, 0, 0xb1] ++ List.replicate 34 0 ++ [2, 2]) a 0
  length := 46
  header := by decide +kernel
  long := by decide
  short := by decide
  checksum := by decide +kernel

def blankTable : Table where
  bytes a := List.getD [0, 0, 0, 0, 116, 0, 0, 0, 0, 140] a 0
  length := 116
  header := by decide +kernel
  long := by decide
  short := by decide
  checksum := by decide +kernel

lemma bounded_default : AcpiInfo.Bounded {} := ⟨by decide, by decide⟩

theorem parsesInside_iff_truncated : ParsesInside {} truncatedMadt blankTable blankTable ↔
    MadtFits {} truncatedMadt ∧ 72 ≤ blankTable.length ∧ S5Fits blankTable :=
  parsesInside_iff bounded_default truncatedMadt blankTable blankTable

theorem not_parsesInside_truncated : ¬ ParsesInside {} truncatedMadt blankTable blankTable := by
  intro h
  have hread : (52, 2) ∈ (parseMadt {} truncatedMadt.bytes).2 := by decide +kernel
  exact absurd (h.madtReads _ hread) (by decide)

end MyOS.Acpi
