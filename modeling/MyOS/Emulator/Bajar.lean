import MyOS.Emulator.Cpu
import MyOS.Emulator.Shina

/-! Sv32 translation, and the accesses of the processor through it. -/

namespace MyOS.Emulator

inductive Kirish
  | oqish
  | yozish
  | bajarish
  deriving DecidableEq

def sababBuyruqTekisEmas : ℕ := 0
def sababBuyruqKirish : ℕ := 1
def sababOqishTekisEmas : ℕ := 4
def sababOqishKirish : ℕ := 5
def sababYozishTekisEmas : ℕ := 6
def sababYozishKirish : ℕ := 7
def sababBuyruqSahifa : ℕ := 12
def sababOqishSahifa : ℕ := 13
def sababYozishSahifa : ℕ := 15

def pteR : Word := 1 <<< 1
def pteW : Word := 1 <<< 2
def pteX : Word := 1 <<< 3
def pteU : Word := 1 <<< 4
def pteG : Word := 1 <<< 5
def pteA : Word := 1 <<< 6
def pteD : Word := 1 <<< 7

def sahifaXatosi : Kirish → ℕ
  | .oqish => sababOqishSahifa
  | .yozish => sababYozishSahifa
  | .bajarish => sababBuyruqSahifa

def kirishXatosi : Kirish → ℕ
  | .oqish => sababOqishKirish
  | .yozish => sababYozishKirish
  | .bajarish => sababBuyruqKirish

namespace Cpu

variable (c : Cpu)

def ruxsatBormi (rejim : Rejim) (pte : Word) (tur : Kirish) : Bool :=
  if rejim = rejimU ∧ pte &&& pteU = 0 then false
  else if rejim = rejimS ∧ pte &&& pteU ≠ 0 ∧ (tur = .bajarish ∨ c.mstatus &&& mstatusSum = 0) then
    false
  else
    match tur with
    | .oqish => pte &&& pteR ≠ 0 ∨ c.mstatus &&& mstatusMxr ≠ 0 ∧ pte &&& pteX ≠ 0
    | .yozish => pte &&& pteW ≠ 0
    | .bajarish => pte &&& pteX ≠ 0

def samaraliRejim (tur : Kirish) : Rejim :=
  if tur ≠ .bajarish ∧ c.rejim = rejimM ∧ c.mstatus &&& mstatusMprv ≠ 0 then mpp c.mstatus
  else c.rejim

end Cpu

def fizikManzil (pte : Word) (daraja : ℕ) (va : Word) : BitVec 64 :=
  let ppn : BitVec 64 := (pte >>> 10).setWidth 64
  if daraja = 1 then (ppn >>> 10) <<< 22 ||| (va &&& 0x3FFFFF).setWidth 64
  else ppn <<< 12 ||| (va &&& 0xFFF).setWidth 64

/-- Left as an exercise in the source: no entry is ever found. -/
def jadvalYurish (tur : Kirish) : Except ℕ (Word × ℕ × Word) := .error (sahifaXatosi tur)

def asid (satp : Word) : Word := (satp.extractLsb' 22 9).setWidth 32

def tlbRaqam (va : Word) : Fin 64 := Fin.ofNat 64 (va >>> 12).toNat

def belgilangan (pte : Word) (tur : Kirish) : Word :=
  pte ||| pteA ||| if tur = .yozish then pteD else 0

namespace Kompyuter

variable (k : Kompyuter)

def tlbMos (va : Word) (tur : Kirish) : Prop :=
  let t := k.tlb (tlbRaqam va)
  k.cpu.tlbBor (tlbRaqam va) = true ∧ t.vpn = va >>> 12 ∧
    (t.pte &&& pteG ≠ 0 ∨ t.asid = asid k.cpu.satp) ∧ (tur ≠ .yozish ∨ t.pte &&& pteD ≠ 0)

instance (va : Word) (tur : Kirish) : Decidable (k.tlbMos va tur) :=
  inferInstanceAs (Decidable (_ ∧ _))

/-- The part of `mmu_tarjima` that finds the entry: the entry, its level and its address, or the
cause of an exception. -/
def pteTop (va : Word) (tur : Kirish) : Kompyuter × Except ℕ (Word × ℕ × Word) :=
  let t := k.tlb (tlbRaqam va)
  if k.tlbMos va tur then
    ({ k with tlbTopildi := k.tlbTopildi + 1 }, .ok (t.pte, t.daraja, t.pteManzil))
  else ({ k with tlbTopilmadi := k.tlbTopilmadi + 1 }, jadvalYurish tur)

def pteBelgila (x : Xost) (tur : Kirish) (pte pteManzil : Word) : Except Massiv Kompyuter :=
  if belgilangan pte tur ≠ pte then
    match k.shinaYoz x pteManzil 4 (belgilangan pte tur) with
    | .error e => .error e
    | .ok (k, _) => .ok k
  else .ok k

def tlbYoz (va pte pteManzil : Word) (daraja : ℕ) : Kompyuter :=
  { k with
    cpu := { k.cpu with tlbBor := Function.update k.cpu.tlbBor (tlbRaqam va) true }
    tlb := Function.update k.tlb (tlbRaqam va)
      { vpn := va >>> 12, pte, pteManzil, asid := asid k.cpu.satp, daraja } }

def mmuTarjima (x : Xost) (va : Word) (tur : Kirish) :
    Except Massiv (Kompyuter × Except ℕ Word) :=
  let rejim := k.cpu.samaraliRejim tur
  if rejim = rejimM ∨ k.cpu.satp >>> 31 = 0 then .ok (k, .ok va)
  else
    match k.pteTop va tur with
    | (k, .error xato) => .ok (k, .error xato)
    | (k, .ok (pte, daraja, pteManzil)) =>
      if k.cpu.ruxsatBormi rejim pte tur = false then .ok (k, .error (sahifaXatosi tur))
      else
        match k.pteBelgila x tur pte pteManzil with
        | .error e => .error e
        | .ok k =>
          let pte := belgilangan pte tur
          let f := fizikManzil pte daraja va
          if 0xFFFFFFFF < f then .ok (k, .error (kirishXatosi tur))
          else .ok (k.tlbYoz va pte pteManzil daraja, .ok (f.setWidth 32))

def tekis (manzil : Word) (hajm : ℕ) : Prop := manzil &&& BitVec.ofNat 32 (hajm - 1) = 0

instance (manzil : Word) (hajm : ℕ) : Decidable (tekis manzil hajm) :=
  inferInstanceAs (Decidable (_ = _))

/-- Left as an exercise in the source: only the cause is given. -/
def tekisEmasOqi : ℕ := sababOqishTekisEmas

/-- Left as an exercise in the source: only the cause is given. -/
def tekisEmasYoz : ℕ := sababYozishTekisEmas

def xotiraOqi (x : ℕ → Xost) (va : Word) (hajm : ℕ) :
    Except Massiv (Kompyuter × Except ℕ Word) :=
  if ¬ tekis va hajm then .ok (k, .error tekisEmasOqi)
  else
    match k.mmuTarjima (x 0) va .oqish with
    | .error e => .error e
    | .ok (k, .error xato) => .ok (k, .error xato)
    | .ok (k, .ok fiz) =>
      match k.shinaOqi (x 1) fiz hajm with
      | .error e => .error e
      | .ok (k, none) => .ok (k, .error sababOqishKirish)
      | .ok (k, some qiymat) => .ok (k, .ok qiymat)

def xotiraYoz (x : ℕ → Xost) (va : Word) (hajm : ℕ) (qiymat : Word) :
    Except Massiv (Kompyuter × Except ℕ Unit) :=
  if ¬ tekis va hajm then .ok (k, .error tekisEmasYoz)
  else
    match k.mmuTarjima (x 0) va .yozish with
    | .error e => .error e
    | .ok (k, .error xato) => .ok (k, .error xato)
    | .ok (k, .ok fiz) =>
      match k.shinaYoz (x 1) fiz hajm qiymat with
      | .error e => .error e
      | .ok (k, false) => .ok (k, .error sababYozishKirish)
      | .ok (k, true) => .ok (k, .ok ())

end Kompyuter

end MyOS.Emulator

/-! The instructions of the emulated processor. -/

namespace MyOS.Emulator

def dOpcode (b : Word) : BitVec 7 := b.extractLsb' 0 7
def dRs2 (b : Word) : BitVec 5 := b.extractLsb' 20 5
def dFunct5 (b : Word) : BitVec 5 := b.extractLsb' 27 5

def immU (b : Word) : Word := b &&& 0xFFFFF000

/-! The exercises of `dekod.c` and `alu.c`: what stands in their place. -/

def immI (_ : Word) : Word := 0
def immS (_ : Word) : Word := 0
def immB (_ : Word) : Word := 0
def immJ (_ : Word) : Word := 0

/-- `none` is `-1`. -/
def shartBajarildimi (_ : BitVec 3) (_ _ : Word) : Option Bool := none

def yuklashKengaytir (_ : BitVec 3) (qiymat : Word) : Word := qiymat

def mAmal (_ : BitVec 3) (_ _ : Word) : Word := 0

/-- `none` is `*xato = 1`, with the result `0`. -/
def aluAsosiy (funct3 : BitVec 3) (alt registr : Bool) (a b : Word) : Option Word :=
  let siljish := b.toNat % 32
  match funct3.toNat with
  | 0 => some (if registr = true ∧ alt = true then a - b else a + b)
  | 1 => some (a <<< siljish)
  | 2 => some (if a.slt b then 1 else 0)
  | 3 => some (if a.ult b then 1 else 0)
  | 4 => some (a ^^^ b)
  | 5 => some (if alt then a.sshiftRight siljish else a >>> siljish)
  | 6 => some (a ||| b)
  | 7 => some (a &&& b)
  | _ => none

def sakrashTekis (manzil : Word) : Prop := manzil &&& 1 = 0

instance (manzil : Word) : Decidable (sakrashTekis manzil) :=
  inferInstanceAs (Decidable (_ = _))

def hajmlar (f3 : BitVec 3) : ℕ :=
  match f3.toNat with
  | 0 | 4 => 1
  | 1 | 5 => 2
  | 2 => 4
  | _ => 0

namespace Kompyuter

variable (k : Kompyuter)

abbrev Chiqish := Except Massiv (Kompyuter × Word × Natija)

def rdYoz (rd : BitVec 5) (qiymat : Word) : Kompyuter := { k with cpu := k.cpu.rdYoz rd qiymat }

def bandQil (bor : Bool) (manzil : Word) : Kompyuter :=
  { k with cpu := { k.cpu with bandBor := bor }, bandManzil := manzil }

def lrw (x : ℕ → Xost) (b keyingiPc : Word) : Chiqish :=
  let manzil := k.cpu.x (dRs1 b)
  if dRs2 b ≠ 0 then .ok (k, keyingiPc, .istisno sababNotogriBuyruq b)
  else
    match k.xotiraOqi x manzil 4 with
    | .error e => .error e
    | .ok (k, .error xato) => .ok (k, keyingiPc, .istisno xato manzil)
    | .ok (k, .ok q) => .ok ((k.bandQil true manzil).rdYoz (dRd b) q, keyingiPc, .ok)

def scw (x : ℕ → Xost) (b keyingiPc : Word) : Chiqish :=
  let manzil := k.cpu.x (dRs1 b)
  if k.cpu.bandBor = false ∨ k.bandManzil ≠ manzil then
    .ok ((k.bandQil false k.bandManzil).rdYoz (dRd b) 1, keyingiPc, .ok)
  else
    match k.xotiraYoz x manzil 4 (k.cpu.x (dRs2 b)) with
    | .error e => .error e
    | .ok (k, .error xato) => .ok (k, keyingiPc, .istisno xato manzil)
    | .ok (k, .ok ()) => .ok ((k.bandQil false k.bandManzil).rdYoz (dRd b) 0, keyingiPc, .ok)

/-- What an AMO writes; the operations are left as an exercise in the source. -/
def amoYangi (eski _manba : Word) : Word := eski

def amo (x : ℕ → Xost) (b keyingiPc : Word) : Chiqish :=
  let manzil := k.cpu.x (dRs1 b)
  let manba := k.cpu.x (dRs2 b)
  match k.mmuTarjima (x 0) manzil .yozish with
  | .error e => .error e
  | .ok (k, .error xato) => .ok (k, keyingiPc, .istisno xato manzil)
  | .ok (k, .ok fiz) =>
    match k.shinaOqi (x 1) fiz 4 with
    | .error e => .error e
    | .ok (k, none) => .ok (k, keyingiPc, .istisno sababYozishKirish manzil)
    | .ok (k, some eski) =>
      match k.shinaYoz (x 2) fiz 4 (amoYangi eski manba) with
      | .error e => .error e
      | .ok (k, false) => .ok (k, keyingiPc, .istisno sababYozishKirish manzil)
      | .ok (k, true) => .ok (k.rdYoz (dRd b) eski, keyingiPc, .ok)

def atomik (x : ℕ → Xost) (b keyingiPc : Word) : Chiqish :=
  let manzil := k.cpu.x (dRs1 b)
  if dFunct3 b ≠ 2 then .ok (k, keyingiPc, .istisno sababNotogriBuyruq b)
  else if dFunct5 b = 0x02 then k.lrw x b keyingiPc
  else if manzil &&& 3 ≠ 0 then .ok (k, keyingiPc, .istisno sababYozishTekisEmas manzil)
  else if dFunct5 b = 0x03 then k.scw x b keyingiPc
  else k.amo x b keyingiPc

def yuklash (x : ℕ → Xost) (b keyingiPc : Word) : Chiqish :=
  let manzil := k.cpu.x (dRs1 b) + immI b
  if hajmlar (dFunct3 b) = 0 then .ok (k, keyingiPc, .istisno sababNotogriBuyruq b)
  else
    match k.xotiraOqi x manzil (hajmlar (dFunct3 b)) with
    | .error e => .error e
    | .ok (k, .error xato) => .ok (k, keyingiPc, .istisno xato manzil)
    | .ok (k, .ok qiymat) =>
      .ok (k.rdYoz (dRd b) (yuklashKengaytir (dFunct3 b) qiymat), keyingiPc, .ok)

def saqlash (x : ℕ → Xost) (b keyingiPc : Word) : Chiqish :=
  let manzil := k.cpu.x (dRs1 b) + immS b
  if 2 < dFunct3 b then .ok (k, keyingiPc, .istisno sababNotogriBuyruq b)
  else
    match k.xotiraYoz x manzil (1 <<< (dFunct3 b).toNat) (k.cpu.x (dRs2 b)) with
    | .error e => .error e
    | .ok (k, .error xato) => .ok (k, keyingiPc, .istisno xato manzil)
    | .ok (k, .ok ()) => .ok (k, keyingiPc, .ok)

def hisobla (b uz keyingiPc : Word) : Kompyuter × Word × Natija :=
  let c := k.cpu
  let rd := dRd b
  let f3 := dFunct3 b
  let f7 := dFunct7 b
  let a := c.x (dRs1 b)
  let bq := c.x (dRs2 b)
  let notogri := (k, keyingiPc, Natija.istisno sababNotogriBuyruq b)
  let sakra := fun (k : Kompyuter) (manzil : Word) => (k, manzil, Natija.ok)
  let tekisEmas := fun manzil : Word => (k, keyingiPc, Natija.istisno sababBuyruqTekisEmas manzil)
  let rdga := fun v : Word => (k.rdYoz rd v, keyingiPc, Natija.ok)
  match (dOpcode b).toNat with
  | 0x37 => rdga (immU b)
  | 0x17 => rdga (c.pc + immU b)
  | 0x6F =>
    let manzil := c.pc + immJ b
    if ¬ sakrashTekis manzil then tekisEmas manzil else sakra (k.rdYoz rd (c.pc + uz)) manzil
  | 0x67 =>
    let manzil := (a + immI b) &&& ~~~1
    if f3 ≠ 0 then notogri
    else if ¬ sakrashTekis manzil then tekisEmas manzil
    else sakra (k.rdYoz rd (c.pc + uz)) manzil
  | 0x63 =>
    match shartBajarildimi f3 a bq with
    | none => notogri
    | some false => (k, keyingiPc, .ok)
    | some true =>
      let manzil := c.pc + immB b
      if ¬ sakrashTekis manzil then tekisEmas manzil else sakra k manzil
  | 0x13 =>
    let siljitish := f3 = 1 ∨ f3 = 5
    if siljitish ∧ f7 ≠ 0x00 ∧ ¬ (f3 = 5 ∧ f7 = 0x20) then notogri
    else rdga ((aluAsosiy f3 (decide siljitish && f7 == 0x20) false a (immI b)).getD 0)
  | 0x33 =>
    if f7 = 0x01 then rdga (mAmal f3 a bq)
    else if f7 ≠ 0x00 ∧ ¬ (f7 = 0x20 ∧ (f3 = 0 ∨ f3 = 5)) then notogri
    else
      match aluAsosiy f3 (f7 == 0x20) true a bq with
      | none => notogri
      | some r => rdga r
  | 0x0F => (k, keyingiPc, .ok)
  | _ => notogri

def tizim (b keyingiPc : Word) : Kompyuter × Word × Natija :=
  let o := Mashina.tizimBuyrugi { k.toMashina with plicKutyapti := fun i => k.plic.kutyapti i }
    b keyingiPc
  ({ k with cpu := o.1.cpu }, o.2)

def bajar (x : ℕ → Xost) (b uz keyingiPc : Word) : Chiqish :=
  match (dOpcode b).toNat with
  | 0x03 => k.yuklash x b keyingiPc
  | 0x23 => k.saqlash x b keyingiPc
  | 0x2F => k.atomik x b keyingiPc
  | 0x73 => .ok (k.tizim b keyingiPc)
  | _ => .ok (k.hisobla b uz keyingiPc)

end Kompyuter

end MyOS.Emulator
