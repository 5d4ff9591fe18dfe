import MyOS.Emulator.Csr
import MyOS.Library.System

/-! The SYSTEM instructions of the emulated processor. -/

namespace MyOS.Emulator

open Library

def dRd (b : Word) : BitVec 5 := b.extractLsb' 7 5
def dFunct3 (b : Word) : BitVec 3 := b.extractLsb' 12 3
def dRs1 (b : Word) : BitVec 5 := b.extractLsb' 15 5
def dFunct7 (b : Word) : BitVec 7 := b.extractLsb' 25 7

inductive Natija
  | ok
  | istisno (sabab : ℕ) (tval : Word)
  deriving DecidableEq

namespace Cpu

variable (c : Cpu)

def rdYoz (rd : BitVec 5) (qiymat : Word) : Cpu :=
  if rd ≠ 0 then { c with x := Function.update c.x rd qiymat } else c

def tlbTozala : Cpu := { c with tlbBor := fun _ => false }

def nusxa (mstatus bit manba : Word) : Word :=
  if mstatus &&& manba ≠ 0 then mstatus ||| bit else mstatus &&& ~~~bit

def trapQaytishS : Cpu :=
  let mstatus := nusxa c.mstatus mstatusSie mstatusSpie
  let mstatus := mstatus ||| mstatusSpie
  let mstatus := mstatus &&& ~~~mstatusSpp
  let mstatus := mstatus &&& ~~~mstatusMprv
  { c with
    rejim := if c.mstatus &&& mstatusSpp ≠ 0 then rejimS else rejimU
    mstatus
    bandBor := false
    pc := c.sepc }

def mpp (mstatus : Word) : Rejim := ((mstatus &&& mstatusMpp) >>> mstatusMppSiljish).setWidth 2

def trapQaytishM : Cpu :=
  let oldingi := mpp c.mstatus
  let mstatus := nusxa c.mstatus mstatusMie mstatusMpie
  let mstatus := mstatus ||| mstatusMpie
  let mstatus := mstatus &&& ~~~mstatusMpp
  let mstatus := if oldingi ≠ rejimM then mstatus &&& ~~~mstatusMprv else mstatus
  { c with rejim := oldingi, mstatus, bandBor := false, pc := c.mepc }

end Cpu

def sabablar (rejim : Rejim) : ℕ :=
  if rejim = rejimU then sababEcallU
  else if rejim = rejimS then sababEcallS
  else if rejim = rejimM then sababEcallM
  else 0

namespace Mashina

variable (m : Mashina)

def withCpu (c : Cpu) : Mashina := { m with cpu := c }

def csrYangi (tur : BitVec 2) (raqam : ℕ) (eski manba : Word) : Word :=
  let asos :=
    if raqam = 0x344 ∧ tur ≠ 1 then (eski &&& ~~~mipSeip) ||| (m.cpu.mipDasturiy &&& mipSeip)
    else eski
  if tur = 1 then manba else if tur = 2 then asos ||| manba else asos &&& ~~~manba

def csrBuyrugi (b keyingiPc : Word) : Mashina × Word × Natija :=
  let f3 := dFunct3 b
  let rd := dRd b
  let rs1 := dRs1 b
  let raqam := (b.extractLsb' 20 12).toNat
  let manba := if f3 &&& 4 ≠ 0 then rs1.setWidth 32 else m.cpu.x rs1
  let tur : BitVec 2 := f3.setWidth 2
  let oqishKerak := ¬ (tur = 1 ∧ rd = 0)
  let yozishKerak := ¬ (tur ≠ 1 ∧ rs1 = 0)
  match (if oqishKerak then m.csrOqi raqam else some 0) with
  | none => (m, keyingiPc, .istisno sababNotogriBuyruq b)
  | some eski =>
    if yozishKerak then
      let (m, xato) := m.csrYoz raqam (m.csrYangi tur raqam eski manba)
      if xato ≠ 0 then (m, keyingiPc, .istisno sababNotogriBuyruq b)
      else (m.withCpu (m.cpu.rdYoz rd eski), keyingiPc, .ok)
    else (m.withCpu (m.cpu.rdYoz rd eski), keyingiPc, .ok)

def tizimBuyrugi (b keyingiPc : Word) : Mashina × Word × Natija :=
  let c := m.cpu
  let notogri := (m, keyingiPc, Natija.istisno sababNotogriBuyruq b)
  if dFunct3 b = 0 then
    if b = 0x00000073 then (m, keyingiPc, .istisno (sabablar c.rejim) 0)
    else if b = 0x00100073 then (m, keyingiPc, .istisno sababBreakpoint c.pc)
    else if b = 0x30200073 then
      if c.rejim ≠ rejimM then notogri
      else (m.withCpu c.trapQaytishM, c.trapQaytishM.pc, .ok)
    else if b = 0x10200073 then
      if c.rejim = rejimU ∨ c.rejim = rejimS ∧ c.mstatus &&& mstatusTsr ≠ 0 then notogri
      else (m.withCpu c.trapQaytishS, c.trapQaytishS.pc, .ok)
    else if b = 0x10500073 then
      if c.rejim = rejimU ∨ c.rejim = rejimS ∧ c.mstatus &&& mstatusTw ≠ 0 then notogri
      else (m.withCpu { c with kutmoqda := true }, keyingiPc, .ok)
    else if dFunct7 b = 0x09 ∧ dRd b = 0 then
      if c.rejim = rejimU ∨ c.rejim = rejimS ∧ c.mstatus &&& mstatusTvm ≠ 0 then notogri
      else (m.withCpu c.tlbTozala, keyingiPc, .ok)
    else notogri
  else if dFunct3 b = 4 then notogri
  else m.csrBuyrugi b keyingiPc

def boshlangich (faqatS : Bool) (m : Mashina) : Prop :=
  m.cpu.toCsrs = (if faqatS then
    { stimecmp := -1, medeleg := 0xB3FF, mideleg := mipSBitlar, menvcfgh := menvcfghStce,
      mcounteren := 7 }
    else { stimecmp := -1 }) ∧
  m.cpu.rejim = if faqatS then rejimS else rejimM

inductive Qadam
  | tizim (b keyingiPc : Word)
  | boshqa

/-- The other instructions, the devices and the rest of `cpu_qadam` change no CSR but the counter,
and not the mode; the body of `trap_kirish` is left as an exercise and does nothing. -/
inductive Step : Mashina → Qadam → Mashina → Prop
  | tizim {m b pc} : Step m (.tizim b pc) (m.tizimBuyrugi b pc).1
  | boshqa {m t} (hc : t.cpu.toCsrs = { m.cpu.toCsrs with instret := t.cpu.instret })
      (hr : t.cpu.rejim = m.cpu.rejim) : Step m .boshqa t

def system : System Mashina Qadam where
  init m := ∃ faqatS, boshlangich faqatS m
  step := Step

end Mashina

end MyOS.Emulator
