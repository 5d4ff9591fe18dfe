import Mathlib.Tactic

/-! The registers of the emulated processor, and how its CSRs are read and written. -/

namespace MyOS.Emulator

abbrev Word := BitVec 32

abbrev Rejim := BitVec 2

def rejimU : Rejim := 0
def rejimS : Rejim := 1
def rejimM : Rejim := 3

def sababNotogriBuyruq : ℕ := 2
def sababBreakpoint : ℕ := 3
def sababEcallU : ℕ := 8
def sababEcallS : ℕ := 9
def sababEcallM : ℕ := 11

def mipSsip : Word := 1 <<< 1
def mipMsip : Word := 1 <<< 3
def mipStip : Word := 1 <<< 5
def mipMtip : Word := 1 <<< 7
def mipSeip : Word := 1 <<< 9
def mipMeip : Word := 1 <<< 11
def mipSBitlar : Word := mipSsip ||| mipStip ||| mipSeip
def mipHammasi : Word := mipSBitlar ||| mipMsip ||| mipMtip ||| mipMeip

def mstatusSie : Word := 1 <<< 1
def mstatusMie : Word := 1 <<< 3
def mstatusSpie : Word := 1 <<< 5
def mstatusMpie : Word := 1 <<< 7
def mstatusSpp : Word := 1 <<< 8
def mstatusMppSiljish : ℕ := 11
def mstatusMpp : Word := 3 <<< 11
def mstatusMprv : Word := 1 <<< 17
def mstatusSum : Word := 1 <<< 18
def mstatusMxr : Word := 1 <<< 19
def mstatusTvm : Word := 1 <<< 20
def mstatusTw : Word := 1 <<< 21
def mstatusTsr : Word := 1 <<< 22

def sstatusMaska : Word :=
  mstatusSie ||| mstatusSpie ||| mstatusSpp ||| mstatusSum ||| mstatusMxr

def mstatusMaska : Word :=
  sstatusMaska ||| mstatusMie ||| mstatusMpie ||| mstatusMpp ||| mstatusMprv ||| mstatusTvm |||
    mstatusTw ||| mstatusTsr

def misaQiymati : Word :=
  1 <<< 30 ||| 1 <<< 0 ||| 1 <<< 2 ||| 1 <<< 8 ||| 1 <<< 12 ||| 1 <<< 18 ||| 1 <<< 20

def menvcfghStce : Word := 1 <<< 31

structure Csrs where
  mstatus : Word := 0
  medeleg : Word := 0
  mideleg : Word := 0
  mie : Word := 0
  mtvec : Word := 0
  mscratch : Word := 0
  mepc : Word := 0
  mcause : Word := 0
  mtval : Word := 0
  mcounteren : Word := 0
  mipDasturiy : Word := 0
  menvcfgh : Word := 0
  pmpcfg : ℕ → Word := fun _ => 0
  pmpaddr : ℕ → Word := fun _ => 0
  stvec : Word := 0
  sscratch : Word := 0
  sepc : Word := 0
  scause : Word := 0
  stval : Word := 0
  satp : Word := 0
  scounteren : Word := 0
  stimecmp : BitVec 64 := 0
  instret : BitVec 64 := 0

structure Cpu extends Csrs where
  x : BitVec 5 → Word := fun _ => 0
  pc : Word := 0
  rejim : Rejim := rejimU
  kutmoqda : Bool := false
  bandBor : Bool := false
  tlbBor : Fin 64 → Bool := fun _ => false

structure Mashina where
  cpu : Cpu
  msip : Word := 0
  mtimecmp : BitVec 64 := 0
  plicKutyapti : Fin 2 → Bool := fun _ => false

namespace Mashina

variable (m : Mashina)

def mipQiymati : Word :=
  let mip := m.cpu.mipDasturiy &&& mipSBitlar
  let mip := if m.msip &&& 1 ≠ 0 then mip ||| mipMsip else mip
  let mip := if m.mtimecmp ≤ m.cpu.instret then mip ||| mipMtip else mip
  let mip := if m.plicKutyapti 0 then mip ||| mipMeip else mip
  let mip := if m.plicKutyapti 1 then mip ||| mipSeip else mip
  if m.cpu.menvcfgh &&& menvcfghStce ≠ 0 ∧ m.cpu.stimecmp ≤ m.cpu.instret then mip ||| mipStip
  else mip

def csrRejim (raqam : ℕ) : ℕ := raqam / 2 ^ 8 % 4

def csrFaqatOqish (raqam : ℕ) : Prop := raqam / 2 ^ 10 % 4 = 3

instance (raqam : ℕ) : Decidable (csrFaqatOqish raqam) := by
  unfold csrFaqatOqish
  infer_instance

def hisoblagichRuxsat (c : Cpu) (raqam : ℕ) : Bool :=
  let bit := raqam % 32
  if c.rejim = rejimM then true
  else if ¬ (c.mcounteren >>> bit &&& 1 ≠ 0) then false
  else if c.rejim = rejimU ∧ ¬ (c.scounteren >>> bit &&& 1 ≠ 0) then false
  else true

def past (v : BitVec 64) : Word := v.setWidth 32
def yuqori (v : BitVec 64) : Word := (v >>> 32).setWidth 32

/-- `none` is `SABAB_NOTOGRI_BUYRUQ`. -/
def csrOqi (raqam : ℕ) : Option Word :=
  let c := m.cpu
  if c.rejim.toNat < csrRejim raqam then none
  else
    match raqam with
    | 0x100 => some (c.mstatus &&& sstatusMaska)
    | 0x104 => some (c.mie &&& c.mideleg)
    | 0x144 => some (m.mipQiymati &&& c.mideleg)
    | 0x105 => some c.stvec
    | 0x106 => some c.scounteren
    | 0x10A => some 0
    | 0x140 => some c.sscratch
    | 0x141 => some c.sepc
    | 0x142 => some c.scause
    | 0x143 => some c.stval
    | 0x14D =>
      if c.rejim = rejimS ∧ ¬ (c.menvcfgh &&& menvcfghStce ≠ 0) then none
      else some (past c.stimecmp)
    | 0x15D =>
      if c.rejim = rejimS ∧ ¬ (c.menvcfgh &&& menvcfghStce ≠ 0) then none
      else some (yuqori c.stimecmp)
    | 0x180 =>
      if c.rejim = rejimS ∧ c.mstatus &&& mstatusTvm ≠ 0 then none else some c.satp
    | 0x300 => some c.mstatus
    | 0x310 => some 0
    | 0x301 => some misaQiymati
    | 0x302 => some c.medeleg
    | 0x303 => some c.mideleg
    | 0x304 => some c.mie
    | 0x344 => some m.mipQiymati
    | 0x305 => some c.mtvec
    | 0x306 => some c.mcounteren
    | 0x30A => some 0
    | 0x31A => some c.menvcfgh
    | 0x340 => some c.mscratch
    | 0x341 => some c.mepc
    | 0x342 => some c.mcause
    | 0x343 => some c.mtval
    | 0xF11 | 0xF12 | 0xF13 | 0xF14 => some 0
    | 0xB00 | 0xB02 => some (past c.instret)
    | 0xB80 | 0xB82 => some (yuqori c.instret)
    | 0xC00 | 0xC01 | 0xC02 =>
      if hisoblagichRuxsat c raqam then some (past c.instret) else none
    | 0xC80 | 0xC81 | 0xC82 =>
      if hisoblagichRuxsat c raqam then some (yuqori c.instret) else none
    | _ =>
      if 0x3A0 ≤ raqam ∧ raqam < 0x3A0 + 4 then some (c.pmpcfg (raqam - 0x3A0))
      else if 0x3B0 ≤ raqam ∧ raqam < 0x3B0 + 16 then some (c.pmpaddr (raqam - 0x3B0))
      else none

def maskali (eski yangi maska : Word) : Word := (eski &&& ~~~maska) ||| (yangi &&& maska)

def mstatusYangi (eski q : Word) : Word :=
  let yangi := maskali eski q mstatusMaska
  if (yangi &&& mstatusMpp) >>> mstatusMppSiljish = 2 then
    (yangi &&& ~~~mstatusMpp) ||| (eski &&& mstatusMpp)
  else yangi

def yozildi (r : Csrs) : Mashina × ℕ := ({ m with cpu := { m.cpu with toCsrs := r } }, 0)

def csrYoz (raqam : ℕ) (q : Word) : Mashina × ℕ :=
  let c := m.cpu.toCsrs
  let rejim := m.cpu.rejim
  if rejim.toNat < csrRejim raqam then (m, sababNotogriBuyruq)
  else if csrFaqatOqish raqam then (m, sababNotogriBuyruq)
  else
    match raqam with
    | 0x100 => m.yozildi { c with mstatus := maskali c.mstatus q sstatusMaska }
    | 0x104 => m.yozildi { c with mie := maskali c.mie q c.mideleg }
    | 0x144 =>
      m.yozildi { c with mipDasturiy := maskali c.mipDasturiy q (c.mideleg &&& mipSsip) }
    | 0x105 => m.yozildi { c with stvec := q &&& ~~~2 }
    | 0x106 => m.yozildi { c with scounteren := q &&& 7 }
    | 0x10A => (m, 0)
    | 0x140 => m.yozildi { c with sscratch := q }
    | 0x141 => m.yozildi { c with sepc := q &&& ~~~1 }
    | 0x142 => m.yozildi { c with scause := q }
    | 0x143 => m.yozildi { c with stval := q }
    | 0x14D =>
      if rejim = rejimS ∧ ¬ (c.menvcfgh &&& menvcfghStce ≠ 0) then (m, sababNotogriBuyruq)
      else m.yozildi { c with
        stimecmp := (c.stimecmp &&& 0xFFFFFFFF00000000) ||| q.setWidth 64 }
    | 0x15D =>
      if rejim = rejimS ∧ ¬ (c.menvcfgh &&& menvcfghStce ≠ 0) then (m, sababNotogriBuyruq)
      else m.yozildi { c with
        stimecmp := (c.stimecmp &&& 0xFFFFFFFF) ||| q.setWidth 64 <<< 32 }
    | 0x180 =>
      if rejim = rejimS ∧ c.mstatus &&& mstatusTvm ≠ 0 then (m, sababNotogriBuyruq)
      else m.yozildi { c with satp := q }
    | 0x300 => m.yozildi { c with mstatus := mstatusYangi c.mstatus q }
    | 0x310 => (m, 0)
    | 0x301 => (m, 0)
    | 0x302 => m.yozildi { c with medeleg := q &&& 0xB3FF &&& ~~~((1 : Word) <<< sababEcallM) }
    | 0x303 => m.yozildi { c with mideleg := q &&& mipSBitlar }
    | 0x304 => m.yozildi { c with mie := q &&& mipHammasi }
    | 0x344 => m.yozildi { c with mipDasturiy := maskali c.mipDasturiy q mipSBitlar }
    | 0x305 => m.yozildi { c with mtvec := q &&& ~~~2 }
    | 0x306 => m.yozildi { c with mcounteren := q &&& 7 }
    | 0x30A => (m, 0)
    | 0x31A => m.yozildi { c with menvcfgh := q &&& menvcfghStce }
    | 0x340 => m.yozildi { c with mscratch := q }
    | 0x341 => m.yozildi { c with mepc := q &&& ~~~1 }
    | 0x342 => m.yozildi { c with mcause := q }
    | 0x343 => m.yozildi { c with mtval := q }
    | 0xB00 | 0xB02 | 0xB80 | 0xB82 => (m, 0)
    | _ =>
      if 0x3A0 ≤ raqam ∧ raqam < 0x3A0 + 4 then
        m.yozildi { c with pmpcfg := Function.update c.pmpcfg (raqam - 0x3A0) q }
      else if 0x3B0 ≤ raqam ∧ raqam < 0x3B0 + 16 then
        m.yozildi { c with pmpaddr := Function.update c.pmpaddr (raqam - 0x3B0) q }
      else (m, sababNotogriBuyruq)

end Mashina

end MyOS.Emulator
