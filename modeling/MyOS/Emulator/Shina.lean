import MyOS.Emulator.Csr
import MyOS.Library.Bytes

/-! The devices of the emulated machine that the guest reaches through registers. -/

namespace MyOS.Emulator

open Library

inductive Massiv
  | ram
  | registr
  | ustuvorlik
  | yoqilgan
  | chegara
  | kirish
  deriving DecidableEq, Repr

namespace Massiv

variable {α : Type}

def oqi (a : Massiv) (hajm : ℕ) (f : ℕ → α) (i : ℕ) : Except Massiv α :=
  if i < hajm then .ok (f i) else .error a

def yoz (a : Massiv) (hajm : ℕ) (f : ℕ → α) (i : ℕ) (v : α) : Except Massiv (ℕ → α) :=
  if i < hajm then .ok (Function.update f i v) else .error a

variable {a : Massiv} {hajm i : ℕ} {f : ℕ → α} {v : α}

lemma oqi_of_lt (h : i < hajm) : a.oqi hajm f i = .ok (f i) := if_pos h

lemma yoz_of_lt (h : i < hajm) : a.yoz hajm f i v = .ok (Function.update f i v) := if_pos h

end Massiv

def bayt (b : UInt8) : Word := b.toBitVec.setWidth 32

/-- What the host answers during one access: whether the terminal is in raw mode and has input,
what `read` gives, what `zaxirani_toldir` reads until the end (if `malloc` succeeds), and what
`fseek`, `fread` and `fwrite` do. -/
structure Xost where
  xomRejim : Bool := false
  poll : Bool := false
  stdin : List UInt8 := []
  kirim : Option (List UInt8) := none
  fseek : Bool := true
  fread : List UInt8 := []
  fwrite : ℕ := 512

section Uart

def uartIerRx : Word := 1
def uartIerTx : Word := 2
def uartLsrDr : Word := 1
def uartLsrThre : Word := 0x20
def uartLsrTemt : Word := 0x40

def sukunat : BitVec 64 := 3000000

def kirishHajm : ℕ := 4096

/-- `struct uart`; `vaqt` says that the pointer is set, and `sanoq` is the counter of
`kirishni_yangila`. What is printed is left out. -/
structure Uart where
  kirish : ℕ → UInt8 := fun _ => 0
  bosh : ℕ := 0
  oxir : ℕ := 0
  stdinTugadi : Bool := false
  zaxira : Option (List UInt8) := none
  zaxiraBosh : ℕ := 0
  vaqt : Bool := false
  oxirgiChiqish : BitVec 64 := 0
  txUzilish : Bool := false
  registr : ℕ → Word := fun _ => 0
  sanoq : Word := 0

namespace Uart

variable (u : Uart) (x : Xost) (vaqt : BitVec 64)

def registrOqi (i : ℕ) : Except Massiv Word := Massiv.registr.oqi 8 u.registr i

def zaxiraniToldir : Uart := { u with zaxira := x.kirim, stdinTugadi := true }

def qatorOl : List UInt8 → (ℕ → UInt8) → ℕ → Except Massiv ((ℕ → UInt8) × ℕ)
  | [], kirish, n => .ok (kirish, n)
  | c :: rest, kirish, n =>
    if n < kirishHajm then
      match Massiv.kirish.yoz kirishHajm kirish n c with
      | .error e => .error e
      | .ok kirish => if c = 10 then .ok (kirish, n + 1) else qatorOl rest kirish (n + 1)
    else .ok (kirish, n)

def stdinOqi : Uart :=
  let baytlar := x.stdin.take kirishHajm
  if baytlar = [] then { u with stdinTugadi := if x.xomRejim then u.stdinTugadi else true }
  else { u with kirish := Bytes.store u.kirish 0 baytlar, bosh := 0, oxir := baytlar.length }

def kirishniYangila : Except Massiv Uart :=
  if u.bosh ≠ u.oxir then .ok u
  else if x.xomRejim = false ∧ u.vaqt = true then
    let u := if u.zaxira = none ∧ u.stdinTugadi = false then u.zaxiraniToldir x else u
    let zaxira := u.zaxira.getD []
    if zaxira.length ≤ u.zaxiraBosh ∨ vaqt - u.oxirgiChiqish < sukunat then .ok u
    else
      match u.registrOqi 1 with
      | .error e => .error e
      | .ok ier =>
        if ier &&& uartIerRx = 0 then .ok u
        else
          match qatorOl (zaxira.drop u.zaxiraBosh) u.kirish 0 with
          | .error e => .error e
          | .ok (kirish, n) => .ok { u with
              kirish, bosh := 0, oxir := n
              zaxiraBosh := u.zaxiraBosh + n
              oxirgiChiqish := vaqt }
  else if u.stdinTugadi then .ok u
  else if x.xomRejim then
    let u := { u with sanoq := u.sanoq + 1 }
    if u.sanoq % 64 ≠ 0 then .ok u
    else if x.poll = false then .ok u
    else .ok (u.stdinOqi x)
  else .ok (u.stdinOqi x)

def uartOqi (siljish : Word) : Except Massiv (Uart × Word) :=
  if siljish = 0 then
    match u.kirishniYangila x vaqt with
    | .error e => .error e
    | .ok u =>
      if u.bosh = u.oxir then .ok (u, 0)
      else
        match Massiv.kirish.oqi kirishHajm u.kirish u.bosh with
        | .error e => .error e
        | .ok b => .ok ({ u with bosh := u.bosh + 1 }, bayt b)
  else if siljish = 2 then
    match u.kirishniYangila x vaqt with
    | .error e => .error e
    | .ok u =>
      match u.registrOqi 1 with
      | .error e => .error e
      | .ok ier =>
        if ier &&& uartIerRx ≠ 0 ∧ u.bosh ≠ u.oxir then .ok (u, 4)
        else if ier &&& uartIerTx ≠ 0 ∧ u.txUzilish = true then
          .ok ({ u with txUzilish := false }, 2)
        else .ok (u, 1)
  else if siljish = 5 then
    match u.kirishniYangila x vaqt with
    | .error e => .error e
    | .ok u =>
      .ok (u, uartLsrThre ||| uartLsrTemt ||| if u.bosh ≠ u.oxir then uartLsrDr else 0)
  else
    match u.registrOqi (siljish &&& 7).toNat with
    | .error e => .error e
    | .ok v => .ok (u, v)

def uartYoz (siljish qiymat : Word) : Except Massiv Uart :=
  if siljish = 0 then
    .ok { u with oxirgiChiqish := if u.vaqt then vaqt else u.oxirgiChiqish, txUzilish := true }
  else
    match u.registrOqi 1 with
    | .error e => .error e
    | .ok ier =>
      let txUzilish :=
        if siljish = 1 ∧ qiymat &&& uartIerTx ≠ 0 ∧ ier &&& uartIerTx = 0 then true
        else u.txUzilish
      match Massiv.registr.yoz 8 u.registr (siljish &&& 7).toNat (qiymat &&& 0xFF) with
      | .error e => .error e
      | .ok registr => .ok { u with registr, txUzilish }

def uartUzilish : Except Massiv (Uart × Bool) :=
  match u.registrOqi 1 with
  | .error e => .error e
  | .ok ier =>
    if ier &&& uartIerRx ≠ 0 ∧ u.bosh ≠ u.oxir then .ok (u, true)
    else if ier &&& uartIerTx ≠ 0 ∧ u.txUzilish = true then .ok (u, true)
    else if ier &&& uartIerRx ≠ 0 then
      match u.kirishniYangila x vaqt with
      | .error e => .error e
      | .ok u => .ok (u, u.bosh != u.oxir)
    else .ok (u, false)

end Uart

end Uart

section Plic

def plicManbalar : ℕ := 32
def plicKontekstlar : ℕ := 2

def plicKutmoqda : Word := 0x1000
def plicYoqilgan : Word := 0x2000
def plicKontekst : Word := 0x200000

structure Plic where
  ustuvorlik : ℕ → Word := fun _ => 0
  kutmoqda : Word := 0
  ishlanmoqda : Word := 0
  yoqilgan : ℕ → Word := fun _ => 0
  chegara : ℕ → Word := fun _ => 0

namespace Plic

variable (p : Plic)

def plicSignal (manba : ℕ) (daraja : Bool) : Plic :=
  let bit : Word := 1 <<< manba
  if daraja = true ∧ p.ishlanmoqda &&& bit = 0 then { p with kutmoqda := p.kutmoqda ||| bit }
  else if daraja = false then { p with kutmoqda := p.kutmoqda &&& ~~~bit }
  else p

/-- Left as an exercise in the source: nothing waits. -/
def engUstuvor (_ : Plic) (_ : ℕ) : Word := 0

def kutyapti (kontekst : ℕ) : Bool := p.engUstuvor kontekst != 0

def claim (k : ℕ) : Plic × Word :=
  let m := p.engUstuvor k
  if m ≠ 0 then
    let bit : Word := 1 <<< m.toNat
    ({ p with kutmoqda := p.kutmoqda &&& ~~~bit, ishlanmoqda := p.ishlanmoqda ||| bit }, m)
  else (p, m)

def oqildi : Except Massiv Word → Except Massiv (Plic × Word)
  | .error e => .error e
  | .ok v => .ok (p, v)

def plicOqi (s : Word) : Except Massiv (Plic × Word) :=
  if s.toNat < 4 * plicManbalar then
    p.oqildi (Massiv.ustuvorlik.oqi plicManbalar p.ustuvorlik (s.toNat / 4))
  else if s = plicKutmoqda then .ok (p, p.kutmoqda)
  else if plicYoqilgan ≤ s ∧ s.toNat < plicYoqilgan.toNat + 0x80 * plicKontekstlar ∧
      s &&& 0x7F = 0 then
    p.oqildi (Massiv.yoqilgan.oqi plicKontekstlar p.yoqilgan ((s - plicYoqilgan).toNat / 0x80))
  else if plicKontekst ≤ s ∧ s.toNat < plicKontekst.toNat + 0x1000 * plicKontekstlar then
    let k := (s - plicKontekst).toNat / 0x1000
    let ichki := (s - plicKontekst).toNat % 0x1000
    if ichki = 0 then p.oqildi (Massiv.chegara.oqi plicKontekstlar p.chegara k)
    else if ichki = 4 then .ok (p.claim k)
    else .ok (p, 0)
  else .ok (p, 0)

def plicYoz (s q : Word) : Except Massiv Plic :=
  if s.toNat < 4 * plicManbalar then
    match Massiv.ustuvorlik.yoz plicManbalar p.ustuvorlik (s.toNat / 4) (q &&& 7) with
    | .error e => .error e
    | .ok ustuvorlik => .ok { p with ustuvorlik }
  else if plicYoqilgan ≤ s ∧ s.toNat < plicYoqilgan.toNat + 0x80 * plicKontekstlar ∧
      s &&& 0x7F = 0 then
    match Massiv.yoqilgan.yoz plicKontekstlar p.yoqilgan ((s - plicYoqilgan).toNat / 0x80)
        (q &&& ~~~1) with
    | .error e => .error e
    | .ok yoqilgan => .ok { p with yoqilgan }
  else if plicKontekst ≤ s ∧ s.toNat < plicKontekst.toNat + 0x1000 * plicKontekstlar then
    let k := (s - plicKontekst).toNat / 0x1000
    let ichki := (s - plicKontekst).toNat % 0x1000
    if ichki = 0 then
      match Massiv.chegara.yoz plicKontekstlar p.chegara k (q &&& 7) with
      | .error e => .error e
      | .ok chegara => .ok { p with chegara }
    else if ichki = 4 ∧ 0 < q ∧ q.toNat < plicManbalar then
      .ok { p with ishlanmoqda := p.ishlanmoqda &&& ~~~((1 : Word) <<< q.toNat) }
    else .ok p
  else .ok p

end Plic

end Plic

section Disk

def diskSektor : ℕ := 512

structure Disk where
  fayl : Bool := false
  sektorlar : Word := 0
  sektor : Word := 0
  manzil : Word := 0
  holat : Word := 0
  uzilishYoqilgan : Bool := false
  uzilish : Bool := false
  oqildi : BitVec 64 := 0
  yozildi : BitVec 64 := 0

def Disk.diskOqi (d : Disk) (siljish : Word) : Disk × Word :=
  if siljish = 0x00 then (d, d.sektor)
  else if siljish = 0x04 then (d, d.manzil)
  else if siljish = 0x0C then ({ d with uzilish := false }, d.holat)
  else if siljish = 0x14 then (d, if d.uzilishYoqilgan then 1 else 0)
  else if siljish = 0x10 then (d, if d.fayl then d.sektorlar else 0)
  else (d, 0)

end Disk

end MyOS.Emulator

/-! The emulated machine with its memory and devices, and the bus that leads an address to them. -/

namespace MyOS.Emulator

open Library

def quvvatManzil : Word := 0x00100000
def clintManzil : Word := 0x02000000
def clintHajm : Word := 0x10000
def plicManzil : Word := 0x0C000000
def plicHajm : Word := 0x400000
def uartManzil : Word := 0x10000000
def uartHajm : Word := 8
def diskManzil : Word := 0x10001000
def diskHajm : Word := 0x20
def ramBosh : Word := 0x80000000

structure TlbYozuv where
  vpn : Word := 0
  pte : Word := 0
  pteManzil : Word := 0
  asid : Word := 0
  daraja : ℕ := 0

structure Kompyuter extends Mashina where
  ram : ℕ → UInt8 := fun _ => 0
  ramHajm : Word
  uart : Uart := {}
  disk : Disk := {}
  plic : Plic := {}
  bandManzil : Word := 0
  tlb : Fin 64 → TlbYozuv := fun _ => {}
  tlbTopildi : BitVec 64 := 0
  tlbTopilmadi : BitVec 64 := 0
  toxtadi : Bool := false
  chiqishKodi : Word := 0

namespace Mashina

variable (m : Mashina)

def clintOqi (s : Word) : Word :=
  if s = 0x0000 then m.msip &&& 1
  else if s = 0x4000 then past m.mtimecmp
  else if s = 0x4004 then yuqori m.mtimecmp
  else if s = 0xBFF8 then past m.cpu.instret
  else if s = 0xBFFC then yuqori m.cpu.instret
  else 0

def clintYoz (s q : Word) : Mashina :=
  if s = 0x0000 then { m with msip := q &&& 1 }
  else if s = 0x4000 then
    { m with mtimecmp := (m.mtimecmp &&& 0xFFFFFFFF00000000) ||| q.setWidth 64 }
  else if s = 0x4004 then
    { m with mtimecmp := (m.mtimecmp &&& 0xFFFFFFFF) ||| q.setWidth 64 <<< 32 }
  else m

end Mashina

namespace Kompyuter

variable (k : Kompyuter) (x : Xost)

def ramIchida (fiz : Word) (hajm : ℕ) : Prop :=
  ramBosh ≤ fiz ∧ fiz - ramBosh ≤ k.ramHajm - BitVec.ofNat 32 hajm

instance (fiz : Word) (hajm : ℕ) : Decidable (k.ramIchida fiz hajm) :=
  inferInstanceAs (Decidable (_ ∧ _))

def ramOqi (p : ℕ) : ℕ → Word → Except Massiv Word
  | 0, v => .ok v
  | n + 1, v =>
    match Massiv.ram.oqi k.ramHajm.toNat k.ram (p + n) with
    | .error e => .error e
    | .ok b => ramOqi p n (v <<< 8 ||| bayt b)

def ramYoz (hajm p : ℕ) (qiymat : Word) : ℕ → ℕ → (ℕ → UInt8) → Except Massiv (ℕ → UInt8)
  | 0, _, ram => .ok ram
  | n + 1, i, ram =>
    match Massiv.ram.yoz hajm ram (p + i) (UInt8.ofBitVec ((qiymat >>> (8 * i)).setWidth 8)) with
    | .error e => .error e
    | .ok ram => ramYoz hajm p qiymat n (i + 1) ram

def ramBolak (p n : ℕ) : Except Massiv Unit :=
  if p + n ≤ k.ramHajm.toNat then .ok () else .error .ram

def diskTekshirildi : Prop :=
  k.disk.fayl = true ∧ k.disk.sektor < k.disk.sektorlar ∧ ramBosh ≤ k.disk.manzil ∧
    k.disk.manzil - ramBosh ≤ k.ramHajm - BitVec.ofNat 32 diskSektor

instance : Decidable k.diskTekshirildi := inferInstanceAs (Decidable (_ ∧ _))

def diskBajar (buyruq : Word) : Except Massiv Kompyuter :=
  let xato := { k with disk := { k.disk with holat := 1 } }
  let p := (k.disk.manzil - ramBosh).toNat
  if ¬ k.diskTekshirildi then .ok xato
  else if x.fseek = false then .ok xato
  else if buyruq = 1 then
    match k.ramBolak p diskSektor with
    | .error e => .error e
    | .ok () =>
      let baytlar := x.fread.take diskSektor
      let ram := Bytes.store k.ram p baytlar
      if baytlar.length ≠ diskSektor then .ok { xato with ram }
      else .ok { k with ram, disk := { k.disk with holat := 0, oqildi := k.disk.oqildi + 1 } }
  else if buyruq = 2 then
    match k.ramBolak p diskSektor with
    | .error e => .error e
    | .ok () =>
      if x.fwrite ≠ diskSektor then .ok xato
      else .ok { k with disk := { k.disk with holat := 0, yozildi := k.disk.yozildi + 1 } }
  else .ok xato

def diskYoz (siljish q : Word) : Except Massiv Kompyuter :=
  if siljish = 0x00 then .ok { k with disk := { k.disk with sektor := q } }
  else if siljish = 0x04 then .ok { k with disk := { k.disk with manzil := q } }
  else if siljish = 0x08 then
    match k.diskBajar x q with
    | .error e => .error e
    | .ok k =>
      .ok { k with disk := { k.disk with uzilish := k.disk.uzilishYoqilgan || k.disk.uzilish } }
  else if siljish = 0x14 then
    .ok { k with disk := { k.disk with uzilishYoqilgan := q &&& 1 ≠ 0 } }
  else .ok k

def darchada (fiz manzil hajm : Word) : Prop := manzil ≤ fiz ∧ fiz < manzil + hajm

instance (fiz manzil hajm : Word) : Decidable (darchada fiz manzil hajm) :=
  inferInstanceAs (Decidable (_ ∧ _))

def shinaOqi (fiz : Word) (hajm : ℕ) : Except Massiv (Kompyuter × Option Word) :=
  if k.ramIchida fiz hajm then
    match k.ramOqi (fiz - ramBosh).toNat hajm 0 with
    | .error e => .error e
    | .ok v => .ok (k, some v)
  else if darchada fiz uartManzil uartHajm then
    match k.uart.uartOqi x k.cpu.instret (fiz - uartManzil) with
    | .error e => .error e
    | .ok (uart, v) => .ok ({ k with uart }, some v)
  else if darchada fiz diskManzil diskHajm then
    let (disk, v) := k.disk.diskOqi (fiz - diskManzil)
    .ok ({ k with disk }, some v)
  else if darchada fiz clintManzil clintHajm then
    .ok (k, some (k.toMashina.clintOqi (fiz - clintManzil)))
  else if darchada fiz plicManzil plicHajm then
    match k.plic.plicOqi (fiz - plicManzil) with
    | .error e => .error e
    | .ok (plic, v) => .ok ({ k with plic }, some v)
  else if fiz = quvvatManzil then .ok (k, some 0)
  else .ok (k, none)

def shinaYoz (fiz : Word) (hajm : ℕ) (qiymat : Word) : Except Massiv (Kompyuter × Bool) :=
  if k.ramIchida fiz hajm then
    match ramYoz k.ramHajm.toNat (fiz - ramBosh).toNat qiymat hajm 0 k.ram with
    | .error e => .error e
    | .ok ram => .ok ({ k with ram }, true)
  else if darchada fiz uartManzil uartHajm then
    match k.uart.uartYoz k.cpu.instret (fiz - uartManzil) qiymat with
    | .error e => .error e
    | .ok uart => .ok ({ k with uart }, true)
  else if darchada fiz diskManzil diskHajm then
    match k.diskYoz x (fiz - diskManzil) qiymat with
    | .error e => .error e
    | .ok k => .ok (k, true)
  else if darchada fiz clintManzil clintHajm then
    .ok ({ k with toMashina := k.toMashina.clintYoz (fiz - clintManzil) qiymat }, true)
  else if darchada fiz plicManzil plicHajm then
    match k.plic.plicYoz (fiz - plicManzil) qiymat with
    | .error e => .error e
    | .ok plic => .ok ({ k with plic }, true)
  else if fiz = quvvatManzil then
    if qiymat &&& 0xFFFF = 0x5555 then .ok ({ k with toxtadi := true, chiqishKodi := 0 }, true)
    else if qiymat &&& 0xFFFF = 0x3333 then
      .ok ({ k with toxtadi := true, chiqishKodi := qiymat >>> 16 }, true)
    else .ok (k, true)
  else .ok (k, false)

def qurilmalarYangila : Except Massiv Kompyuter :=
  match k.uart.uartUzilish x k.cpu.instret with
  | .error e => .error e
  | .ok (uart, daraja) =>
    .ok { k with uart, plic := (k.plic.plicSignal 10 daraja).plicSignal 1 k.disk.uzilish }

end Kompyuter

end MyOS.Emulator
