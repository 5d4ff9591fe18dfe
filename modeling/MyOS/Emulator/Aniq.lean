import MyOS.Emulator.Istisno

/-! Only `sc.w` looks at the reservation. -/

namespace MyOS.Emulator

open Library

section Band

variable {k : Kompyuter} {bor : Bool} {manzil : Word} {x : Xost} {fiz q va : Word} {n p : ℕ}

def bandli {α : Type} (bor : Bool) (manzil : Word) (r : Except Massiv (Kompyuter × α)) :
    Except Massiv (Kompyuter × α) :=
  r.map fun o => (o.1.bandQil bor manzil, o.2)

@[simp]
lemma bandli_ok {α : Type} {a : α} :
    bandli bor manzil (.ok (k, a)) = .ok (k.bandQil bor manzil, a) := rfl

@[simp]
lemma bandli_error {α : Type} {e : Massiv} :
    bandli bor manzil (.error e : Except Massiv (Kompyuter × α)) = .error e := rfl

lemma bandQil_ram : (k.bandQil bor manzil).ram = k.ram := rfl
lemma bandQil_ramHajm : (k.bandQil bor manzil).ramHajm = k.ramHajm := rfl
lemma bandQil_uart : (k.bandQil bor manzil).uart = k.uart := rfl
lemma bandQil_plic : (k.bandQil bor manzil).plic = k.plic := rfl
lemma bandQil_disk : (k.bandQil bor manzil).disk = k.disk := rfl
lemma bandQil_instret : (k.bandQil bor manzil).cpu.instret = k.cpu.instret := rfl
lemma bandQil_tekshirildi : (k.bandQil bor manzil).diskTekshirildi ↔ k.diskTekshirildi := Iff.rfl
lemma bandQil_ramBolak : (k.bandQil bor manzil).ramBolak p n = k.ramBolak p n := rfl
lemma bandQil_ramIchida :
    (k.bandQil bor manzil).ramIchida fiz n ↔ k.ramIchida fiz n := Iff.rfl

lemma ramOqi_bandQil {v : Word} : (k.bandQil bor manzil).ramOqi p n v = k.ramOqi p n v := by
  induction n generalizing v with
  | zero => rfl
  | succ n ih =>
    rw [Kompyuter.ramOqi, Kompyuter.ramOqi, bandQil_ram, bandQil_ramHajm]
    split
    · rfl
    · exact ih

lemma shinaOqi_bandQil : (k.bandQil bor manzil).shinaOqi x fiz n =
    bandli bor manzil (k.shinaOqi x fiz n) := by
  rw [Kompyuter.shinaOqi, Kompyuter.shinaOqi, ramOqi_bandQil, bandQil_uart, bandQil_plic,
    bandQil_instret]
  simp only [bandQil_ramIchida]
  split_ifs
  · cases k.ramOqi (fiz - ramBosh).toNat n 0 <;> rfl
  · cases k.uart.uartOqi x k.cpu.instret (fiz - uartManzil) <;> rfl
  · rfl
  · rfl
  · cases k.plic.plicOqi (fiz - plicManzil) <;> rfl
  · rfl
  · rfl

lemma diskBajar_bandQil : (k.bandQil bor manzil).diskBajar x q =
    (k.diskBajar x q).map fun t => t.bandQil bor manzil := by
  rw [Kompyuter.diskBajar, Kompyuter.diskBajar, bandQil_disk]
  simp only [bandQil_tekshirildi, bandQil_ramBolak, bandQil_ram]
  cases k.ramBolak (k.disk.manzil - ramBosh).toNat diskSektor <;> split_ifs <;> rfl

lemma diskYoz_bandQil : (k.bandQil bor manzil).diskYoz x fiz q =
    (k.diskYoz x fiz q).map fun t => t.bandQil bor manzil := by
  rw [Kompyuter.diskYoz, Kompyuter.diskYoz, diskBajar_bandQil, bandQil_disk]
  split_ifs
  · rfl
  · rfl
  · cases k.diskBajar x q <;> rfl
  · rfl
  · rfl

lemma clintYoz_bandQil {s : Word} : (k.bandQil bor manzil).toMashina.clintYoz s q =
    { k.toMashina.clintYoz s q with cpu := { (k.toMashina.clintYoz s q).cpu with bandBor := bor } } := by
  rw [Mashina.clintYoz, Mashina.clintYoz]
  split_ifs <;> rfl

lemma shinaYoz_bandQil : (k.bandQil bor manzil).shinaYoz x fiz n q =
    bandli bor manzil (k.shinaYoz x fiz n q) := by
  rw [Kompyuter.shinaYoz, Kompyuter.shinaYoz, diskYoz_bandQil, clintYoz_bandQil, bandQil_uart,
    bandQil_plic, bandQil_instret, bandQil_ramHajm, bandQil_ram]
  simp only [bandQil_ramIchida]
  split_ifs
  · cases Kompyuter.ramYoz k.ramHajm.toNat (fiz - ramBosh).toNat q n 0 k.ram <;> rfl
  · cases k.uart.uartYoz k.cpu.instret (fiz - uartManzil) q <;> rfl
  · cases k.diskYoz x (fiz - diskManzil) q <;> rfl
  · rfl
  · cases k.plic.plicYoz (fiz - plicManzil) q <;> rfl
  · rfl
  · rfl
  · rfl
  · rfl

lemma pteBelgila_bandQil {tur : Kirish} {pte pteManzil : Word} :
    (k.bandQil bor manzil).pteBelgila x tur pte pteManzil =
      (k.pteBelgila x tur pte pteManzil).map fun t => t.bandQil bor manzil := by
  rw [Kompyuter.pteBelgila, Kompyuter.pteBelgila, shinaYoz_bandQil]
  split
  · cases k.shinaYoz x pteManzil 4 (belgilangan pte tur) <;> rfl
  · rfl

lemma pteTop_bandQil {tur : Kirish} : (k.bandQil bor manzil).pteTop va tur =
    ((k.pteTop va tur).1.bandQil bor manzil, (k.pteTop va tur).2) := by
  have hmos : (k.bandQil bor manzil).tlbMos va tur ↔ k.tlbMos va tur := Iff.rfl
  rw [Kompyuter.pteTop, Kompyuter.pteTop]
  simp only [hmos]
  split_ifs <;> rfl

lemma mmuTarjima_bandQil {tur : Kirish} : (k.bandQil bor manzil).mmuTarjima x va tur =
    bandli bor manzil (k.mmuTarjima x va tur) := by
  have hrejim : (k.bandQil bor manzil).cpu.samaraliRejim tur = k.cpu.samaraliRejim tur := rfl
  have hsatp : (k.bandQil bor manzil).cpu.satp = k.cpu.satp := rfl
  rw [Kompyuter.mmuTarjima, Kompyuter.mmuTarjima, pteTop_bandQil, hrejim, hsatp]
  split_ifs
  · rfl
  obtain ⟨t, r⟩ := k.pteTop va tur
  cases r with
  | error xato => rfl
  | ok o =>
    obtain ⟨pte, daraja, pteManzil⟩ := o
    have hruxsat : (t.bandQil bor manzil).cpu.ruxsatBormi (k.cpu.samaraliRejim tur) pte tur =
      t.cpu.ruxsatBormi (k.cpu.samaraliRejim tur) pte tur := rfl
    simp only [hruxsat, pteBelgila_bandQil]
    cases t.pteBelgila x tur pte pteManzil <;> split_ifs <;> rfl

lemma xotiraOqi_bandQil {y : ℕ → Xost} : (k.bandQil bor manzil).xotiraOqi y va n =
    bandli bor manzil (k.xotiraOqi y va n) := by
  rw [Kompyuter.xotiraOqi, Kompyuter.xotiraOqi, mmuTarjima_bandQil]
  split_ifs
  · obtain e | ⟨t, xato | f⟩ := k.mmuTarjima (y 0) va .oqish
    · rfl
    · rfl
    · simp only [bandli_ok, shinaOqi_bandQil]
      obtain e | ⟨s, _ | v⟩ := t.shinaOqi (y 1) f n <;> rfl
  · rfl

lemma xotiraYoz_bandQil {y : ℕ → Xost} : (k.bandQil bor manzil).xotiraYoz y va n q =
    bandli bor manzil (k.xotiraYoz y va n q) := by
  rw [Kompyuter.xotiraYoz, Kompyuter.xotiraYoz, mmuTarjima_bandQil]
  split_ifs
  · obtain e | ⟨t, xato | f⟩ := k.mmuTarjima (y 0) va .yozish
    · rfl
    · rfl
    · simp only [bandli_ok, shinaYoz_bandQil]
      obtain e | ⟨s, _ | _⟩ := t.shinaYoz (y 1) f n q <;> rfl
  · rfl

end Band

section Tizim

variable {m : Mashina} {bor : Bool} {b pc q : Word} {raqam : ℕ}

def Mashina.bandQil (m : Mashina) (bor : Bool) : Mashina :=
  { m with cpu := { m.cpu with bandBor := bor } }

lemma csrOqi_bandQil : (m.bandQil bor).csrOqi raqam = m.csrOqi raqam := rfl

lemma csrYoz_bandQil : (m.bandQil bor).csrYoz raqam q =
    ((m.csrYoz raqam q).1.bandQil bor, (m.csrYoz raqam q).2) := by
  have hcsrs : (m.bandQil bor).cpu.toCsrs = m.cpu.toCsrs := rfl
  have hrejim : (m.bandQil bor).cpu.rejim = m.cpu.rejim := rfl
  have hyoz : ∀ r, (m.bandQil bor).yozildi r = ((m.yozildi r).1.bandQil bor, (m.yozildi r).2) :=
    fun _ => rfl
  unfold Mashina.csrYoz
  simp only [hcsrs, hrejim, hyoz]
  split
  · rfl
  split
  · rfl
  · split <;> first | rfl | (split_ifs <;> rfl)

lemma csrYangi_bandQil {tur : BitVec 2} {eski manba : Word} :
    (m.bandQil bor).csrYangi tur raqam eski manba = m.csrYangi tur raqam eski manba := rfl

lemma rdYoz_bandBor {c : Cpu} {rd : BitVec 5} {v : Word} :
    ({ c with bandBor := bor } : Cpu).rdYoz rd v = { c.rdYoz rd v with bandBor := bor } := by
  rw [Cpu.rdYoz, Cpu.rdYoz]
  split_ifs <;> rfl

lemma csrBuyrugi_bandQil : (m.bandQil bor).csrBuyrugi b pc =
    ((m.csrBuyrugi b pc).1.bandQil bor, (m.csrBuyrugi b pc).2) := by
  have hx : (m.bandQil bor).cpu.x = m.cpu.x := rfl
  have hrd : ∀ (t : Mashina) (rd : BitVec 5) (v : Word),
      (t.bandQil bor).withCpu ((t.bandQil bor).cpu.rdYoz rd v) =
        (t.withCpu (t.cpu.rdYoz rd v)).bandQil bor := by
    intro t rd v
    rw [Mashina.bandQil, rdYoz_bandBor]
    rfl
  unfold Mashina.csrBuyrugi
  simp only [csrOqi_bandQil, csrYangi_bandQil, csrYoz_bandQil, hx]
  split
  · rfl
  · split
    · simp only [hrd]
      split_ifs <;> rfl
    · rw [hrd]

lemma ite_bandQil {c : Prop} [Decidable c] {r t r' t' : Mashina × Word × Natija}
    (h : r.2 = t.2 ∧ r.1.bandQil false = t.1.bandQil false)
    (h' : r'.2 = t'.2 ∧ r'.1.bandQil false = t'.1.bandQil false) :
    (if c then r else r').2 = (if c then t else t').2 ∧
      (if c then r else r').1.bandQil false = (if c then t else t').1.bandQil false := by
  by_cases hc : c
  · rwa [if_pos hc, if_pos hc]
  · rwa [if_neg hc, if_neg hc]

lemma tizimBuyrugi_bandQil (m : Mashina) (bor : Bool) (b pc : Word) :
    ((m.bandQil bor).tizimBuyrugi b pc).2 = (m.tizimBuyrugi b pc).2 ∧
    ((m.bandQil bor).tizimBuyrugi b pc).1.bandQil false = (m.tizimBuyrugi b pc).1.bandQil false := by
  have hrejim : (m.bandQil bor).cpu.rejim = m.cpu.rejim := rfl
  have hmstatus : (m.bandQil bor).cpu.mstatus = m.cpu.mstatus := rfl
  unfold Mashina.tizimBuyrugi
  simp only [csrBuyrugi_bandQil, hrejim, hmstatus]
  repeat' apply ite_bandQil
  all_goals exact ⟨rfl, rfl⟩

end Tizim

section Bajar

variable {k : Kompyuter} {bor : Bool} {manzil : Word} {x : ℕ → Xost} {b uz pc : Word}

def Kompyuter.scBand (k : Kompyuter) (b : Word) : Prop :=
  (dOpcode b).toNat = 0x2F ∧ dFunct3 b = 2 ∧ dFunct5 b = 0x03 ∧ k.cpu.bandBor = true ∧
    k.bandManzil = k.cpu.x (dRs1 b)

lemma bandQil_x : (k.bandQil bor manzil).cpu.x = k.cpu.x := rfl

lemma bandQil_bandQil {c : Bool} {y : Word} :
    (k.bandQil c y).bandQil bor manzil = k.bandQil bor manzil := rfl

lemma bandli_bandli {α : Type} {c : Bool} {y : Word} {r : Except Massiv (Kompyuter × α)} :
    bandli bor manzil (bandli c y r) = bandli bor manzil r := by
  cases r <;> rfl

lemma rdYoz_bandQil {rd : BitVec 5} {v : Word} :
    (k.bandQil bor manzil).rdYoz rd v = (k.rdYoz rd v).bandQil bor manzil := by
  rw [Kompyuter.rdYoz, Kompyuter.bandQil, rdYoz_bandBor]
  rfl

lemma yuklash_bandQil : (k.bandQil bor manzil).yuklash x b pc =
    bandli bor manzil (k.yuklash x b pc) := by
  rw [Kompyuter.yuklash, Kompyuter.yuklash, xotiraOqi_bandQil, bandQil_x]
  split_ifs
  · rfl
  · obtain e | ⟨t, xato | v⟩ := k.xotiraOqi x (k.cpu.x (dRs1 b) + immI b) (hajmlar (dFunct3 b))
    · rfl
    · rfl
    · simp only [bandli_ok, rdYoz_bandQil]

lemma saqlash_bandQil : (k.bandQil bor manzil).saqlash x b pc =
    bandli bor manzil (k.saqlash x b pc) := by
  rw [Kompyuter.saqlash, Kompyuter.saqlash, xotiraYoz_bandQil, bandQil_x]
  split_ifs
  · rfl
  · obtain e | ⟨t, xato | _⟩ := k.xotiraYoz x (k.cpu.x (dRs1 b) + immS b)
      (1 <<< (dFunct3 b).toNat) (k.cpu.x (dRs2 b)) <;> rfl

lemma amo_bandQil : (k.bandQil bor manzil).amo x b pc = bandli bor manzil (k.amo x b pc) := by
  rw [Kompyuter.amo, Kompyuter.amo, mmuTarjima_bandQil, bandQil_x]
  obtain e | ⟨t, xato | fiz⟩ := k.mmuTarjima (x 0) (k.cpu.x (dRs1 b)) .yozish
  · rfl
  · rfl
  simp only [bandli_ok, shinaOqi_bandQil]
  obtain e | ⟨s, _ | eski⟩ := t.shinaOqi (x 1) fiz 4
  · rfl
  · rfl
  simp only [bandli_ok, shinaYoz_bandQil]
  obtain e | ⟨w, _ | _⟩ := s.shinaYoz (x 2) fiz 4 (Kompyuter.amoYangi eski (k.cpu.x (dRs2 b)))
  · rfl
  · rfl
  · simp only [bandli_ok, rdYoz_bandQil]

lemma lrw_bandQil : bandli false 0 ((k.bandQil bor manzil).lrw x b pc) =
    bandli false 0 (k.lrw x b pc) := by
  rw [Kompyuter.lrw, Kompyuter.lrw, xotiraOqi_bandQil, bandQil_x]
  split_ifs
  · rfl
  · obtain e | ⟨t, xato | v⟩ := k.xotiraOqi x (k.cpu.x (dRs1 b)) 4
    · rfl
    · rfl
    · rfl

lemma scw_bandQil (h : ¬ (k.cpu.bandBor = true ∧ k.bandManzil = k.cpu.x (dRs1 b))) :
    bandli false 0 ((k.bandQil false manzil).scw x b pc) = bandli false 0 (k.scw x b pc) := by
  have hk : k.cpu.bandBor = false ∨ k.bandManzil ≠ k.cpu.x (dRs1 b) := by
    rw [← Bool.not_eq_true]
    tauto
  have hk' : (k.bandQil false manzil).cpu.bandBor = false ∨
      (k.bandQil false manzil).bandManzil ≠ (k.bandQil false manzil).cpu.x (dRs1 b) := .inl rfl
  rw [Kompyuter.scw, Kompyuter.scw, if_pos hk, if_pos hk']
  simp only [bandli_ok, bandQil_bandQil, rdYoz_bandQil]

lemma hisobla_bandQil : (k.bandQil bor manzil).hisobla b uz pc =
    ((k.hisobla b uz pc).1.bandQil bor manzil, (k.hisobla b uz pc).2) := by
  have hpc : (k.bandQil bor manzil).cpu.pc = k.cpu.pc := rfl
  unfold Kompyuter.hisobla
  simp only [bandQil_x, hpc, rdYoz_bandQil]
  split
  · rfl
  · rfl
  · split_ifs <;> rfl
  · split_ifs <;> rfl
  · split
    · rfl
    · rfl
    · split_ifs <;> rfl
  · split_ifs <;> rfl
  · split_ifs
    · rfl
    · rfl
    · split <;> rfl
  · rfl
  · rfl

lemma tizim_bandQil : bandli false 0 (.ok ((k.bandQil bor manzil).tizim b pc)) =
    bandli false 0 (.ok (k.tizim b pc)) := by
  generalize hm : ({ k.toMashina with plicKutyapti := fun i => k.plic.kutyapti i } : Mashina) = m
  have hband : ({ (k.bandQil bor manzil).toMashina with
      plicKutyapti := fun i => (k.bandQil bor manzil).plic.kutyapti i } : Mashina) =
        m.bandQil bor := by
    rw [← hm]
    rfl
  obtain ⟨ho, hk⟩ := tizimBuyrugi_bandQil m bor b pc
  have hcpu := congrArg Mashina.cpu hk
  rw [Kompyuter.tizim, Kompyuter.tizim, hband, hm, ho, bandli_ok, bandli_ok]
  generalize ((m.bandQil bor).tizimBuyrugi b pc).1 = t at hcpu
  generalize (m.tizimBuyrugi b pc).1 = s at hcpu
  have hs : ({ t.cpu with bandBor := false } : Cpu) = { s.cpu with bandBor := false } := hcpu
  simp only [Kompyuter.bandQil, hs]

lemma bajar_bandQil (manzil : Word) (h : ¬ k.scBand b) :
    bandli false 0 ((k.bandQil false manzil).bajar x b uz pc) =
    bandli false 0 (k.bajar x b uz pc) := by
  unfold Kompyuter.bajar
  split
  · rw [yuklash_bandQil, bandli_bandli]
  · rw [saqlash_bandQil, bandli_bandli]
  · rename_i hop
    rw [Kompyuter.atomik, Kompyuter.atomik, bandQil_x]
    split_ifs with hf hlr hodd hsc
    · rfl
    · exact lrw_bandQil
    · rfl
    · exact scw_bandQil fun hs => h ⟨hop, not_not.1 hf, hsc, hs⟩
    · rw [amo_bandQil, bandli_bandli]
  · exact tizim_bandQil
  · rw [hisobla_bandQil]
    rfl

end Bajar

end MyOS.Emulator

/-! Exceptions are precise up to the bits A and D, and but for a reservation. -/

namespace MyOS.Emulator

open Library

def soz (ram : ℕ → UInt8) (p : ℕ) : Word := BitVec.ofNat 32 (Bytes.read ram p 4)

def FaqatAD (ram ram' : ℕ → UInt8) : Prop :=
  ∃ p, soz ram' p &&& ~~~(pteA ||| pteD) = soz ram p &&& ~~~(pteA ||| pteD) ∧
    ∀ j, ¬ (p ≤ j ∧ j < p + 4) → ram' j = ram j

namespace Kompyuter

variable (k : Kompyuter)

/-- The TLB has for the address what its page-table entry in the RAM has, up to A and D: whoever
changed the entry has executed `sfence.vma`. -/
def eskirmagan (va : Word) : Prop :=
  ∀ tur, k.tlbMos va tur → k.ramIchida (k.tlb (tlbRaqam va)).pteManzil 4 →
    soz k.ram ((k.tlb (tlbRaqam va)).pteManzil - ramBosh).toNat &&& ~~~(pteA ||| pteD) =
      (k.tlb (tlbRaqam va)).pte &&& ~~~(pteA ||| pteD)

def tuzatilgan (t : Kompyuter) : Kompyuter :=
  { t with
    cpu := { t.cpu with
      x := k.cpu.x, pc := k.cpu.pc, rejim := k.cpu.rejim, bandBor := k.cpu.bandBor }
    bandManzil := k.bandManzil }

end Kompyuter

/-- `t` has come back from a trap to the instruction of `k`; `mret` and `sret` drop the
reservation. -/
structure Qaytdi (k t : Kompyuter) : Prop where
  x : t.cpu.x = k.cpu.x
  pc : t.cpu.pc = k.cpu.pc
  rejim : t.cpu.rejim = k.cpu.rejim
  band : t.cpu.bandBor = false

variable {k k' t : Kompyuter} {x y : ℕ → Xost} {b uz pc pc' tval va : Word} {sabab : ℕ}

lemma soz_write {ram : ℕ → UInt8} {p : ℕ} {q : Word} :
    soz (Bytes.write ram p 4 q.toNat) p = q := by
  have hread := Bytes.read_write_suffix (m := ram) (a := p) (v := q.toNat) 4 (Nat.zero_add 4)
  rw [Nat.add_zero, pow_zero, Nat.div_one] at hread
  rw [soz, hread]
  apply BitVec.eq_of_toNat_eq
  rw [BitVec.toNat_ofNat]
  omega

lemma belgilangan_and {pte : Word} {tur : Kirish} :
    belgilangan pte tur &&& ~~~(pteA ||| pteD) = pte &&& ~~~(pteA ||| pteD) := by
  rw [belgilangan, or_and_of_disjoint, or_and_of_disjoint (by decide)]
  split_ifs <;> decide

lemma Iz.faqatAD (h : Iz va k k') (he : k.eskirmagan va) : FaqatAD k.ram k'.ram := by
  obtain hram | ⟨tur, hbel, hi, hram⟩ := h.ram
  · rw [hram]
    exact ⟨0, rfl, fun _ _ => rfl⟩
  · rw [hram]
    refine ⟨((k.tlb (tlbRaqam va)).pteManzil - ramBosh).toNat, ?_, fun j hj => ?_⟩
    · rw [soz_write, belgilangan_and, he tur hbel.1 hi]
    · exact Bytes.write_of_not_mem hj

lemma tuzatilgan_bandQil (h : Qaytdi k t) : (k.tuzatilgan t).bandQil false t.bandManzil = t := by
  rw [Kompyuter.tuzatilgan, Kompyuter.bandQil, ← h.x, ← h.pc, ← h.rejim, ← h.band]

lemma bajar_qayta (h : Qaytdi k t) (hsc : ¬ k.scBand b) :
    bandli false 0 (t.bajar y b uz pc) = bandli false 0 ((k.tuzatilgan t).bajar y b uz pc) := by
  have hb : ¬ (k.tuzatilgan t).scBand b := hsc
  rw [← bajar_bandQil t.bandManzil hb, tuzatilgan_bandQil h]

lemma bajar_scBand (h : Qaytdi k t) (hsc : k.scBand b) (htekis : k.cpu.x (dRs1 b) &&& 3 = 0) :
    t.bajar y b uz pc = .ok ((t.bandQil false t.bandManzil).rdYoz (dRd b) 1, pc, .ok) := by
  obtain ⟨hop, hf3, hf5, -, -⟩ := hsc
  have hatomik : t.bajar y b uz pc = t.atomik y b pc := by
    unfold Kompyuter.bajar
    rw [hop]
    rfl
  have hne : dFunct5 b ≠ 0x02 := by
    rw [hf5]
    decide
  rw [hatomik, Kompyuter.atomik, if_neg (not_not.2 hf3), if_neg hne, h.x,
    if_neg (not_not.2 htekis), if_pos hf5, Kompyuter.scw, if_pos (Or.inl h.band)]

theorem bajar_aniq (h : k.bajar x b uz pc = .ok (k', pc', .istisno sabab tval)) :
    pc' = pc ∧ Iz tval k k' ∧ (k.eskirmagan tval → FaqatAD k.ram k'.ram) ∧
      ∀ t y pc, Qaytdi k' t →
        (¬ k.scBand b →
          bandli false 0 (t.bajar y b uz pc) = bandli false 0 ((k.tuzatilgan t).bajar y b uz pc)) ∧
        (k.scBand b → k.cpu.x (dRs1 b) &&& 3 = 0 →
          t.bajar y b uz pc = .ok ((t.bandQil false t.bandManzil).rdYoz (dRd b) 1, pc, .ok)) := by
  obtain ⟨hpc, hiz⟩ := bajar_iz h
  refine ⟨hpc, hiz, hiz.faqatAD, fun t y pc hq => ?_⟩
  have hk : Qaytdi k t :=
    ⟨hq.x.trans (congrArg _ hiz.cpu), hq.pc.trans (congrArg _ hiz.cpu),
      hq.rejim.trans (congrArg _ hiz.cpu), hq.band⟩
  exact ⟨bajar_qayta hk, bajar_scBand hk⟩

/-- In the S mode with translation on. The TLB has an entry for the page 0 whose physical page does
not exist; its page-table entry in the RAM has been cleared since. -/
def eskirgan : Kompyuter where
  cpu := { rejim := rejimS, satp := 0x80000000, tlbBor := fun _ => true }
  ramHajm := 0x100000
  tlb := fun _ => { pte := pteR ||| 1, pteManzil := ramBosh }

def bandKompyuter : Kompyuter where
  cpu := { rejim := rejimS, satp := 0x80000000, bandBor := true
           x := fun i => if i = 1 then 0x80000000 else 7 }
  ramHajm := 0x100000
  bandManzil := 0x80000000

def qaytganKompyuter (k : Kompyuter) : Kompyuter :=
  { k with cpu := Cpu.trapQaytishM
             { k.cpu with rejim := rejimM, satp := 0, mepc := k.cpu.pc, mstatus := 1 <<< 11 } }

theorem bajar_aniq_eskirgan :
    ∃ k', eskirgan.bajar (fun _ => {}) 0x00002083 4 4 = .ok (k', 4, .istisno 5 0) ∧
      Iz 0 eskirgan k' := by
  have hrun : ∃ k', eskirgan.bajar (fun _ => {}) 0x00002083 4 4 = .ok (k', 4, .istisno 5 0) :=
    ⟨_, rfl⟩
  obtain ⟨k', h⟩ := hrun
  exact ⟨k', h, (bajar_aniq h).2.1⟩

theorem not_aniq_eskirgan :
    (∃ k', eskirgan.bajar (fun _ => {}) 0x00002083 4 4 = .ok (k', 4, .istisno 5 0) ∧
      soz k'.ram 0 &&& ~~~(pteA ||| pteD) ≠ soz eskirgan.ram 0 &&& ~~~(pteA ||| pteD)) ∧
    ∃ k' o o', bandKompyuter.bajar (fun _ => {}) 0x1820A1AF 4 4 =
        .ok (k', 4, .istisno 15 0x80000000) ∧
      Qaytdi bandKompyuter (qaytganKompyuter k') ∧
      (qaytganKompyuter k').bajar (fun _ => {}) 0x1820A1AF 4 4 = .ok o ∧
      (bandKompyuter.tuzatilgan (qaytganKompyuter k')).bajar (fun _ => {}) 0x1820A1AF 4 4 = .ok o' ∧
      o.1.cpu.x 3 = 1 ∧ o.1.ram 0 = 0 ∧ o'.1.cpu.x 3 = 0 ∧ o'.1.ram 0 = 7 := by
  refine ⟨⟨_, rfl, ?_⟩, _, _, _, rfl, ⟨rfl, rfl, rfl, rfl⟩, rfl, rfl, ?_⟩
  · decide
  · decide

end MyOS.Emulator
