import MyOS.Emulator.Cpu
import MyOS.Library.Bits

/-! What the SYSTEM instructions can change in each mode. -/

namespace MyOS.Emulator

open Library Mashina

def Csrs.mDaraja (c : Csrs) : Csrs :=
  { c with mstatus := 0, mie := 0, mipDasturiy := 0, stvec := 0, sscratch := 0, sepc := 0,
           scause := 0, stval := 0, satp := 0, scounteren := 0, stimecmp := 0 }

structure Ajratilgan (b : Word) (c d : Csrs) : Prop where
  mDaraja : d.mDaraja = c.mDaraja
  mstatus : d.mstatus &&& ~~~sstatusMaska = c.mstatus &&& ~~~sstatusMaska ∨
    b = 0x10200073 ∧
      d.mstatus &&& ~~~sstatusMaska = c.mstatus &&& ~~~sstatusMaska &&& ~~~mstatusMprv
  mie : d.mie &&& ~~~c.mideleg = c.mie &&& ~~~c.mideleg
  mip : d.mipDasturiy &&& ~~~(c.mideleg &&& mipSsip) =
    c.mipDasturiy &&& ~~~(c.mideleg &&& mipSsip)

structure Togri (c : Cpu) : Prop where
  mpp : Cpu.mpp c.mstatus ≠ 2
  rejim : c.rejim = rejimU ∨ c.rejim = rejimS ∨ c.rejim = rejimM
  mideleg : c.mideleg &&& ~~~mipSBitlar = 0
  medeleg : c.medeleg &&& (1 : Word) <<< sababEcallM = 0

section Bits

variable {k bit maska x y : Word}

lemma maskali_and_of_disjoint (h : maska &&& k = 0) : maskali x y maska &&& k = x &&& k := by
  rw [maskali, BitVec.and_or_distrib_right, and_and_of_disjoint h, and_not_and_of_disjoint h]
  exact BitVec.or_zero

lemma nusxa_and_of_disjoint (h : bit &&& k = 0) : Cpu.nusxa x bit y &&& k = x &&& k := by
  unfold Cpu.nusxa
  split_ifs
  · exact or_and_of_disjoint h
  · exact and_not_and_of_disjoint h

lemma maskali_and_not : maskali x y maska &&& ~~~maska = x &&& ~~~maska :=
  maskali_and_of_disjoint (BitVec.and_not_self maska)

end Bits

section Mpp

variable {x y q : Word}

lemma mpp_congr (h : x &&& mstatusMpp = y &&& mstatusMpp) : Cpu.mpp x = Cpu.mpp y := by
  unfold Cpu.mpp
  rw [h]

lemma mpp_toNat : (Cpu.mpp x).toNat = ((x &&& mstatusMpp) >>> mstatusMppSiljish).toNat := by
  have hle : (x &&& mstatusMpp).toNat ≤ 6144 := by
    rw [BitVec.toNat_and]
    exact Nat.and_le_right
  rw [Cpu.mpp, BitVec.toNat_setWidth, BitVec.toNat_ushiftRight, Nat.shiftRight_eq_div_pow,
    show 2 ^ mstatusMppSiljish = 2048 from rfl]
  omega

lemma mstatusYangi_mpp (h : Cpu.mpp x ≠ 2) : Cpu.mpp (mstatusYangi x q) ≠ 2 := by
  unfold mstatusYangi
  dsimp only
  split_ifs with hm
  · have hpart : ((maskali x q mstatusMaska &&& ~~~mstatusMpp) ||| (x &&& mstatusMpp)) &&&
        mstatusMpp = x &&& mstatusMpp := by
      rw [BitVec.and_or_distrib_right, BitVec.and_assoc, BitVec.not_and_self, BitVec.and_assoc,
        BitVec.and_self]
      simp
    rw [mpp_congr hpart]
    exact h
  · intro hmpp
    apply hm
    apply BitVec.eq_of_toNat_eq
    rw [← mpp_toNat, hmpp]
    rfl

end Mpp

structure Yozilgan (rejim : Rejim) (c d : Csrs) : Prop where
  daraja : 1 ≤ rejim.toNat
  ajratilgan : rejim = rejimS → ∀ b, Ajratilgan b c d
  mpp : Cpu.mpp c.mstatus ≠ 2 → Cpu.mpp d.mstatus ≠ 2
  mideleg : c.mideleg &&& ~~~mipSBitlar = 0 → d.mideleg &&& ~~~mipSBitlar = 0
  medeleg : c.medeleg &&& (1 : Word) <<< sababEcallM = 0 →
    d.medeleg &&& (1 : Word) <<< sababEcallM = 0
  instret : d.instret = c.instret

section Yozish

variable (m : Mashina) (raqam : ℕ) (q : Word)

lemma ne_rejimS {r : Rejim} (h : 3 ≤ r.toNat) : r ≠ rejimS := by
  rintro rfl
  exact absurd h (by decide)

lemma one_le {r : Rejim} (h : 3 ≤ r.toNat) : 1 ≤ r.toNat := by
  omega

lemma csrYoz_cases : m.csrYoz raqam q = (m, sababNotogriBuyruq) ∨ m.csrYoz raqam q = (m, 0) ∨
    ∃ r, m.csrYoz raqam q = m.yozildi r ∧ Yozilgan m.cpu.rejim m.cpu.toCsrs r := by
  unfold csrYoz
  dsimp only
  by_cases hrejim : m.cpu.rejim.toNat < csrRejim raqam
  · rw [if_pos hrejim]
    exact .inl rfl
  rw [if_neg hrejim]
  by_cases hoqish : csrFaqatOqish raqam
  · rw [if_pos hoqish]
    exact .inl rfl
  rw [if_neg hoqish]
  rw [not_lt] at hrejim
  split
  -- `sstatus`, `sie` and `sip` are views of registers that the M level has too
  case h_1 =>
    refine .inr (.inr ⟨_, rfl, hrejim, fun _ b => ⟨rfl, .inl ?_, rfl, rfl⟩, ?_, id, id, rfl⟩)
    · exact maskali_and_not
    · intro h
      rw [mpp_congr (maskali_and_of_disjoint (by decide))]
      exact h
  case h_2 =>
    refine .inr (.inr ⟨_, rfl, hrejim, fun _ b => ⟨rfl, .inl rfl, ?_, rfl⟩, id, id, id, rfl⟩)
    exact maskali_and_not
  case h_3 =>
    refine .inr (.inr ⟨_, rfl, hrejim, fun _ b => ⟨rfl, .inl rfl, rfl, ?_⟩, id, id, id, rfl⟩)
    exact maskali_and_not
  -- the registers of the M level that the invariant speaks of
  case h_14 =>
    exact .inr (.inr ⟨_, rfl, one_le hrejim, fun h => absurd h (ne_rejimS hrejim),
      mstatusYangi_mpp, id, id, rfl⟩)
  case h_17 =>
    refine .inr (.inr ⟨_, rfl, one_le hrejim, fun h => absurd h (ne_rejimS hrejim), id, id,
      fun _ => ?_, rfl⟩)
    dsimp only
    rw [BitVec.and_assoc, BitVec.not_and_self]
    exact BitVec.and_zero
  case h_18 =>
    refine .inr (.inr ⟨_, rfl, one_le hrejim, fun h => absurd h (ne_rejimS hrejim), id,
      fun _ => ?_, id, rfl⟩)
    exact and_and_of_disjoint (BitVec.and_not_self mipSBitlar)
  case h_11 | h_12 | h_13 =>
    split_ifs
    · exact .inl rfl
    · exact .inr (.inr ⟨_, rfl, hrejim, fun _ b => ⟨rfl, .inl rfl, rfl, rfl⟩, id, id, id,
        rfl⟩)
  case h_4 | h_5 | h_7 | h_8 | h_9 | h_10 =>
    exact .inr (.inr ⟨_, rfl, hrejim, fun _ b => ⟨rfl, .inl rfl, rfl, rfl⟩, id, id, id, rfl⟩)
  case h_33 =>
    have hdaraja : csrRejim raqam = raqam / 2 ^ 8 % 4 := rfl
    split_ifs with hcfg haddr
    · have h3 : 3 ≤ m.cpu.rejim.toNat := by omega
      exact .inr (.inr ⟨_, rfl, one_le h3, fun h => absurd h (ne_rejimS h3), id, id, id, rfl⟩)
    · have h3 : 3 ≤ m.cpu.rejim.toNat := by omega
      exact .inr (.inr ⟨_, rfl, one_le h3, fun h => absurd h (ne_rejimS h3), id, id, id, rfl⟩)
    · exact .inl rfl
  case h_6 | h_15 | h_16 | h_23 | h_29 | h_30 | h_31 | h_32 => exact .inr (.inl rfl)
  all_goals
    exact .inr (.inr ⟨_, rfl, one_le hrejim, fun h => absurd h (ne_rejimS hrejim), id, id, id,
      rfl⟩)

lemma csrYoz_of_faqatOqish {m : Mashina} {raqam : ℕ} {q : Word} (h : csrFaqatOqish raqam) :
    m.csrYoz raqam q = (m, sababNotogriBuyruq) := by
  unfold csrYoz
  dsimp only
  rw [if_pos h, ite_self]

end Yozish

inductive Bajarildi (m : Mashina) (b : Word) : Mashina × Word × Natija → Prop
  | istisno {pc sabab tval} : Bajarildi m b (m, pc, .istisno sabab tval)
  | oddiy {t pc} (hc : t.cpu.toCsrs = m.cpu.toCsrs) (hr : t.cpu.rejim = m.cpu.rejim) :
      Bajarildi m b (t, pc, .ok)
  | csr {t pc} (hc : Yozilgan m.cpu.rejim m.cpu.toCsrs t.cpu.toCsrs)
      (hr : t.cpu.rejim = m.cpu.rejim) : Bajarildi m b (t, pc, .ok)
  | mret {pc} (hr : m.cpu.rejim = rejimM) : Bajarildi m b (m.withCpu m.cpu.trapQaytishM, pc, .ok)
  | sret {pc} (hb : b = 0x10200073) (hr : m.cpu.rejim ≠ rejimU) :
      Bajarildi m b (m.withCpu m.cpu.trapQaytishS, pc, .ok)

section Buyruqlar

variable {m : Mashina} {b pc : Word}

@[simp]
lemma rdYoz_toCsrs {c : Cpu} {rd : BitVec 5} {v : Word} : (c.rdYoz rd v).toCsrs = c.toCsrs := by
  unfold Cpu.rdYoz
  split_ifs <;> rfl

@[simp]
lemma rdYoz_rejim {c : Cpu} {rd : BitVec 5} {v : Word} : (c.rdYoz rd v).rejim = c.rejim := by
  unfold Cpu.rdYoz
  split_ifs <;> rfl

lemma csrBuyrugi_bajarildi : Bajarildi m b (m.csrBuyrugi b pc) := by
  unfold csrBuyrugi
  dsimp only
  split
  · exact .istisno
  · next eski _ =>
    split
    · obtain hw | hw | ⟨r, hw, hr⟩ := csrYoz_cases m (b.extractLsb' 20 12).toNat
        (m.csrYangi ((dFunct3 b).setWidth 2) (b.extractLsb' 20 12).toNat eski
          (if dFunct3 b &&& 4 ≠ 0 then (dRs1 b).setWidth 32 else m.cpu.x (dRs1 b)))
      · rw [hw]
        exact .istisno
      · rw [hw]
        exact .oddiy rdYoz_toCsrs rdYoz_rejim
      · rw [hw]
        refine .csr ?_ rdYoz_rejim
        simpa [withCpu, yozildi] using hr
    · exact .oddiy rdYoz_toCsrs rdYoz_rejim

lemma tizimBuyrugi_bajarildi : Bajarildi m b (m.tizimBuyrugi b pc) := by
  unfold tizimBuyrugi
  dsimp only
  split_ifs with h0 hecall hebreak hmret hM hsret hS hwfi hW hfence hF h4
  · exact .istisno
  · exact .istisno
  · exact .istisno
  · exact .mret (not_not.1 hM)
  · exact .istisno
  · exact .sret hsret fun h => hS (.inl h)
  · exact .istisno
  · exact .oddiy rfl rfl
  · exact .istisno
  · exact .oddiy rfl rfl
  · exact .istisno
  · exact .istisno
  · exact csrBuyrugi_bajarildi

end Buyruqlar

section Togri

variable {m t : Mashina} {b pc : Word}

lemma trapQaytishM_mpp {c : Cpu} : Cpu.mpp c.trapQaytishM.mstatus ≠ 2 := by
  have hz : c.trapQaytishM.mstatus &&& mstatusMpp = 0 &&& mstatusMpp := by
    unfold Cpu.trapQaytishM
    dsimp only
    split_ifs
    · rw [and_not_and_of_disjoint (by decide), BitVec.and_assoc, BitVec.not_and_self]
      simp
    · rw [BitVec.and_assoc, BitVec.not_and_self]
      simp
  rw [mpp_congr hz]
  decide

lemma trapQaytishS_and {c : Cpu} {k : Word} (h : (sstatusMaska ||| mstatusMprv) &&& k = 0) :
    c.trapQaytishS.mstatus &&& k = c.mstatus &&& k := by
  unfold Cpu.trapQaytishS
  dsimp only
  rw [and_not_and_of_disjoint (and_of_mask (by decide) h),
    and_not_and_of_disjoint (and_of_mask (by decide) h),
    or_and_of_disjoint (and_of_mask (by decide) h),
    nusxa_and_of_disjoint (and_of_mask (by decide) h)]

lemma trapQaytishS_and_not {c : Cpu} : c.trapQaytishS.mstatus &&& ~~~sstatusMaska =
    c.mstatus &&& ~~~sstatusMaska &&& ~~~mstatusMprv := by
  have hprv : c.trapQaytishS.mstatus &&& ~~~mstatusMprv = c.trapQaytishS.mstatus := by
    unfold Cpu.trapQaytishS
    dsimp only
    rw [BitVec.and_assoc, BitVec.and_self]
  rw [← hprv, BitVec.and_assoc, trapQaytishS_and (by decide), BitVec.and_assoc,
    BitVec.and_comm (~~~mstatusMprv)]

lemma trapQaytishS_rejim {c : Cpu} : c.trapQaytishS.rejim = rejimU ∨ c.trapQaytishS.rejim = rejimS := by
  unfold Cpu.trapQaytishS
  dsimp only
  split_ifs
  · exact .inr rfl
  · exact .inl rfl

lemma rejim_cases {r : Rejim} (h : r ≠ 2) : r = rejimU ∨ r = rejimS ∨ r = rejimM := by
  revert h r
  decide

lemma Togri.bajarildi {o : Mashina × Word × Natija} (h : Togri m.cpu) (hb : Bajarildi m b o) :
    Togri o.1.cpu := by
  cases hb with
  | istisno => exact h
  | oddiy hc hr =>
    exact ⟨hc ▸ h.mpp, hr ▸ h.rejim, hc ▸ h.mideleg, hc ▸ h.medeleg⟩
  | csr hc hr =>
    exact ⟨hc.mpp h.mpp, hr ▸ h.rejim, hc.mideleg h.mideleg, hc.medeleg h.medeleg⟩
  | mret hr => exact ⟨trapQaytishM_mpp, rejim_cases h.mpp, h.mideleg, h.medeleg⟩
  | sret hb hr =>
    refine ⟨?_, ?_, h.mideleg, h.medeleg⟩
    · have hmpp : Cpu.mpp m.cpu.trapQaytishS.mstatus = Cpu.mpp m.cpu.mstatus :=
        mpp_congr (trapQaytishS_and (by decide))
      exact hmpp ▸ h.mpp
    · obtain hU | hS := trapQaytishS_rejim (c := m.cpu)
      · exact .inl hU
      · exact .inr (.inl hS)

lemma Togri.step {l : Qadam} (h : Togri m.cpu) (hs : Step m l t) : Togri t.cpu := by
  cases hs with
  | tizim => exact h.bajarildi tizimBuyrugi_bajarildi
  | boshqa hc hr =>
    refine ⟨?_, hr ▸ h.rejim, ?_, ?_⟩
    · rw [hc]
      exact h.mpp
    · rw [hc]
      exact h.mideleg
    · rw [hc]
      exact h.medeleg

lemma Togri.init {faqatS : Bool} (h : boshlangich faqatS m) : Togri m.cpu := by
  obtain ⟨hc, hr⟩ := h
  cases faqatS with
  | false =>
    refine ⟨?_, .inr (.inr hr), ?_, ?_⟩ <;> rw [hc] <;> decide
  | true =>
    refine ⟨?_, .inr (.inl hr), ?_, ?_⟩ <;> rw [hc] <;> decide

lemma Togri.reachable (hm : system.Reachable m) : Togri m.cpu :=
  hm.invariant (I := fun m => Togri m.cpu) (fun _ h => Togri.init h.choose_spec)
    fun _ _ _ h hs => h.step hs

end Togri

section Isolation

variable {m : Mashina} {b : Word} {o : Mashina × Word × Natija}

lemma Bajarildi.rejimU (h : Bajarildi m b o) (hU : m.cpu.rejim = rejimU) :
    o.1.cpu.toCsrs = m.cpu.toCsrs := by
  cases h with
  | istisno => rfl
  | oddiy hc _ => exact hc
  | csr hc _ =>
    have hd := hc.daraja
    rw [hU] at hd
    exact absurd hd (by decide)
  | mret hr => exact absurd (hU.symm.trans hr) (by decide)
  | sret _ hr => exact absurd hU hr

lemma Ajratilgan.refl {c : Csrs} : Ajratilgan b c c :=
  ⟨rfl, .inl rfl, rfl, rfl⟩

lemma Bajarildi.rejimS (h : Bajarildi m b o) (hS : m.cpu.rejim = rejimS) :
    Ajratilgan b m.cpu.toCsrs o.1.cpu.toCsrs := by
  cases h with
  | istisno => exact Ajratilgan.refl
  | oddiy hc _ =>
    rw [hc]
    exact Ajratilgan.refl
  | csr hc _ => exact hc.ajratilgan hS b
  | mret hr => exact absurd (hS.symm.trans hr) (by decide)
  | sret hb _ => exact ⟨rfl, .inr ⟨hb, trapQaytishS_and_not⟩, rfl, rfl⟩

lemma Bajarildi.istisno_eq (h : Bajarildi m b o) {sabab : ℕ} {tval : Word}
    (hi : o.2.2 = .istisno sabab tval) : o.1 = m := by
  cases h with
  | istisno => rfl
  | oddiy | csr | mret | sret => exact absurd hi (by simp)

end Isolation

theorem privilege_isolation (m : Mashina) (hm : system.Reachable m) :
    Togri m.cpu ∧
      (∀ raqam q, csrFaqatOqish raqam → m.csrYoz raqam q = (m, sababNotogriBuyruq)) ∧
      ∀ b pc, let o := m.tizimBuyrugi b pc
        Togri o.1.cpu ∧
        (m.cpu.rejim = rejimU → o.1.cpu.toCsrs = m.cpu.toCsrs) ∧
        (m.cpu.rejim = rejimS → Ajratilgan b m.cpu.toCsrs o.1.cpu.toCsrs) ∧
        ∀ sabab tval, o.2.2 = .istisno sabab tval → o.1 = m := by
  have ht := Togri.reachable hm
  refine ⟨ht, fun raqam q h => csrYoz_of_faqatOqish h, fun b pc => ?_⟩
  have hb : Bajarildi m b (m.tizimBuyrugi b pc) := tizimBuyrugi_bajarildi
  exact ⟨ht.bajarildi hb, hb.rejimU, hb.rejimS, fun _ _ => hb.istisno_eq⟩

/-- The machine that `main` starts with `-S`; `x5` has all bits but that of `SPP`. -/
def sMashina : Mashina where
  cpu := { stimecmp := -1, medeleg := 0xB3FF, mideleg := mipSBitlar, menvcfgh := menvcfghStce, mcounteren := 7,
           rejim := rejimS, x := fun r => if r = 5 then 0xFFFFFEFF else 0 }

lemma sMashina_reachable : system.Reachable sMashina := .init ⟨true, rfl, rfl⟩

/-- After `csrw sstatus, x5` and `sret`. -/
def uMashina : Mashina := ((sMashina.tizimBuyrugi 0x10029073 4).1.tizimBuyrugi 0x10200073 8).1

lemma uMashina_reachable : system.Reachable uMashina :=
  .step (.tizim 0x10200073 8) (.step (.tizim 0x10029073 4) sMashina_reachable .tizim) .tizim

theorem privilege_isolation_sret : (let o := sMashina.tizimBuyrugi 0x10029073 4
      o.2.2 = .ok ∧ o.1.cpu.mstatus = 0xC0022 ∧ Ajratilgan 0x10029073 sMashina.cpu.toCsrs o.1.cpu.toCsrs) ∧
    uMashina.cpu.rejim = rejimU ∧ Togri uMashina.cpu ∧
    let o := uMashina.tizimBuyrugi 0x10029073 12
    o.2.2 = .istisno sababNotogriBuyruq 0x10029073 ∧ o.1 = uMashina := by
  have hs := (privilege_isolation sMashina sMashina_reachable).2.2 0x10029073 4
  obtain ⟨hu, -, hbuyruq⟩ := privilege_isolation uMashina uMashina_reachable
  have histisno : (uMashina.tizimBuyrugi 0x10029073 12).2.2 = .istisno sababNotogriBuyruq 0x10029073 := by
    decide +kernel
  exact ⟨⟨by decide +kernel, by decide +kernel, hs.2.2.1 rfl⟩, by decide +kernel, hu, histisno,
    (hbuyruq 0x10029073 12).2.2.2 _ _ histisno⟩

end MyOS.Emulator
