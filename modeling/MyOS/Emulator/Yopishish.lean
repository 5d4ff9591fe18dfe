import MyOS.Emulator.Privilege

/-! What `csrrs` and `csrrc` on `mip` and `sip` store in `mip_dasturiy`. -/

namespace MyOS.Emulator

namespace Mashina

def csrRaqam (b : Word) : ℕ := (b.extractLsb' 20 12).toNat

def csrManba (m : Mashina) (b : Word) : Word :=
  if dFunct3 b &&& 4 ≠ 0 then (dRs1 b).setWidth 32 else m.cpu.x (dRs1 b)

def csrTur (b : Word) : BitVec 2 := (dFunct3 b).setWidth 2

structure MipBuyrugi (b : Word) : Prop where
  tur : csrTur b = 2 ∨ csrTur b = 3
  raqam : csrRaqam b = 0x344 ∨ csrRaqam b = 0x144

def qurilmaBitlari (m : Mashina) : Word :=
  mipQiymati { m with cpu := { m.cpu with mipDasturiy := 0 } }

def SstcKutyapti (m : Mashina) : Prop :=
  m.cpu.menvcfgh &&& menvcfghStce ≠ 0 ∧ m.cpu.stimecmp ≤ m.cpu.instret

/-- The instruction changes stored bits only where its source has them; what only a device or a comparison
held is not in `mip` after the device or the comparison has let it go. -/
structure Yopishmaydi (m : Mashina) (b keyingiPc : Word) : Prop where
  bitlar : ∀ i, (m.tizimBuyrugi b keyingiPc).1.cpu.mipDasturiy.getLsbD i ≠ m.cpu.mipDasturiy.getLsbD i →
    (m.csrManba b).getLsbD i = true ∧
      (m.tizimBuyrugi b keyingiPc).1.cpu.mipDasturiy.getLsbD i = decide (csrTur b = 2)
  ochadi : ∀ i, m.qurilmaBitlari.getLsbD i = true → m.cpu.mipDasturiy.getLsbD i = false →
    (m.csrManba b).getLsbD i = false →
    ∀ t : Mashina, t.cpu.mipDasturiy = (m.tizimBuyrugi b keyingiPc).1.cpu.mipDasturiy →
      t.qurilmaBitlari.getLsbD i = false → t.mipQiymati.getLsbD i = false

section Qiymat

variable {m : Mashina} {i : ℕ}

lemma mipQiymati_or : m.mipQiymati = (m.cpu.mipDasturiy &&& mipSBitlar) |||
    ((if m.msip &&& 1 ≠ 0 then mipMsip else 0) ||| (if m.mtimecmp ≤ m.cpu.instret then mipMtip else 0) |||
      (if m.plicKutyapti 0 then mipMeip else 0) ||| (if m.plicKutyapti 1 then mipSeip else 0) |||
      if m.cpu.menvcfgh &&& menvcfghStce ≠ 0 ∧ m.cpu.stimecmp ≤ m.cpu.instret then mipStip else 0) := by
  unfold mipQiymati
  generalize m.cpu.mipDasturiy &&& mipSBitlar = d
  dsimp only
  split_ifs <;> simp [BitVec.or_assoc]

lemma qurilmaBitlari_or : m.qurilmaBitlari =
    ((if m.msip &&& 1 ≠ 0 then mipMsip else 0) ||| (if m.mtimecmp ≤ m.cpu.instret then mipMtip else 0) |||
      (if m.plicKutyapti 0 then mipMeip else 0) ||| (if m.plicKutyapti 1 then mipSeip else 0) |||
      if m.cpu.menvcfgh &&& menvcfghStce ≠ 0 ∧ m.cpu.stimecmp ≤ m.cpu.instret then mipStip else 0) := by
  rw [qurilmaBitlari, mipQiymati_or]
  simp

lemma mipQiymati_eq : m.mipQiymati = (m.cpu.mipDasturiy &&& mipSBitlar) ||| m.qurilmaBitlari := by
  rw [mipQiymati_or, qurilmaBitlari_or]

lemma getLsbD_ite {c : Prop} [Decidable c] {k : Word} (h : k.getLsbD i = false) :
    (if c then k else 0).getLsbD i = false := by
  split_ifs
  · exact h
  · exact BitVec.getLsbD_zero

lemma qurilmaBitlari_ssip : m.qurilmaBitlari.getLsbD 1 = false := by
  rw [qurilmaBitlari_or]
  simp only [BitVec.getLsbD_or]
  rw [getLsbD_ite (by decide), getLsbD_ite (by decide), getLsbD_ite (by decide), getLsbD_ite (by decide),
    getLsbD_ite (by decide)]
  rfl

lemma qurilmaBitlari_stip : m.qurilmaBitlari.getLsbD 5 = true ↔ m.SstcKutyapti := by
  rw [qurilmaBitlari_or]
  simp only [BitVec.getLsbD_or]
  rw [getLsbD_ite (by decide), getLsbD_ite (by decide), getLsbD_ite (by decide), getLsbD_ite (by decide)]
  unfold SstcKutyapti
  split_ifs with h
  · exact iff_of_true (by decide) h
  · exact iff_of_false (by decide) h

end Qiymat

section Buyruq

variable {m : Mashina} {b pc : Word}

def yozilganBitlar (m : Mashina) (b : Word) : Word :=
  if csrRaqam b = 0x344 then
    maskali m.cpu.mipDasturiy (m.csrYangi (csrTur b) (csrRaqam b) m.mipQiymati (m.csrManba b)) mipSBitlar
  else
    maskali m.cpu.mipDasturiy
      (m.csrYangi (csrTur b) (csrRaqam b) (m.mipQiymati &&& m.cpu.mideleg) (m.csrManba b))
      (m.cpu.mideleg &&& mipSsip)

def Yozadi (m : Mashina) (b : Word) : Prop := csrRejim (csrRaqam b) ≤ m.cpu.rejim.toNat ∧ dRs1 b ≠ 0

instance (m : Mashina) (b : Word) : Decidable (m.Yozadi b) := inferInstanceAs (Decidable (_ ∧ _))

lemma csrOqi_none {raqam : ℕ} (h : m.cpu.rejim.toNat < csrRejim raqam) : m.csrOqi raqam = none := by
  unfold csrOqi
  exact if_pos h

lemma csrOqi_mip (h : csrRejim 0x344 ≤ m.cpu.rejim.toNat) : m.csrOqi 0x344 = some m.mipQiymati :=
  if_neg (not_lt.2 h)

lemma csrOqi_sip (h : csrRejim 0x144 ≤ m.cpu.rejim.toNat) :
    m.csrOqi 0x144 = some (m.mipQiymati &&& m.cpu.mideleg) :=
  if_neg (not_lt.2 h)

lemma csrYoz_mip (h : csrRejim 0x344 ≤ m.cpu.rejim.toNat) (q : Word) : m.csrYoz 0x344 q =
    m.yozildi { m.cpu.toCsrs with mipDasturiy := maskali m.cpu.mipDasturiy q mipSBitlar } :=
  (if_neg (not_lt.2 h)).trans (if_neg (by decide))

lemma csrYoz_sip (h : csrRejim 0x144 ≤ m.cpu.rejim.toNat) (q : Word) : m.csrYoz 0x144 q = m.yozildi
    { m.cpu.toCsrs with mipDasturiy := maskali m.cpu.mipDasturiy q (m.cpu.mideleg &&& mipSsip) } :=
  (if_neg (not_lt.2 h)).trans (if_neg (by decide))

section Tartib

variable {eski : Word} (htur : csrTur b ≠ 1)

include htur

lemma csrBuyrugi_none (h : m.csrOqi (csrRaqam b) = none) : (m.csrBuyrugi b pc).1 = m := by
  unfold csrBuyrugi
  dsimp only
  rw [if_pos fun hc => htur hc.1, show m.csrOqi (b.extractLsb' 20 12).toNat = none from h]

lemma csrBuyrugi_oqiydi (h : m.csrOqi (csrRaqam b) = some eski) (hrs : dRs1 b = 0) :
    (m.csrBuyrugi b pc).1.cpu.toCsrs = m.cpu.toCsrs := by
  unfold csrBuyrugi
  dsimp only
  rw [if_pos fun hc => htur hc.1, show m.csrOqi (b.extractLsb' 20 12).toNat = some eski from h]
  dsimp only
  rw [if_neg fun hc => hc ⟨htur, hrs⟩]
  exact rdYoz_toCsrs

lemma csrBuyrugi_yozadi {t : Mashina} (h : m.csrOqi (csrRaqam b) = some eski) (hrs : dRs1 b ≠ 0)
    (hy : m.csrYoz (csrRaqam b) (m.csrYangi (csrTur b) (csrRaqam b) eski (m.csrManba b)) = (t, 0)) :
    (m.csrBuyrugi b pc).1.cpu.toCsrs = t.cpu.toCsrs := by
  unfold csrBuyrugi
  dsimp only
  rw [if_pos fun hc => htur hc.1, show m.csrOqi (b.extractLsb' 20 12).toNat = some eski from h]
  dsimp only
  rw [if_pos fun hc => hrs hc.2, ← csrManba, ← csrTur, ← csrRaqam, hy]
  exact rdYoz_toCsrs

end Tartib

lemma csrBuyrugi_mipDasturiy (hb : MipBuyrugi b) : (m.csrBuyrugi b pc).1.cpu.mipDasturiy =
    if m.Yozadi b then m.yozilganBitlar b else m.cpu.mipDasturiy := by
  have htur : csrTur b ≠ 1 := by
    rcases hb.tur with h | h <;> rw [h] <;> decide
  by_cases hy : m.Yozadi b
  · rw [if_pos hy, yozilganBitlar]
    obtain ⟨hrejim, hrs⟩ := hy
    rcases hb.raqam with hr | hr
    · rw [hr] at hrejim
      rw [if_pos hr]
      exact congrArg Csrs.mipDasturiy
        (csrBuyrugi_yozadi htur (hr ▸ csrOqi_mip hrejim) hrs (hr ▸ csrYoz_mip hrejim _))
    · rw [hr] at hrejim
      rw [if_neg (by rw [hr]; decide)]
      exact congrArg Csrs.mipDasturiy
        (csrBuyrugi_yozadi htur (hr ▸ csrOqi_sip hrejim) hrs (hr ▸ csrYoz_sip hrejim _))
  rw [if_neg hy]
  by_cases hrejim : csrRejim (csrRaqam b) ≤ m.cpu.rejim.toNat
  · have hrs : dRs1 b = 0 := by
      by_contra hrs
      exact hy ⟨hrejim, hrs⟩
    rcases hb.raqam with hr | hr
    · rw [hr] at hrejim
      exact congrArg Csrs.mipDasturiy (csrBuyrugi_oqiydi htur (hr ▸ csrOqi_mip hrejim) hrs)
    · rw [hr] at hrejim
      exact congrArg Csrs.mipDasturiy (csrBuyrugi_oqiydi htur (hr ▸ csrOqi_sip hrejim) hrs)
  · rw [csrBuyrugi_none htur (csrOqi_none (not_le.1 hrejim))]

end Buyruq

section Bitlar

variable {m : Mashina} {b : Word} {i : ℕ}

lemma maskali_bit {eski yangi maska : Word} : (maskali eski yangi maska).getLsbD i =
    if maska.getLsbD i then yangi.getLsbD i else eski.getLsbD i := by
  unfold maskali
  rw [BitVec.getLsbD_or, BitVec.getLsbD_and, BitVec.getLsbD_and, BitVec.getLsbD_not]
  cases hm : maska.getLsbD i with
  | false =>
    by_cases hi : i < 32
    · simp [hi]
    · simp [BitVec.getLsbD_of_ge eski i (not_lt.1 hi)]
  | true => simp

lemma mipSBitlar_bit : mipSBitlar.getLsbD i = true ↔ i = 1 ∨ i = 5 ∨ i = 9 := by
  by_cases hi : i < 32
  · have hall : ∀ i : Fin 32, mipSBitlar.getLsbD i = true ↔ (i : ℕ) = 1 ∨ (i : ℕ) = 5 ∨ (i : ℕ) = 9 := by
      decide
    exact hall ⟨i, hi⟩
  · rw [BitVec.getLsbD_of_ge _ _ (not_lt.1 hi)]
    exact iff_of_false (by decide) (by omega)

lemma mipQiymati_bit (hi : i = 1 ∨ i = 5 ∨ i = 9) : m.mipQiymati.getLsbD i =
    (m.cpu.mipDasturiy.getLsbD i || m.qurilmaBitlari.getLsbD i) := by
  rw [mipQiymati_eq, BitVec.getLsbD_or, BitVec.getLsbD_and, mipSBitlar_bit.2 hi, Bool.and_true]

def amal (b k : Word) (i : ℕ) (asos : Bool) : Bool :=
  if csrTur b = 2 then asos || k.getLsbD i else asos && !k.getLsbD i

lemma csrYangi_bit {raqam : ℕ} {eski k : Word} (htur : csrTur b ≠ 1) (hi : i < 32) :
    (m.csrYangi (csrTur b) raqam eski k).getLsbD i =
      amal b k i (if raqam = 0x344 ∧ i = 9 then m.cpu.mipDasturiy.getLsbD i else eski.getLsbD i) := by
  have hseip : mipSeip.getLsbD i = decide (i = 9) := by
    have hall : ∀ i : Fin 32, mipSeip.getLsbD i = decide ((i : ℕ) = 9) := by decide
    exact hall ⟨i, hi⟩
  have hasos : (if raqam = 0x344 ∧ csrTur b ≠ 1 then (eski &&& ~~~mipSeip) ||| (m.cpu.mipDasturiy &&& mipSeip)
      else eski).getLsbD i =
      if raqam = 0x344 ∧ i = 9 then m.cpu.mipDasturiy.getLsbD i else eski.getLsbD i := by
    by_cases hr : raqam = 0x344
    · rw [if_pos ⟨hr, htur⟩, BitVec.getLsbD_or, BitVec.getLsbD_and, BitVec.getLsbD_and, BitVec.getLsbD_not, hseip]
      by_cases h9 : i = 9 <;> simp [hr, h9, hi]
    · rw [if_neg fun h => hr h.1, if_neg fun h => hr h.1]
  unfold csrYangi amal
  dsimp only
  rw [if_neg htur, ← hasos]
  split_ifs <;> simp [hi]

instance (m : Mashina) : Decidable m.SstcKutyapti := inferInstanceAs (Decidable (_ ∧ _))

lemma yozilganBitlar_mip (htur : csrTur b ≠ 1) (hr : csrRaqam b = 0x344) :
    (m.yozilganBitlar b).getLsbD i = if mipSBitlar.getLsbD i then amal b (m.csrManba b) i
      (m.cpu.mipDasturiy.getLsbD i || decide (i = 5 ∧ m.SstcKutyapti)) else m.cpu.mipDasturiy.getLsbD i := by
  rw [yozilganBitlar, if_pos hr, maskali_bit]
  split_ifs with hm
  · have hi := mipSBitlar_bit.1 hm
    rw [csrYangi_bit htur (by omega), mipQiymati_bit hi]
    congr 1
    rcases hi with rfl | rfl | rfl
    · rw [qurilmaBitlari_ssip, if_neg fun h => absurd h.2 (by decide), decide_eq_false fun h => absurd h.1 (by decide)]
    · have hstip : m.qurilmaBitlari.getLsbD 5 = decide m.SstcKutyapti := by
        rw [Bool.eq_iff_iff, qurilmaBitlari_stip, decide_eq_true_iff]
      rw [hstip, if_neg fun h => absurd h.2 (by decide)]
      congr 2
      exact (propext (and_iff_right rfl)).symm
    · rw [if_pos ⟨hr, rfl⟩, decide_eq_false fun h => absurd h.1 (by decide), Bool.or_false]
  · rfl

lemma yozilganBitlar_sip (htur : csrTur b ≠ 1) (hr : csrRaqam b = 0x144) :
    (m.yozilganBitlar b).getLsbD i = if (m.cpu.mideleg &&& mipSsip).getLsbD i then
      amal b (m.csrManba b) i (m.cpu.mipDasturiy.getLsbD i) else m.cpu.mipDasturiy.getLsbD i := by
  rw [yozilganBitlar, if_neg (by rw [hr]; decide), maskali_bit]
  split_ifs with hm
  · rw [BitVec.getLsbD_and, Bool.and_eq_true] at hm
    obtain ⟨hd, hs⟩ := hm
    have hi : i = 1 := by
      by_contra hi
      have hsb : mipSBitlar.getLsbD i = true := by
        rw [mipSBitlar, BitVec.getLsbD_or, BitVec.getLsbD_or, hs]
        rfl
      rcases mipSBitlar_bit.1 hsb with rfl | rfl | rfl
      · exact hi rfl
      · cases hs
      · cases hs
    subst hi
    rw [csrYangi_bit htur (by decide), if_neg fun h => absurd h.2 (by decide), BitVec.getLsbD_and, hd, mipQiymati_bit (Or.inl rfl),
      qurilmaBitlari_ssip, Bool.or_false, Bool.and_true]
  · rfl

lemma amal_of_source {k : Word} {asos : Bool} (hk : k.getLsbD i = true) :
    amal b k i asos = decide (csrTur b = 2) := by
  rw [amal, hk]
  split_ifs with h
  · rw [Bool.or_true, decide_eq_true h]
  · rw [Bool.not_true, Bool.and_false, decide_eq_false h]

lemma amal_ne {k : Word} {eski : Bool} (h : amal b k i eski ≠ eski) :
    k.getLsbD i = true ∧ amal b k i eski = decide (csrTur b = 2) := by
  cases hk : k.getLsbD i with
  | true => exact ⟨rfl, amal_of_source hk⟩
  | false =>
    rw [amal, hk] at h
    split_ifs at h <;> simp at h

end Bitlar

lemma tizimBuyrugi_csr {m : Mashina} {b pc : Word} (hb : MipBuyrugi b) :
    m.tizimBuyrugi b pc = m.csrBuyrugi b pc := by
  have hne : ∀ f3 : BitVec 3, BitVec.setWidth 2 f3 = 2 ∨ BitVec.setWidth 2 f3 = 3 → f3 ≠ 0 ∧ f3 ≠ 4 := by
    decide
  obtain ⟨h0, h4⟩ := hne _ hb.tur
  unfold tizimBuyrugi
  dsimp only
  rw [if_neg h0, if_neg h4]

theorem yopishmaydi_iff (m : Mashina) (b keyingiPc : Word) (hb : MipBuyrugi b) :
    Yopishmaydi m b keyingiPc ↔ ¬ (csrRaqam b = 0x344 ∧ m.Yozadi b ∧ m.SstcKutyapti ∧
      m.cpu.mipDasturiy.getLsbD 5 = false ∧ (m.csrManba b).getLsbD 5 = false) := by
  have htur : csrTur b ≠ 1 := by
    rcases hb.tur with h | h <;> rw [h] <;> decide
  have hnew : (m.tizimBuyrugi b keyingiPc).1.cpu.mipDasturiy =
      if m.Yozadi b then m.yozilganBitlar b else m.cpu.mipDasturiy := by
    rw [tizimBuyrugi_csr hb, csrBuyrugi_mipDasturiy hb]
  constructor
  · rintro h ⟨hr, hy, hs, hd, hk⟩
    have hbit : (m.tizimBuyrugi b keyingiPc).1.cpu.mipDasturiy.getLsbD 5 = true := by
      rw [hnew, if_pos hy, yozilganBitlar_mip htur hr, if_pos (by decide), hd, decide_eq_true ⟨rfl, hs⟩, amal, hk]
      split_ifs <;> rfl
    have hne := h.bitlar 5 (by rw [hbit, hd]; decide)
    rw [hk] at hne
    exact absurd hne.1 (by decide)
  · intro h
    have hbitlar : ∀ i, (m.tizimBuyrugi b keyingiPc).1.cpu.mipDasturiy.getLsbD i ≠ m.cpu.mipDasturiy.getLsbD i →
        (m.csrManba b).getLsbD i = true ∧
          (m.tizimBuyrugi b keyingiPc).1.cpu.mipDasturiy.getLsbD i = decide (csrTur b = 2) := by
      intro i hne
      rw [hnew] at hne ⊢
      by_cases hy : m.Yozadi b
      swap
      · rw [if_neg hy] at hne
        exact absurd rfl hne
      rw [if_pos hy] at hne ⊢
      rcases hb.raqam with hr | hr
      · rw [yozilganBitlar_mip htur hr] at hne ⊢
        split_ifs at hne ⊢ with hm
        · by_cases hsstc : i = 5 ∧ m.SstcKutyapti
          · obtain ⟨rfl, hs⟩ := hsstc
            cases hd : m.cpu.mipDasturiy.getLsbD 5 with
            | true =>
              rw [hd, Bool.true_or] at hne
              rw [Bool.true_or]
              exact amal_ne hne
            | false =>
              have hk : (m.csrManba b).getLsbD 5 = true := by
                by_contra hk
                exact h ⟨hr, hy, hs, hd, Bool.eq_false_iff.2 hk⟩
              exact ⟨hk, amal_of_source hk⟩
          · rw [decide_eq_false hsstc, Bool.or_false] at hne ⊢
            exact amal_ne hne
        · exact absurd rfl hne
      · rw [yozilganBitlar_sip htur hr] at hne ⊢
        split_ifs at hne ⊢ with hm
        · exact amal_ne hne
        · exact absurd rfl hne
    refine ⟨hbitlar, fun i _ hd hk t ht hdev => ?_⟩
    have hkept : (m.tizimBuyrugi b keyingiPc).1.cpu.mipDasturiy.getLsbD i = false := by
      by_contra hc
      have hsource := (hbitlar i (by rwa [hd])).1
      exact absurd (hk.symm.trans hsource) (by decide)
    rw [mipQiymati_eq, BitVec.getLsbD_or, BitVec.getLsbD_and, ht, hkept, hdev]
    rfl

def sstcMashina (k : Word) : Mashina where
  cpu := { rejim := rejimM, menvcfgh := menvcfghStce, x := fun _ => k }

theorem yopishmaydi_stip : Yopishmaydi (sstcMashina mipStip) 0x3440A073 4 :=
  (yopishmaydi_iff (sstcMashina mipStip) 0x3440A073 4 ⟨by decide, by decide⟩).2 (by decide)

theorem not_yopishmaydi_ssip : MipBuyrugi 0x3440A073 ∧ ¬ Yopishmaydi (sstcMashina mipSsip) 0x3440A073 4 := by
  have hb : MipBuyrugi 0x3440A073 := ⟨by decide, by decide⟩
  refine ⟨hb, fun h => ?_⟩
  have hne := h.bitlar 5 (by decide)
  exact absurd hne.1 (by decide)

end Mashina

end MyOS.Emulator
