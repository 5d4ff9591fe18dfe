import MyOS.Emulator.Bajar
import MyOS.Emulator.Privilege
import MyOS.Emulator.ShinaRuns

/-! An instruction that raises an exception leaves everything but the marks of its translation. -/

namespace MyOS.Emulator

open Library

section Shina

variable {k k' : Kompyuter} {x : Xost} {fiz q : Word} {n : ℕ} {bor : Bool}

lemma ramYoz_ok {hajm p : ℕ} {ram r : ℕ → UInt8} (hn : 0 < n)
    (h : Kompyuter.ramYoz hajm p q n 0 ram = .ok r) : r = Bytes.write ram p n q.toNat := by
  have hfits : ∀ n i (ram : ℕ → UInt8), 0 < n → Kompyuter.ramYoz hajm p q n i ram = .ok r →
      p + i + n ≤ hajm := by
    intro n
    induction n with
    | zero => exact fun _ _ h => absurd h (lt_irrefl 0)
    | succ n ih =>
      intro i ram _ h
      by_cases hlt : p + i < hajm
      · rw [Kompyuter.ramYoz, Massiv.yoz_of_lt hlt] at h
        cases n with
        | zero => omega
        | succ n => have := ih (i + 1) _ (Nat.succ_pos n) h; omega
      · rw [Kompyuter.ramYoz, Massiv.yoz, if_neg hlt] at h
        cases h
  have hp := hfits n 0 ram hn h
  rw [ramYoz_eq (by omega)] at h
  exact (Except.ok.inj h).symm

structure ShinaSaqlaydi (k k' : Kompyuter) : Prop where
  cpu : k'.cpu = k.cpu
  bandManzil : k'.bandManzil = k.bandManzil
  ramHajm : k'.ramHajm = k.ramHajm
  tlb : k'.tlb = k.tlb

lemma ShinaSaqlaydi.refl : ShinaSaqlaydi k k := ⟨rfl, rfl, rfl, rfl⟩

lemma diskBajar_saqlaydi (h : k.diskBajar x q = .ok k') :
    ShinaSaqlaydi k k' ∧ (q ≠ 1 → k'.ram = k.ram) := by
  rw [Kompyuter.diskBajar] at h
  simp only at h
  split at h
  · cases h
    exact ⟨⟨rfl, rfl, rfl, rfl⟩, fun _ => rfl⟩
  split at h
  · cases h
    exact ⟨⟨rfl, rfl, rfl, rfl⟩, fun _ => rfl⟩
  split at h
  · rename_i hq
    split at h
    · cases h
    · split at h <;> cases h
      · exact ⟨⟨rfl, rfl, rfl, rfl⟩, fun hne => absurd hq hne⟩
      · exact ⟨⟨rfl, rfl, rfl, rfl⟩, fun hne => absurd hq hne⟩
  split at h
  · split at h
    · cases h
    · split at h <;> cases h
      · exact ⟨⟨rfl, rfl, rfl, rfl⟩, fun _ => rfl⟩
      · exact ⟨⟨rfl, rfl, rfl, rfl⟩, fun _ => rfl⟩
  · cases h
    exact ⟨⟨rfl, rfl, rfl, rfl⟩, fun _ => rfl⟩

lemma diskYoz_saqlaydi {s : Word} (h : k.diskYoz x s q = .ok k') :
    ShinaSaqlaydi k k' ∧ (q ≠ 1 → k'.ram = k.ram) := by
  rw [Kompyuter.diskYoz] at h
  split at h
  · cases h
    exact ⟨⟨rfl, rfl, rfl, rfl⟩, fun _ => rfl⟩
  split at h
  · cases h
    exact ⟨⟨rfl, rfl, rfl, rfl⟩, fun _ => rfl⟩
  split at h
  · split at h
    · cases h
    · rename_i t ht
      obtain ⟨hs, hram⟩ := diskBajar_saqlaydi ht
      cases h
      exact ⟨⟨hs.cpu, hs.bandManzil, hs.ramHajm, hs.tlb⟩, hram⟩
  split at h
  · cases h
    exact ⟨⟨rfl, rfl, rfl, rfl⟩, fun _ => rfl⟩
  · cases h
    exact ⟨.refl, fun _ => rfl⟩

lemma clintYoz_cpu {m : Mashina} {s : Word} : (m.clintYoz s q).cpu = m.cpu := by
  rw [Mashina.clintYoz]
  split_ifs <;> rfl

def qurilmada (fiz : Word) : Prop :=
  Kompyuter.darchada fiz uartManzil uartHajm ∨ Kompyuter.darchada fiz diskManzil diskHajm ∨
    Kompyuter.darchada fiz clintManzil clintHajm ∨ Kompyuter.darchada fiz plicManzil plicHajm ∨
      fiz = quvvatManzil

inductive Yozuv (k : Kompyuter) (fiz : Word) (n : ℕ) (q : Word) : Kompyuter → Bool → Prop
  | ram (hi : k.ramIchida fiz n) (hn : 0 < n) :
      Yozuv k fiz n q { k with ram := Bytes.write k.ram (fiz - ramBosh).toNat n q.toNat } true
  | qurilma {t} (hi : ¬ k.ramIchida fiz n) (hq : qurilmada fiz) (hs : ShinaSaqlaydi k t)
      (hram : q ≠ 1 → t.ram = k.ram) : Yozuv k fiz n q t true
  | hechKim (hi : ¬ k.ramIchida fiz n) (hq : ¬ qurilmada fiz) : Yozuv k fiz n q k false

lemma shinaYoz_yozuv (hn : 0 < n) (h : k.shinaYoz x fiz n q = .ok (k', bor)) :
    Yozuv k fiz n q k' bor := by
  rw [Kompyuter.shinaYoz] at h
  split at h
  · rename_i hi
    split at h
    · cases h
    · rename_i r hr
      cases h
      rw [ramYoz_ok hn hr]
      exact .ram hi hn
  rename_i hi
  split at h
  · rename_i hu
    split at h
    · cases h
    · cases h
      exact .qurilma hi (.inl hu) ⟨rfl, rfl, rfl, rfl⟩ fun _ => rfl
  rename_i hu
  split at h
  · rename_i hd
    split at h
    · cases h
    · rename_i t ht
      cases h
      exact .qurilma hi (.inr (.inl hd)) (diskYoz_saqlaydi ht).1 (diskYoz_saqlaydi ht).2
  rename_i hd
  split at h
  · rename_i hc
    cases h
    exact .qurilma hi (.inr (.inr (.inl hc))) ⟨clintYoz_cpu, rfl, rfl, rfl⟩ fun _ => rfl
  rename_i hc
  split at h
  · rename_i hp
    split at h
    · cases h
    · cases h
      exact .qurilma hi (.inr (.inr (.inr (.inl hp)))) ⟨rfl, rfl, rfl, rfl⟩ fun _ => rfl
  rename_i hp
  split at h
  · rename_i hv
    have hq : qurilmada fiz := .inr (.inr (.inr (.inr hv)))
    split at h
    · cases h
      exact .qurilma hi hq ⟨rfl, rfl, rfl, rfl⟩ fun _ => rfl
    split at h
    · cases h
      exact .qurilma hi hq ⟨rfl, rfl, rfl, rfl⟩ fun _ => rfl
    · cases h
      exact .qurilma hi hq .refl fun _ => rfl
  · rename_i hv
    cases h
    refine .hechKim hi ?_
    rw [qurilmada]
    tauto

inductive Oqish (k : Kompyuter) (fiz : Word) (n : ℕ) : Kompyuter → Option Word → Prop
  | javob {t v} (hq : k.ramIchida fiz n ∨ qurilmada fiz) (hs : ShinaSaqlaydi k t) :
      Oqish k fiz n t (some v)
  | hechKim (hi : ¬ k.ramIchida fiz n) (hq : ¬ qurilmada fiz) : Oqish k fiz n k none

lemma shinaOqi_oqish {v : Option Word} (h : k.shinaOqi x fiz n = .ok (k', v)) :
    Oqish k fiz n k' v := by
  rw [Kompyuter.shinaOqi] at h
  split at h
  · rename_i hi
    split at h
    · cases h
    · cases h
      exact .javob (.inl hi) .refl
  rename_i hi
  split at h
  · rename_i hu
    split at h
    · cases h
    · cases h
      exact .javob (.inr (.inl hu)) ⟨rfl, rfl, rfl, rfl⟩
  rename_i hu
  split at h
  · rename_i hd
    cases h
    exact .javob (.inr (.inr (.inl hd))) ⟨rfl, rfl, rfl, rfl⟩
  rename_i hd
  split at h
  · rename_i hc
    cases h
    exact .javob (.inr (.inr (.inr (.inl hc)))) .refl
  rename_i hc
  split at h
  · rename_i hp
    split at h
    · cases h
    · cases h
      exact .javob (.inr (.inr (.inr (.inr (.inl hp))))) ⟨rfl, rfl, rfl, rfl⟩
  rename_i hp
  split at h
  · rename_i hv
    cases h
    exact .javob (.inr (.inr (.inr (.inr (.inr hv))))) .refl
  · rename_i hv
    cases h
    refine .hechKim hi ?_
    rw [qurilmada]
    tauto

end Shina

section Mmu

variable {k k' : Kompyuter} {x : Xost} {va pte pteManzil : Word} {tur : Kirish}

lemma belgilangan_ne_one : belgilangan pte tur ≠ 1 := by
  intro h
  have hbit : (belgilangan pte tur).getLsbD 6 = true := by
    rw [belgilangan, BitVec.getLsbD_or, BitVec.getLsbD_or, show pteA.getLsbD 6 = true by decide]
    simp
  rw [h] at hbit
  cases hbit

def Kompyuter.belgisiz (k : Kompyuter) (va : Word) (tur : Kirish) : Prop :=
  k.tlbMos va tur ∧ belgilangan (k.tlb (tlbRaqam va)).pte tur ≠ (k.tlb (tlbRaqam va)).pte

def Kompyuter.qolgan (k : Kompyuter) : Kompyuter :=
  { k with ram := fun _ => 0, tlb := fun _ => {}, tlbTopildi := 0, tlbTopilmadi := 0 }

structure Iz (va : Word) (k k' : Kompyuter) : Prop where
  cpu : k'.cpu = k.cpu
  bandManzil : k'.bandManzil = k.bandManzil
  ram : k'.ram = k.ram ∨ ∃ tur, k.belgisiz va tur ∧
    k.ramIchida (k.tlb (tlbRaqam va)).pteManzil 4 ∧
    k'.ram = Bytes.write k.ram ((k.tlb (tlbRaqam va)).pteManzil - ramBosh).toNat 4
      (belgilangan (k.tlb (tlbRaqam va)).pte tur).toNat
  qolgan : (∀ tur, k.belgisiz va tur → k.ramIchida (k.tlb (tlbRaqam va)).pteManzil 4) →
    k'.qolgan = k.qolgan

lemma Iz.refl : Iz va k k := ⟨rfl, rfl, .inl rfl, fun _ => rfl⟩

lemma Iz.tlbYoz {t : Kompyuter} {daraja : ℕ} (h : Iz va k t)
    (hbor : k.cpu.tlbBor (tlbRaqam va) = true) : Iz va k (t.tlbYoz va pte pteManzil daraja) := by
  have hself : Function.update t.cpu.tlbBor (tlbRaqam va) true = t.cpu.tlbBor := by
    rw [h.cpu, ← hbor, Function.update_eq_self]
  rw [Kompyuter.tlbYoz, hself]
  exact ⟨h.cpu, h.bandManzil, h.ram, h.qolgan⟩

lemma pteBelgila_iz {t : Kompyuter} (hm : k.tlbMos va tur)
    (h : ({ k with tlbTopildi := k.tlbTopildi + 1 } : Kompyuter).pteBelgila x tur
      (k.tlb (tlbRaqam va)).pte (k.tlb (tlbRaqam va)).pteManzil = .ok t) : Iz va k t := by
  rw [Kompyuter.pteBelgila] at h
  split at h
  · rename_i hne
    split at h
    · cases h
    · rename_i s bor hs
      cases h
      cases shinaYoz_yozuv (by decide) hs with
      | ram hi _ => exact ⟨rfl, rfl, .inr ⟨tur, ⟨hm, hne⟩, hi, rfl⟩, fun _ => rfl⟩
      | qurilma hi _ hsaq hram =>
        exact ⟨hsaq.cpu, hsaq.bandManzil, .inl (hram belgilangan_ne_one),
          fun hichida => absurd (hichida tur ⟨hm, hne⟩) hi⟩
      | hechKim _ _ => exact ⟨rfl, rfl, .inl rfl, fun _ => rfl⟩
  · cases h
    exact ⟨rfl, rfl, .inl rfl, fun _ => rfl⟩

lemma mmuTarjima_iz {r : Except ℕ Word} (h : k.mmuTarjima x va tur = .ok (k', r)) :
    Iz va k k' := by
  rw [Kompyuter.mmuTarjima] at h
  simp only at h
  split at h
  · cases h
    exact .refl
  by_cases hm : k.tlbMos va tur
  · rw [Kompyuter.pteTop] at h
    simp only [if_pos hm] at h
    split at h
    · cases h
      exact ⟨rfl, rfl, .inl rfl, fun _ => rfl⟩
    split at h
    · cases h
    · rename_i t ht
      have hiz := pteBelgila_iz hm ht
      split at h
      · cases h
        exact hiz
      · cases h
        exact hiz.tlbYoz hm.1
  · rw [Kompyuter.pteTop] at h
    simp only [if_neg hm, jadvalYurish] at h
    cases h
    exact ⟨rfl, rfl, .inl rfl, fun _ => rfl⟩

lemma xotiraOqi_iz {y : ℕ → Xost} {n xato : ℕ}
    (h : k.xotiraOqi y va n = .ok (k', .error xato)) : Iz va k k' := by
  rw [Kompyuter.xotiraOqi] at h
  split at h
  · cases h
    exact .refl
  split at h
  · cases h
  · rename_i t _ ht
    cases h
    exact mmuTarjima_iz ht
  · rename_i t fiz ht
    split at h
    · cases h
    · rename_i s hs
      cases h
      cases shinaOqi_oqish hs with
      | hechKim _ _ => exact mmuTarjima_iz ht
    · cases h

lemma xotiraYoz_iz {y : ℕ → Xost} {n xato : ℕ} {q : Word} (hn : 0 < n)
    (h : k.xotiraYoz y va n q = .ok (k', .error xato)) : Iz va k k' := by
  rw [Kompyuter.xotiraYoz] at h
  split at h
  · cases h
    exact .refl
  split at h
  · cases h
  · rename_i t _ ht
    cases h
    exact mmuTarjima_iz ht
  · rename_i t fiz ht
    split at h
    · cases h
    · rename_i s hs
      cases h
      cases shinaYoz_yozuv hn hs with
      | hechKim _ _ => exact mmuTarjima_iz ht
    · cases h

end Mmu

section Bajar

variable {k k' : Kompyuter} {x : ℕ → Xost} {b uz pc pc' tval : Word} {sabab : ℕ}

lemma lrw_iz (h : k.lrw x b pc = .ok (k', pc', .istisno sabab tval)) : pc' = pc ∧ Iz tval k k' := by
  rw [Kompyuter.lrw] at h
  split at h
  · cases h
    exact ⟨rfl, .refl⟩
  split at h
  · cases h
  · rename_i ht
    cases h
    exact ⟨rfl, xotiraOqi_iz ht⟩
  · cases h

lemma scw_iz (h : k.scw x b pc = .ok (k', pc', .istisno sabab tval)) : pc' = pc ∧ Iz tval k k' := by
  rw [Kompyuter.scw] at h
  split at h
  · cases h
  split at h
  · cases h
  · rename_i ht
    cases h
    exact ⟨rfl, xotiraYoz_iz (by decide) ht⟩
  · cases h

lemma amo_iz (h : k.amo x b pc = .ok (k', pc', .istisno sabab tval)) : pc' = pc ∧ Iz tval k k' := by
  rw [Kompyuter.amo] at h
  split at h
  · cases h
  · rename_i ht
    cases h
    exact ⟨rfl, mmuTarjima_iz ht⟩
  rename_i t fiz ht
  split at h
  · cases h
  · rename_i hs
    cases h
    cases shinaOqi_oqish hs with
    | hechKim _ _ => exact ⟨rfl, mmuTarjima_iz ht⟩
  rename_i s eski hs
  split at h
  · cases h
  · rename_i w hw
    cases shinaYoz_yozuv (by decide) hw with
    | hechKim hi hq =>
      cases shinaOqi_oqish hs with
      | javob hj hsaq =>
        have hichida : s.ramIchida fiz 4 ↔ t.ramIchida fiz 4 := by
          rw [Kompyuter.ramIchida, Kompyuter.ramIchida, hsaq.ramHajm]
        exact (hj.elim (fun hr => hi (hichida.2 hr)) hq).elim
  · cases h

lemma atomik_iz (h : k.atomik x b pc = .ok (k', pc', .istisno sabab tval)) :
    pc' = pc ∧ Iz tval k k' := by
  rw [Kompyuter.atomik] at h
  split at h
  · cases h
    exact ⟨rfl, .refl⟩
  split at h
  · exact lrw_iz h
  split at h
  · cases h
    exact ⟨rfl, .refl⟩
  split at h
  · exact scw_iz h
  · exact amo_iz h

lemma yuklash_iz (h : k.yuklash x b pc = .ok (k', pc', .istisno sabab tval)) :
    pc' = pc ∧ Iz tval k k' := by
  rw [Kompyuter.yuklash] at h
  split at h
  · cases h
    exact ⟨rfl, .refl⟩
  split at h
  · cases h
  · rename_i ht
    cases h
    exact ⟨rfl, xotiraOqi_iz ht⟩
  · cases h

lemma saqlash_iz (h : k.saqlash x b pc = .ok (k', pc', .istisno sabab tval)) :
    pc' = pc ∧ Iz tval k k' := by
  rw [Kompyuter.saqlash] at h
  split at h
  · cases h
    exact ⟨rfl, .refl⟩
  split at h
  · cases h
  · rename_i ht
    cases h
    refine ⟨rfl, xotiraYoz_iz ?_ ht⟩
    rw [Nat.one_shiftLeft]
    exact Nat.two_pow_pos _
  · cases h

lemma hisobla_iz (h : k.hisobla b uz pc = (k', pc', .istisno sabab tval)) :
    pc' = pc ∧ Iz tval k k' := by
  have heq : pc' = pc ∧ k' = k := by
    rw [Kompyuter.hisobla] at h
    simp only at h
    split at h
    · cases h
    · cases h
    · split at h <;> cases h
      exact ⟨rfl, rfl⟩
    · split at h
      · cases h
        exact ⟨rfl, rfl⟩
      · split at h <;> cases h
        exact ⟨rfl, rfl⟩
    · cases h
      exact ⟨rfl, rfl⟩
    · split at h <;> cases h
      exact ⟨rfl, rfl⟩
    · split at h
      · cases h
      · split at h
        · cases h
          exact ⟨rfl, rfl⟩
        · split at h <;> cases h
          exact ⟨rfl, rfl⟩
    · cases h
    · cases h
      exact ⟨rfl, rfl⟩
  rw [heq.2]
  exact ⟨heq.1, .refl⟩

lemma csrBuyrugi_pc {m : Mashina} : (m.csrBuyrugi b pc).2.1 = pc := by
  unfold Mashina.csrBuyrugi
  dsimp only
  split
  · rfl
  · split
    · rw [apply_ite Prod.snd, apply_ite Prod.fst, ite_self]
    · rfl

lemma tizimBuyrugi_pc {m : Mashina} (h : (m.tizimBuyrugi b pc).2.2 = .istisno sabab tval) :
    (m.tizimBuyrugi b pc).2.1 = pc := by
  revert h
  unfold Mashina.tizimBuyrugi
  dsimp only
  split_ifs with h0 hecall hebreak hmret hM hsret hS hwfi hW hfence hF h4 <;> intro h
  -- what returns from a trap raises no exception
  case neg | neg => cases h
  all_goals first | rfl | exact csrBuyrugi_pc

lemma tizim_iz (h : k.tizim b pc = (k', pc', .istisno sabab tval)) :
    pc' = pc ∧ Iz tval k k' := by
  rw [Kompyuter.tizim] at h
  generalize hm : ({ k.toMashina with plicKutyapti := fun i => k.plic.kutyapti i } : Mashina) = m at h
  have hcpu : m.cpu = k.cpu := hm ▸ rfl
  obtain ⟨rfl, ho⟩ := Prod.mk.inj h
  have hi : (m.tizimBuyrugi b pc).2.2 = .istisno sabab tval := by rw [ho]
  refine ⟨?_, ?_⟩
  · rw [← tizimBuyrugi_pc hi, ho]
  · rw [tizimBuyrugi_bajarildi.istisno_eq hi, hcpu]
    exact .refl

lemma bajar_iz (h : k.bajar x b uz pc = .ok (k', pc', .istisno sabab tval)) :
    pc' = pc ∧ Iz tval k k' := by
  rw [Kompyuter.bajar] at h
  split at h
  · exact yuklash_iz h
  · exact saqlash_iz h
  · exact atomik_iz h
  · exact tizim_iz (Except.ok.inj h)
  · exact hisobla_iz (Except.ok.inj h)

end Bajar

end MyOS.Emulator
