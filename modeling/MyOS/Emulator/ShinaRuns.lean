import MyOS.Emulator.Shina
import MyOS.Library.System
import Mathlib.Data.BitVec

/-! Whatever the guest asks of the bus, the emulator stays inside its arrays. -/

namespace MyOS.Emulator

open Library Function

section Ram

variable {k : Kompyuter} {p n i : ℕ} {v q : Word}

lemma shiftLeft_or_bayt (v : Word) (b : UInt8) : v <<< 8 ||| bayt b = v * 256 + bayt b := by
  have hb : b.toNat < 2 ^ 8 := b.toNat_lt
  apply BitVec.eq_of_toNat_eq
  have hlow : (v <<< 8).toNat = (v.toNat % 2 ^ 24) <<< 8 := by
    rw [BitVec.toNat_shiftLeft, Nat.shiftLeft_eq, Nat.shiftLeft_eq]
    omega
  have hbayt : (bayt b).toNat = b.toNat := by
    rw [bayt, BitVec.toNat_setWidth]
    exact Nat.mod_eq_of_lt (by change b.toNat < _; omega)
  rw [BitVec.toNat_or, hlow, hbayt, ← Nat.shiftLeft_add_eq_or_of_lt hb, BitVec.toNat_add,
    BitVec.toNat_mul, hbayt, Nat.shiftLeft_eq]
  change _ = (v.toNat * 256 % 2 ^ 32 + b.toNat) % 2 ^ 32
  omega

lemma ramOqi_eq (h : p + n ≤ k.ramHajm.toNat) : k.ramOqi p n v =
    .ok (v * BitVec.ofNat 32 (256 ^ n) + BitVec.ofNat 32 (Bytes.read k.ram p n)) := by
  induction n generalizing v with
  | zero => simp [Kompyuter.ramOqi, Bytes.read]
  | succ n ih =>
    rw [Kompyuter.ramOqi, Massiv.oqi_of_lt (by omega)]
    simp only
    rw [ih (by omega), shiftLeft_or_bayt, Bytes.read_succ, pow_succ]
    congr 1
    have hbayt : bayt (k.ram (p + n)) = BitVec.ofNat 32 (k.ram (p + n)).toNat := by
      apply BitVec.eq_of_toNat_eq
      rw [bayt, BitVec.toNat_setWidth, BitVec.toNat_ofNat]
      rfl
    have hbase : BitVec.ofNat 32 256 = (256 : Word) := rfl
    rw [hbayt, BitVec.ofNat_add, BitVec.ofNat_mul, BitVec.ofNat_mul, hbase]
    ring

lemma ramYoz_at {hajm : ℕ} (ram : ℕ → UInt8) (h : p + i + n ≤ hajm) :
    ∃ r, Kompyuter.ramYoz hajm p q n i ram = .ok r ∧
      ∀ y, r y = if p + i ≤ y ∧ y < p + i + n then UInt8.ofNat (q.toNat / 256 ^ (y - p)) else ram y := by
  induction n generalizing i ram with
  | zero => exact ⟨ram, rfl, fun y => (if_neg (by omega)).symm⟩
  | succ n ih =>
    obtain ⟨r, hr, hry⟩ := ih (i := i + 1)
      (update ram (p + i) (UInt8.ofBitVec ((q >>> (8 * i)).setWidth 8))) (by omega)
    refine ⟨r, ?_, fun y => ?_⟩
    · rw [Kompyuter.ramYoz, Massiv.yoz_of_lt (by omega)]
      exact hr
    · rw [hry y]
      by_cases hy : y = p + i
      · subst hy
        rw [if_neg (by omega), if_pos (by omega), update_self, Nat.add_sub_cancel_left]
        apply UInt8.toNat_inj.1
        rw [UInt8.toNat_ofNat', UInt8.toNat_ofBitVec, BitVec.toNat_setWidth,
          BitVec.toNat_ushiftRight, Nat.shiftRight_eq_div_pow, pow_mul]
        norm_num
      · rw [update_of_ne hy]
        exact if_congr (by omega) rfl rfl

lemma ramYoz_eq {hajm : ℕ} {ram : ℕ → UInt8} (h : p + n ≤ hajm) :
    Kompyuter.ramYoz hajm p q n 0 ram = .ok (Bytes.write ram p n q.toNat) := by
  obtain ⟨r, hr, hry⟩ := ramYoz_at (i := 0) (q := q) ram h
  rw [hr]
  exact congrArg _ (funext hry)

end Ram

section Uart

variable {u : Uart} {x : Xost} {vaqt : BitVec 64} {s q : Word}

structure Uart.Chegarada (u : Uart) : Prop where
  bosh : u.bosh ≤ u.oxir
  oxir : u.oxir ≤ kirishHajm

lemma qatorOl_spec (l : List UInt8) (kirish : ℕ → UInt8) {n : ℕ} (h : n ≤ kirishHajm) :
    ∃ r m, Uart.qatorOl l kirish n = .ok (r, m) ∧ m ≤ kirishHajm := by
  induction l generalizing kirish n with
  | nil => exact ⟨kirish, n, rfl, h⟩
  | cons c rest ih =>
    rw [Uart.qatorOl]
    split
    · rename_i hlt
      rw [Massiv.yoz_of_lt hlt]
      simp only
      split
      · exact ⟨_, _, rfl, hlt⟩
      · exact ih _ hlt
    · exact ⟨kirish, n, rfl, h⟩

lemma registrOqi_eq {i : ℕ} (h : i < 8) : u.registrOqi i = .ok (u.registr i) :=
  Massiv.oqi_of_lt h

lemma stdinOqi_chegarada (h : u.Chegarada) : (u.stdinOqi x).Chegarada := by
  rw [Uart.stdinOqi]
  split
  · exact ⟨h.bosh, h.oxir⟩
  · exact ⟨Nat.zero_le _, List.length_take_le _ _⟩

lemma kirishniYangila_spec (x : Xost) (vaqt : BitVec 64) (h : u.Chegarada) :
    ∃ u', u.kirishniYangila x vaqt = .ok u' ∧ u'.Chegarada := by
  rw [Uart.kirishniYangila]
  split
  · exact ⟨u, rfl, h⟩
  split
  · have hzaxira : (if u.zaxira = none ∧ u.stdinTugadi = false then u.zaxiraniToldir x
        else u).Chegarada := by
      split
      · exact ⟨h.bosh, h.oxir⟩
      · exact h
    generalize (if u.zaxira = none ∧ u.stdinTugadi = false then u.zaxiraniToldir x else u) = w
      at hzaxira ⊢
    simp only [registrOqi_eq (show 1 < 8 by decide)]
    split
    · exact ⟨w, rfl, hzaxira⟩
    split
    · exact ⟨w, rfl, hzaxira⟩
    · obtain ⟨r, m, hr, hm⟩ := qatorOl_spec ((w.zaxira.getD []).drop w.zaxiraBosh) w.kirish
        (Nat.zero_le kirishHajm)
      rw [hr]
      exact ⟨_, rfl, Nat.zero_le _, hm⟩
  split
  · exact ⟨u, rfl, h⟩
  split
  · simp only
    have hsanoq : ({ u with sanoq := u.sanoq + 1 } : Uart).Chegarada := ⟨h.bosh, h.oxir⟩
    split
    · exact ⟨_, rfl, hsanoq⟩
    split
    · exact ⟨_, rfl, hsanoq⟩
    · exact ⟨_, rfl, stdinOqi_chegarada hsanoq⟩
  · exact ⟨_, rfl, stdinOqi_chegarada h⟩

lemma and_seven_lt (s : Word) : (s &&& 7).toNat < 8 := by
  rw [BitVec.toNat_and]
  exact Nat.lt_succ_of_le Nat.and_le_right

lemma uartOqi_spec (x : Xost) (vaqt : BitVec 64) (s : Word) (h : u.Chegarada) :
    ∃ u' v, u.uartOqi x vaqt s = .ok (u', v) ∧ u'.Chegarada := by
  obtain ⟨w, hw, hwc⟩ := kirishniYangila_spec x vaqt h
  rw [Uart.uartOqi, hw]
  simp only [registrOqi_eq (show 1 < 8 by decide), registrOqi_eq (and_seven_lt s)]
  split
  · split
    · exact ⟨w, 0, rfl, hwc⟩
    · rename_i hne
      have hlt : w.bosh < w.oxir := lt_of_le_of_ne hwc.bosh hne
      rw [Massiv.oqi_of_lt (hlt.trans_le hwc.oxir)]
      exact ⟨_, _, rfl, hlt, hwc.oxir⟩
  split
  · split
    · exact ⟨w, 4, rfl, hwc⟩
    split
    · exact ⟨_, 2, rfl, hwc.bosh, hwc.oxir⟩
    · exact ⟨w, 1, rfl, hwc⟩
  split
  · exact ⟨w, _, rfl, hwc⟩
  · exact ⟨u, _, rfl, h⟩

lemma uartYoz_spec (vaqt : BitVec 64) (s q : Word) (h : u.Chegarada) :
    ∃ u', u.uartYoz vaqt s q = .ok u' ∧ u'.Chegarada := by
  rw [Uart.uartYoz]
  split
  · exact ⟨_, rfl, h.bosh, h.oxir⟩
  · simp only [registrOqi_eq (show 1 < 8 by decide), Massiv.yoz_of_lt (and_seven_lt s)]
    exact ⟨_, rfl, h.bosh, h.oxir⟩

lemma uartUzilish_spec (x : Xost) (vaqt : BitVec 64) (h : u.Chegarada) :
    ∃ u' d, u.uartUzilish x vaqt = .ok (u', d) ∧ u'.Chegarada := by
  obtain ⟨w, hw, hwc⟩ := kirishniYangila_spec x vaqt h
  rw [Uart.uartUzilish, hw]
  simp only [registrOqi_eq (show 1 < 8 by decide)]
  split
  · exact ⟨u, true, rfl, h⟩
  split
  · exact ⟨u, true, rfl, h⟩
  split
  · exact ⟨w, _, rfl, hwc⟩
  · exact ⟨u, false, rfl, h⟩

end Uart

section Plic

variable {p : Plic} {s q : Word}

lemma plic_index {b : Word} {m n : ℕ} (hb : b ≤ s) (hs : s.toNat < b.toNat + m * n) :
    (s - b).toNat / m < n := by
  have hle : b.toNat ≤ s.toNat := BitVec.le_def.1 hb
  rw [BitVec.toNat_sub_of_le hb]
  exact Nat.div_lt_of_lt_mul (by omega)

lemma plicOqi_spec : ∃ p' v, p.plicOqi s = .ok (p', v) := by
  rw [Plic.plicOqi]
  split
  · rename_i h
    rw [Massiv.oqi_of_lt (Nat.div_lt_of_lt_mul h)]
    exact ⟨p, _, rfl⟩
  split
  · exact ⟨p, _, rfl⟩
  split
  · rename_i h
    rw [Massiv.oqi_of_lt (plic_index h.1 h.2.1)]
    exact ⟨p, _, rfl⟩
  split
  · rename_i h
    simp only
    split
    · rw [Massiv.oqi_of_lt (plic_index h.1 h.2)]
      exact ⟨p, _, rfl⟩
    split
    · exact ⟨_, _, rfl⟩
    · exact ⟨p, _, rfl⟩
  · exact ⟨p, _, rfl⟩

lemma plicYoz_spec : ∃ p', p.plicYoz s q = .ok p' := by
  rw [Plic.plicYoz]
  split
  · rename_i h
    rw [Massiv.yoz_of_lt (Nat.div_lt_of_lt_mul h)]
    exact ⟨_, rfl⟩
  split
  · rename_i h
    rw [Massiv.yoz_of_lt (plic_index h.1 h.2.1)]
    exact ⟨_, rfl⟩
  split
  · rename_i h
    simp only
    split
    · rw [Massiv.yoz_of_lt (plic_index h.1 h.2)]
      exact ⟨_, rfl⟩
    split
    · exact ⟨_, rfl⟩
    · exact ⟨p, rfl⟩
  · exact ⟨p, rfl⟩

end Plic

section Shina

def Hajm (n : ℕ) : Prop := n = 1 ∨ n = 2 ∨ n = 4

instance (n : ℕ) : Decidable (Hajm n) := inferInstanceAs (Decidable (_ ∨ _ ∨ _))

lemma Hajm.le {n : ℕ} (h : Hajm n) : n ≤ 512 := by
  rw [Hajm] at h
  omega

structure Kompyuter.Chegarada (k : Kompyuter) : Prop where
  ram : 2 ^ 20 ≤ k.ramHajm.toNat ∧ k.ramHajm.toNat ≤ 2 ^ 30
  uart : k.uart.Chegarada

variable {k : Kompyuter} {x : Xost} {fiz q d : Word} {n : ℕ}

namespace Kompyuter.Chegarada

lemma bolak (h : k.Chegarada) (hn : n ≤ 512) (hd : d ≤ k.ramHajm - BitVec.ofNat 32 n) :
    d.toNat + n ≤ k.ramHajm.toNat := by
  have hram := h.ram
  have hsize : (BitVec.ofNat 32 n).toNat = n := Nat.mod_eq_of_lt (by omega)
  have hle : BitVec.ofNat 32 n ≤ k.ramHajm := BitVec.le_def.2 (by omega)
  have hdiff := BitVec.le_def.1 hd
  rw [BitVec.toNat_sub_of_le hle, hsize] at hdiff
  omega

lemma ramIchida (h : k.Chegarada) (hn : Hajm n) (hi : k.ramIchida fiz n) :
    (fiz - ramBosh).toNat + n ≤ k.ramHajm.toNat :=
  h.bolak hn.le hi.2

lemma shinaOqi (h : k.Chegarada) (x : Xost) (fiz : Word) (hn : Hajm n) :
    ∃ k' v, k.shinaOqi x fiz n = .ok (k', v) ∧ k'.Chegarada ∧ k'.ram = k.ram := by
  rw [Kompyuter.shinaOqi]
  split
  · rename_i hi
    rw [ramOqi_eq (h.ramIchida hn hi)]
    exact ⟨k, _, rfl, h, rfl⟩
  split
  · obtain ⟨u, v, hu, huc⟩ := uartOqi_spec x k.cpu.instret (fiz - uartManzil) h.uart
    rw [hu]
    exact ⟨_, _, rfl, ⟨h.ram, huc⟩, rfl⟩
  split
  · exact ⟨_, _, rfl, ⟨h.ram, h.uart⟩, rfl⟩
  split
  · exact ⟨k, _, rfl, h, rfl⟩
  split
  · obtain ⟨p, v, hp⟩ := plicOqi_spec (p := k.plic) (s := fiz - plicManzil)
    rw [hp]
    exact ⟨_, _, rfl, ⟨h.ram, h.uart⟩, rfl⟩
  split
  · exact ⟨k, _, rfl, h, rfl⟩
  · exact ⟨k, _, rfl, h, rfl⟩

lemma diskBajar (h : k.Chegarada) : ∃ k', k.diskBajar x q = .ok k' ∧ k'.Chegarada ∧
    (¬ k.diskTekshirildi → k'.ram = k.ram) := by
  rw [Kompyuter.diskBajar]
  simp only
  split
  · exact ⟨_, rfl, ⟨h.ram, h.uart⟩, fun _ => rfl⟩
  rename_i hd
  have hbolak : k.ramBolak (k.disk.manzil - ramBosh).toNat diskSektor = .ok () :=
    if_pos (h.bolak le_rfl (not_not.1 hd).2.2.2)
  split
  · exact ⟨_, rfl, ⟨h.ram, h.uart⟩, fun _ => rfl⟩
  split
  · rw [hbolak]
    simp only
    split
    · exact ⟨_, rfl, ⟨h.ram, h.uart⟩, fun hno => absurd hno hd⟩
    · exact ⟨_, rfl, ⟨h.ram, h.uart⟩, fun hno => absurd hno hd⟩
  split
  · rw [hbolak]
    simp only
    split
    · exact ⟨_, rfl, ⟨h.ram, h.uart⟩, fun _ => rfl⟩
    · exact ⟨_, rfl, ⟨h.ram, h.uart⟩, fun _ => rfl⟩
  · exact ⟨_, rfl, ⟨h.ram, h.uart⟩, fun _ => rfl⟩

lemma diskYoz (h : k.Chegarada) (x : Xost) (fiz q : Word) :
    ∃ k', k.diskYoz x fiz q = .ok k' ∧ k'.Chegarada := by
  rw [Kompyuter.diskYoz]
  split
  · exact ⟨_, rfl, h.ram, h.uart⟩
  split
  · exact ⟨_, rfl, h.ram, h.uart⟩
  split
  · obtain ⟨k', hk, hc, -⟩ := h.diskBajar (x := x) (q := q)
    rw [hk]
    exact ⟨_, rfl, hc.ram, hc.uart⟩
  split
  · exact ⟨_, rfl, h.ram, h.uart⟩
  · exact ⟨k, rfl, h⟩

lemma shinaYoz (h : k.Chegarada) (x : Xost) (fiz q : Word) (hn : Hajm n) :
    ∃ k' bor, k.shinaYoz x fiz n q = .ok (k', bor) ∧ k'.Chegarada := by
  rw [Kompyuter.shinaYoz]
  split
  · rename_i hi
    rw [ramYoz_eq (h.ramIchida hn hi)]
    exact ⟨_, _, rfl, h.ram, h.uart⟩
  split
  · obtain ⟨u, hu, huc⟩ := uartYoz_spec k.cpu.instret (fiz - uartManzil) q h.uart
    rw [hu]
    exact ⟨_, _, rfl, h.ram, huc⟩
  split
  · obtain ⟨k', hk, hc⟩ := h.diskYoz x (fiz - diskManzil) q
    rw [hk]
    exact ⟨_, _, rfl, hc⟩
  split
  · exact ⟨_, _, rfl, h.ram, h.uart⟩
  split
  · obtain ⟨p, hp⟩ := plicYoz_spec (p := k.plic) (s := fiz - plicManzil) (q := q)
    rw [hp]
    exact ⟨_, _, rfl, h.ram, h.uart⟩
  split
  · split
    · exact ⟨_, _, rfl, h.ram, h.uart⟩
    split
    · exact ⟨_, _, rfl, h.ram, h.uart⟩
    · exact ⟨k, _, rfl, h⟩
  · exact ⟨k, _, rfl, h⟩

lemma qurilmalarYangila (h : k.Chegarada) : ∃ k', k.qurilmalarYangila x = .ok k' ∧ k'.Chegarada := by
  obtain ⟨u, d, hu, huc⟩ := uartUzilish_spec x k.cpu.instret h.uart
  rw [Kompyuter.qurilmalarYangila, hu]
  exact ⟨_, rfl, h.ram, huc⟩

lemma yozOqi (h : k.Chegarada) (hn : Hajm n) (hi : k.ramIchida fiz n) (y : Xost) :
    ∃ k', k.shinaYoz x fiz n q = .ok (k', true) ∧
      k'.shinaOqi y fiz n = .ok (k', some (BitVec.ofNat 32 (q.toNat % 2 ^ (8 * n)))) ∧
      k'.ram = Bytes.write k.ram (fiz - ramBosh).toNat n q.toNat := by
  have hfits := h.ramIchida hn hi
  refine ⟨{ k with ram := Bytes.write k.ram (fiz - ramBosh).toNat n q.toNat }, ?_, ?_, rfl⟩
  · rw [Kompyuter.shinaYoz, if_pos hi, ramYoz_eq hfits]
  · have hread := Bytes.read_write_suffix (m := k.ram) (a := (fiz - ramBosh).toNat) (v := q.toNat) n
      (Nat.zero_add n)
    rw [Nat.add_zero, pow_zero, Nat.div_one] at hread
    generalize hk : ({ k with ram := Bytes.write k.ram (fiz - ramBosh).toNat n q.toNat } : Kompyuter)
      = k'
    have hram : k'.ram = Bytes.write k.ram (fiz - ramBosh).toNat n q.toNat := hk ▸ rfl
    have hhajm : k'.ramHajm = k.ramHajm := hk ▸ rfl
    have hi' : k'.ramIchida fiz n := by
      rw [Kompyuter.ramIchida, hhajm]
      exact hi
    rw [Kompyuter.shinaOqi, if_pos hi', ramOqi_eq (hhajm ▸ hfits), hram, hread, pow_mul]
    simp

end Kompyuter.Chegarada

end Shina

section Runs

inductive Murojaat
  | oqi (x : Xost) (fiz : Word) (hajm : ℕ)
  | yoz (x : Xost) (fiz : Word) (hajm : ℕ) (qiymat : Word)
  | yangila (x : Xost)
  | boshqa

/-- `boshqa` is what happens between the accesses: it may change the processor and the memory as it
likes. -/
inductive ShinaQadam : Kompyuter → Murojaat → Kompyuter → Prop
  | oqi {k x fiz hajm k' v} (hn : Hajm hajm) (h : k.shinaOqi x fiz hajm = .ok (k', v)) :
      ShinaQadam k (.oqi x fiz hajm) k'
  | yoz {k x fiz hajm q k' bor} (hn : Hajm hajm) (h : k.shinaYoz x fiz hajm q = .ok (k', bor)) :
      ShinaQadam k (.yoz x fiz hajm q) k'
  | yangila {k x k'} (h : k.qurilmalarYangila x = .ok k') : ShinaQadam k (.yangila x) k'
  | boshqa {k k' : Kompyuter} (hr : k'.ramHajm = k.ramHajm) (hu : k'.uart = k.uart) :
      ShinaQadam k .boshqa k'

/-- The machines that `main` sets up: `ram_mb` is from 1 to 1024, and no input is there yet. -/
def shinalar : System Kompyuter Murojaat where
  init k := (∃ mb, 1 ≤ mb ∧ mb ≤ 1024 ∧ k.ramHajm = BitVec.ofNat 32 (mb * 2 ^ 20)) ∧
    k.uart.bosh = 0 ∧ k.uart.oxir = 0
  step := ShinaQadam

structure Qamalgan (k : Kompyuter) : Prop where
  oqish : ∀ x fiz hajm, Hajm hajm → ∃ k' v, k.shinaOqi x fiz hajm = .ok (k', v)
  yozish : ∀ x fiz hajm q, Hajm hajm → ∃ k' bor, k.shinaYoz x fiz hajm q = .ok (k', bor)
  buyruq : ∀ x q, ∃ k', k.diskBajar x q = .ok k' ∧ (¬ k.diskTekshirildi → k'.ram = k.ram)
  xotira : ∀ x y fiz hajm q, Hajm hajm → k.ramIchida fiz hajm →
    ∃ k', k.shinaYoz x fiz hajm q = .ok (k', true) ∧
      k'.shinaOqi y fiz hajm = .ok (k', some (BitVec.ofNat 32 (q.toNat % 2 ^ (8 * hajm)))) ∧
      (∀ i < hajm, k'.ram ((fiz - ramBosh).toNat + i) = UInt8.ofNat (q.toNat / 256 ^ i)) ∧
      ∀ j, ¬ ((fiz - ramBosh).toNat ≤ j ∧ j < (fiz - ramBosh).toNat + hajm) → k'.ram j = k.ram j

variable {k t : Kompyuter} {a : Murojaat}

lemma Kompyuter.Chegarada.init (h : shinalar.init k) : k.Chegarada := by
  obtain ⟨⟨mb, hlow, hhigh, hram⟩, hbosh, hoxir⟩ := h
  have hsize : k.ramHajm.toNat = mb * 2 ^ 20 := by
    rw [hram, BitVec.toNat_ofNat]
    exact Nat.mod_eq_of_lt (by omega)
  refine ⟨by omega, ?_, ?_⟩
  · rw [hbosh]
    exact Nat.zero_le _
  · rw [hoxir]
    exact Nat.zero_le _

lemma Kompyuter.Chegarada.step (h : k.Chegarada) (hs : ShinaQadam k a t) : t.Chegarada := by
  cases hs with
  | @oqi x fiz hajm _ v hn hr =>
    obtain ⟨k', v', hk, hc, -⟩ := h.shinaOqi x fiz hn
    cases hr.symm.trans hk
    exact hc
  | @yoz x fiz hajm q _ bor hn hr =>
    obtain ⟨k', bor', hk, hc⟩ := h.shinaYoz x fiz q hn
    cases hr.symm.trans hk
    exact hc
  | @yangila x _ hr =>
    obtain ⟨k', hk, hc⟩ := h.qurilmalarYangila (x := x)
    cases hr.symm.trans hk
    exact hc
  | boshqa hr hu => exact ⟨hr ▸ h.ram, hu ▸ h.uart⟩

lemma Kompyuter.Chegarada.qamalgan (h : k.Chegarada) : Qamalgan k where
  oqish x fiz hajm hn := by
    obtain ⟨k', v, hk, -⟩ := h.shinaOqi x fiz hn
    exact ⟨k', v, hk⟩
  yozish x fiz hajm q hn := by
    obtain ⟨k', bor, hk, -⟩ := h.shinaYoz x fiz q hn
    exact ⟨k', bor, hk⟩
  buyruq x q := by
    obtain ⟨k', hk, -, hram⟩ := h.diskBajar (x := x) (q := q)
    exact ⟨k', hk, hram⟩
  xotira x y fiz hajm q hn hi := by
    obtain ⟨k', hyoz, hoqi, hram⟩ := h.yozOqi (x := x) (q := q) hn hi y
    refine ⟨k', hyoz, hoqi, fun i hlt => ?_, fun j hj => ?_⟩
    · rw [hram, Bytes.write, if_pos (by omega), Nat.add_sub_cancel_left]
    · rw [hram, Bytes.write_of_not_mem hj]

theorem reachable_qamalgan (h : shinalar.Reachable k) : Qamalgan k :=
  (h.invariant (I := Kompyuter.Chegarada) (fun _ => .init) fun _ _ _ hc hs => hc.step hs).qamalgan

def murojaat (k : Kompyuter) : Murojaat → Except Massiv Kompyuter
  | .oqi x fiz hajm => (k.shinaOqi x fiz hajm).map Prod.fst
  | .yoz x fiz hajm qiymat => (k.shinaYoz x fiz hajm qiymat).map Prod.fst
  | .yangila x => k.qurilmalarYangila x
  | .boshqa => .ok k

def Murojaat.hajm : Murojaat → ℕ
  | .oqi _ _ hajm => hajm
  | .yoz _ _ hajm _ => hajm
  | _ => 4

lemma murojaat_step (hn : Hajm a.hajm) (h : murojaat k a = .ok t) : ShinaQadam k a t := by
  cases a with
  | oqi x fiz hajm =>
    rw [murojaat] at h
    cases ho : k.shinaOqi x fiz hajm with
    | error e =>
      rw [ho] at h
      exact nomatch h
    | ok o =>
      rw [ho] at h
      obtain rfl : o.1 = t := Except.ok.inj h
      exact .oqi hn ho
  | yoz x fiz hajm q =>
    rw [murojaat] at h
    cases ho : k.shinaYoz x fiz hajm q with
    | error e =>
      rw [ho] at h
      exact nomatch h
    | ok o =>
      rw [ho] at h
      obtain rfl : o.1 = t := Except.ok.inj h
      exact .yoz hn ho
  | yangila x => exact .yangila h
  | boshqa =>
    obtain rfl : k = t := Except.ok.inj h
    exact .boshqa rfl rfl

lemma murojaatlar_reachable {as : List Murojaat} (hk : shinalar.Reachable k) (hn : ∀ a ∈ as, Hajm a.hajm)
    (h : as.foldlM murojaat k = .ok t) : shinalar.Reachable t := by
  induction as generalizing k with
  | nil =>
    obtain rfl : k = t := Except.ok.inj h
    exact hk
  | cons a as ih =>
    rw [List.foldlM_cons] at h
    cases ha : murojaat k a with
    | error e =>
      rw [ha] at h
      exact nomatch h
    | ok k' =>
      rw [ha] at h
      exact ih (.step a hk (murojaat_step (hn a List.mem_cons_self) ha)) (fun b hb => hn b (List.mem_cons_of_mem _ hb)) h

def oddiyKompyuter : Kompyuter where
  cpu := {}
  ramHajm := 0x4000000
  disk := { fayl := true, sektorlar := 8 }

/-- Sector 1 is read to `0x80000200`, a word is stored, and a byte of the input taken; then a sector is asked for
that would lie below the RAM. -/
def oddiyMurojaatlar : List Murojaat :=
  [.yoz {} 0x10001004 4 0x80000200, .yoz {} 0x10001000 4 1, .yoz { fread := List.replicate 512 7 } 0x10001008 4 1,
    .yoz {} 0x80000000 4 0x12345678, .yoz {} 0x10000001 1 1, .yangila { stdin := [104] }, .oqi {} 0x10000000 1,
    .yoz {} 0x10001004 4 0x10, .yoz { fread := List.replicate 512 7 } 0x10001008 4 1]

theorem reachable_qamalgan_oddiy : ∃ k, oddiyMurojaatlar.foldlM murojaat oddiyKompyuter = .ok k ∧
    k.ram 0x200 = 7 ∧ k.ram 0 = 0x78 ∧ k.uart.bosh = 1 ∧ k.plic.kutmoqda = 0x400 ∧ k.disk.holat = 1 ∧ Qamalgan k := by
  have hrun : (oddiyMurojaatlar.foldlM murojaat oddiyKompyuter).map
      (fun k => (k.ram 0x200, k.ram 0, k.uart.bosh, k.plic.kutmoqda, k.disk.holat)) = .ok (7, 0x78, 1, 0x400, 1) := by
    decide +kernel
  cases hk : oddiyMurojaatlar.foldlM murojaat oddiyKompyuter with
  | error e =>
    rw [hk] at hrun
    exact nomatch hrun
  | ok k =>
    rw [hk] at hrun
    obtain ⟨hread, hstored, hbosh, hplic, hholat⟩ : _ ∧ _ ∧ _ ∧ _ ∧ _ := by
      simpa only [Except.map, Except.ok.injEq, Prod.mk.injEq] using hrun
    have hreach : shinalar.Reachable k :=
      murojaatlar_reachable (.init ⟨⟨64, by decide, by decide, rfl⟩, rfl, rfl⟩) (by decide) hk
    exact ⟨k, rfl, hread, hstored, hbosh, hplic, hholat, reachable_qamalgan hreach⟩

end Runs

end MyOS.Emulator
