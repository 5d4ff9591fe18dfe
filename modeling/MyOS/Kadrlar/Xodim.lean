import MyOS.Library.Arithmetic

/-! The employees of the payroll program and their pay, in tiyin. -/

namespace MyOS.Kadrlar

open Library Arith

abbrev ismUz : ℕ := 24
def kasabaFoiz : Int64 := 1
def sinovFoiz : Int64 := 80
def masofaviyTiyin : Int64 := 5000000
def tarifMaks : Int64 := 100000000000
def oyMaksDaq : Int32 := 31 * 24 * 60
def soliqChegara1 : Int64 := 300000000
def soliqChegara2 : Int64 := 800000000
def soliqFoiz1 : Int64 := 12
def soliqFoiz2 : Int64 := 15
def soliqFoiz3 : Int64 := 20

def harflar : List UInt8 := ['T', 'M', 'R', 'S', 'K'].map fun c => UInt8.ofNat c.toNat

def fMasofaviy : UInt8 := 1 <<< (1 : UInt8)
def fSinov : UInt8 := 1 <<< (3 : UInt8)
def fHammasi : UInt8 := (List.range harflar.length).foldl (fun b i => b ||| 1 <<< UInt8.ofNat i) 0

def bayroqBor (b m : UInt8) : Prop := b &&& m ≠ 0

instance (b m : UInt8) : Decidable (bayroqBor b m) := inferInstanceAs (Decidable (_ ≠ _))

def bonuslar : List Int64 := [0, 5, 10, 20]

def tSoni : ℕ := bonuslar.length

def toifaBonusi (t : UInt32) : Int64 := if t.toNat < tSoni then bonuslar.getD t.toNat 0 else 0

@[ext]
structure Xodim where
  id : Int32
  ism : Vector UInt8 ismUz
  toifa : UInt32
  bayroq : UInt8
  tarif : Int64
  oddiyDaq : Int32
  qoshDaq : Int32
  deriving DecidableEq

@[ext]
structure Natija where
  asosiy : Int64 := 0
  ustama : Int64 := 0
  bonus : Int64 := 0
  brutto : Int64 := 0
  soliq : Int64 := 0
  kasaba : Int64 := 0
  sof : Int64 := 0
  deriving DecidableEq

def foiz (summa p : Int64) : Arith Int64 := do
  let k ← mul summa p
  let k ← add k 50
  div k 100

def pulVaqtHaqi (tarif : Int64) (daqiqa : Int32) : Arith Int64 := do
  let k ← mul tarif daqiqa.toInt64
  let k ← add k 30
  div k 60

def engKichik (a b : Int64) : Int64 := if a < b then a else b

def soliqHisobla (brutto : Int64) : Arith Int64 :=
  if brutto ≤ 0 then pure 0
  else do
    let q₁ := engKichik brutto soliqChegara1
    let q₂ ← (if soliqChegara1 < brutto then sub (engKichik brutto soliqChegara2) soliqChegara1
      else pure 0 : Arith Int64)
    let q₃ ← (if soliqChegara2 < brutto then sub brutto soliqChegara2 else pure 0 : Arith Int64)
    let f₁ ← foiz q₁ soliqFoiz1
    let f₂ ← foiz q₂ soliqFoiz2
    let f₃ ← foiz q₃ soliqFoiz3
    let f ← add f₁ f₂
    add f f₃

def xodimHisobla (x : Xodim) : Arith Natija := do
  let haq ← pulVaqtHaqi x.tarif x.oddiyDaq
  let asosiy ← (if bayroqBor x.bayroq fSinov then foiz haq sinovFoiz else pure haq : Arith Int64)
  let qosh ← pulVaqtHaqi x.tarif x.qoshDaq
  let uch ← mul qosh 3
  let ustama ← div uch 2
  let toifa ← foiz asosiy (toifaBonusi x.toifa)
  let bonus ← (if bayroqBor x.bayroq fMasofaviy then add toifa masofaviyTiyin else pure toifa : Arith Int64)
  let haqlar ← add asosiy ustama
  let brutto ← add haqlar bonus
  let soliq ← soliqHisobla brutto
  let kasaba ← foiz brutto kasabaFoiz
  let qoldiq ← sub brutto soliq
  let sof ← sub qoldiq kasaba
  pure { asosiy, ustama, bonus, brutto, soliq, kasaba, sof }

namespace Xodim

structure Chegarada (x : Xodim) : Prop where
  id : 1000 ≤ x.id.toInt ∧ x.id.toInt ≤ 9999
  toifa : x.toifa.toNat < tSoni
  bayroq : ¬ bayroqBor x.bayroq (~~~ fHammasi)
  ism : x.ism[ismUz - 1] = 0
  tarif : 1 ≤ x.tarif.toInt ∧ x.tarif.toInt ≤ tarifMaks.toInt
  oddiyDaq : 0 ≤ x.oddiyDaq.toInt
  qoshDaq : 0 ≤ x.qoshDaq.toInt
  daq : x.oddiyDaq.toInt + x.qoshDaq.toInt ≤ oyMaksDaq.toInt

end Xodim

section Pay

variable {s p tarif brutto : Int64} {daqiqa : Int32}

lemma foiz_safe (hs : 0 ≤ s.toInt ∧ s.toInt ≤ 10 ^ 16) (hp : 0 ≤ p.toInt ∧ p.toInt ≤ 100) :
    (foiz s p).Safe fun c => c.toInt = (s.toInt * p.toInt + 50) / 100 := by
  have hlo : 0 ≤ s.toInt * p.toInt := Int.mul_nonneg hs.1 hp.1
  have hhi : s.toInt * p.toInt ≤ 10 ^ 16 * 100 := Int.mul_le_mul hs.2 hp.2 hp.1 (by norm_num)
  have h50 : (50 : Int64).toInt = 50 := rfl
  have h100 : (100 : Int64).toInt = 100 := rfl
  refine .bind (safe_mul ⟨by omega, by omega⟩) fun k hk => ?_
  refine .bind (safe_add ⟨by omega, by omega⟩) fun l hl => ?_
  refine (safe_div (by omega) (by omega)).mono fun c hc => ?_
  rw [hc, hl, hk, h50, h100]

lemma pulVaqtHaqi_safe (ht : 0 ≤ tarif.toInt ∧ tarif.toInt ≤ tarifMaks.toInt)
    (hd : 0 ≤ daqiqa.toInt ∧ daqiqa.toInt ≤ oyMaksDaq.toInt) :
    (pulVaqtHaqi tarif daqiqa).Safe fun c => 0 ≤ c.toInt ∧ c.toInt ≤ 74400000000000 := by
  have hlo : 0 ≤ tarif.toInt * daqiqa.toInt := Int.mul_nonneg ht.1 hd.1
  have hhi : tarif.toInt * daqiqa.toInt ≤ tarifMaks.toInt * oyMaksDaq.toInt :=
    Int.mul_le_mul ht.2 hd.2 hd.1 (by decide)
  have hmaks : tarifMaks.toInt * oyMaksDaq.toInt = 4464000000000000 := by decide
  have h30 : (30 : Int64).toInt = 30 := rfl
  have h60 : (60 : Int64).toInt = 60 := rfl
  have hdaq : daqiqa.toInt64.toInt = daqiqa.toInt := Int32.toInt_toInt64 daqiqa
  refine .bind (safe_mul ⟨by rw [hdaq]; omega, by rw [hdaq]; omega⟩) fun k hk => ?_
  rw [hdaq] at hk
  refine .bind (safe_add ⟨by omega, by omega⟩) fun l hl => ?_
  refine (safe_div (by omega) (by omega)).mono fun c hc => ?_
  rw [h60] at hc
  omega

lemma engKichik_toInt (a b : Int64) : (engKichik a b).toInt = min a.toInt b.toInt := by
  rw [engKichik]
  split_ifs with h
  · have := Int64.lt_iff_toInt_lt.1 h
    omega
  · have := mt Int64.lt_iff_toInt_lt.2 h
    omega

lemma safe_sub_ite {a b c : Int64} (hc : 0 ≤ c.toInt) (ha : 0 ≤ a.toInt) (hcb : c < b → c.toInt ≤ a.toInt) :
    (if c < b then sub a c else pure 0).Safe fun q =>
      q.toInt = if c.toInt < b.toInt then a.toInt - c.toInt else 0 := by
  have := a.toInt_lt
  apply safe_ite
  · intro h
    have := hcb h
    refine (safe_sub ⟨by omega, by omega⟩).mono fun q hq => ?_
    rw [hq, if_pos (Int64.lt_iff_toInt_lt.1 h)]
  · intro h
    apply safe_pure
    rw [if_neg (mt Int64.lt_iff_toInt_lt.2 h)]
    rfl

lemma qismlar_yigindi {b q₁ q₂ q₃ : ℤ} (hb : 0 ≤ b) (h₁ : q₁ = min b 300000000)
    (h₂ : q₂ = if 300000000 < b then min b 800000000 - 300000000 else 0)
    (h₃ : q₃ = if 800000000 < b then b - 800000000 else 0) :
    0 ≤ q₁ ∧ 0 ≤ q₂ ∧ 0 ≤ q₃ ∧ q₁ + q₂ + q₃ = b ∧ (b ≤ 300000000 → q₁ = b) := by
  omega

lemma soliqHisobla_safe (hb : 0 ≤ brutto.toInt ∧ brutto.toInt ≤ 10 ^ 16) :
    (soliqHisobla brutto).Safe fun c => 0 ≤ c.toInt ∧
      (brutto.toInt ≤ soliqChegara1.toInt → c.toInt ≤ (12 * brutto.toInt + 50) / 100) ∧
      c.toInt ≤ (20 * brutto.toInt + 150) / 100 := by
  have h0 : (0 : Int64).toInt = 0 := rfl
  have hc₁ : soliqChegara1.toInt = 300000000 := rfl
  have hc₂ : soliqChegara2.toInt = 800000000 := rfl
  have hf₁ : soliqFoiz1.toInt = 12 := rfl
  have hf₂ : soliqFoiz2.toInt = 15 := rfl
  have hf₃ : soliqFoiz3.toInt = 20 := rfl
  have hq₁ := engKichik_toInt brutto soliqChegara1
  have hm₂ := engKichik_toInt brutto soliqChegara2
  rw [soliqHisobla]
  dsimp only
  apply safe_ite
  · intro h
    have := Int64.le_iff_toInt_le.1 h
    exact safe_pure ⟨by omega, by omega, by omega⟩
  intro _
  refine .bind (safe_sub_ite (by omega) (by omega) fun h => ?_) fun q₂ hq₂ => ?_
  · have := Int64.lt_iff_toInt_lt.1 h
    omega
  refine .bind (safe_sub_ite (by omega) (by omega) fun h => ?_) fun q₃ hq₃ => ?_
  · exact (Int64.lt_iff_toInt_lt.1 h).le
  rw [hm₂, hc₁, hc₂] at hq₂
  rw [hc₂] at hq₃
  rw [hc₁] at hq₁
  have hqism := qismlar_yigindi hb.1 hq₁ hq₂ hq₃
  clear hm₂ hq₁ hq₂ hq₃
  refine .bind (foiz_safe (by omega) (by omega)) fun f₁ h₁ => ?_
  refine .bind (foiz_safe (by omega) (by omega)) fun f₂ h₂ => ?_
  refine .bind (foiz_safe (by omega) (by omega)) fun f₃ h₃ => ?_
  rw [hf₁] at h₁
  rw [hf₂] at h₂
  rw [hf₃] at h₃
  refine .bind (safe_add ⟨by omega, by omega⟩) fun f hf => ?_
  refine (safe_add ⟨by omega, by omega⟩).mono fun c hc => ?_
  exact ⟨by omega, by omega, by omega⟩

end Pay

lemma toifaBonusi_le (t : UInt32) : 0 ≤ (toifaBonusi t).toInt ∧ (toifaBonusi t).toInt ≤ 20 := by
  have hall : ∀ n < tSoni, 0 ≤ (bonuslar.getD n 0).toInt ∧ (bonuslar.getD n 0).toInt ≤ 20 := by decide
  rw [toifaBonusi]
  split_ifs with h
  · exact hall _ h
  · exact ⟨by decide, by decide⟩

theorem xodimHisobla_safe {x : Xodim} (h : x.Chegarada) :
    (xodimHisobla x).Safe fun n => 0 ≤ n.sof.toInt ∧ n.sof.toInt ≤ n.brutto.toInt := by
  have ht : 0 ≤ x.tarif.toInt ∧ x.tarif.toInt ≤ tarifMaks.toInt := ⟨by have := h.tarif; omega, h.tarif.2⟩
  have hod := h.oddiyDaq
  have hqd := h.qoshDaq
  have hdaq := h.daq
  have h2 : (2 : Int64).toInt = 2 := rfl
  have h3 : (3 : Int64).toInt = 3 := rfl
  have hsinov : sinovFoiz.toInt = 80 := rfl
  have hkasaba : kasabaFoiz.toInt = 1 := rfl
  have hmasofa : masofaviyTiyin.toInt = 5000000 := rfl
  have hbonus := toifaBonusi_le x.toifa
  refine .bind (pulVaqtHaqi_safe ht (by omega)) fun haq hhaq => ?_
  have hasosiy : (if bayroqBor x.bayroq fSinov then foiz haq sinovFoiz else pure haq).Safe
      fun a => 0 ≤ a.toInt ∧ a.toInt ≤ 74400000000000 := by
    apply safe_ite
    · intro _
      refine (foiz_safe (by omega) (by omega)).mono fun a ha => ?_
      rw [hsinov] at ha
      omega
    · exact fun _ => safe_pure hhaq
  refine .bind hasosiy fun asosiy hasosiy => ?_
  refine .bind (pulVaqtHaqi_safe ht (by omega)) fun qosh hqosh => ?_
  refine .bind (safe_mul ⟨by rw [h3]; omega, by rw [h3]; omega⟩) fun uch huch => ?_
  rw [h3] at huch
  refine .bind (safe_div (by omega) (by omega)) fun ustama hustama => ?_
  rw [h2] at hustama
  replace hustama : 0 ≤ ustama.toInt ∧ ustama.toInt ≤ 111600000000000 := by omega
  have htoifa : (foiz asosiy (toifaBonusi x.toifa)).Safe fun c => 0 ≤ c.toInt ∧ c.toInt ≤ 10 ^ 15 := by
    refine (foiz_safe (by omega) (by omega)).mono fun c hc => ?_
    have hlo : 0 ≤ asosiy.toInt * (toifaBonusi x.toifa).toInt := Int.mul_nonneg hasosiy.1 hbonus.1
    have hhi : asosiy.toInt * (toifaBonusi x.toifa).toInt ≤ 74400000000000 * 20 :=
      Int.mul_le_mul hasosiy.2 hbonus.2 hbonus.1 (by norm_num)
    omega
  refine .bind htoifa fun toifa htoifa => ?_
  have hmasofaviy : (if bayroqBor x.bayroq fMasofaviy then add toifa masofaviyTiyin else pure toifa).Safe
      fun b => 0 ≤ b.toInt ∧ b.toInt ≤ 2 * 10 ^ 15 := by
    apply safe_ite
    · exact fun _ => (safe_add ⟨by omega, by omega⟩).mono fun b hb => by omega
    · exact fun _ => safe_pure (by omega)
  refine .bind hmasofaviy fun bonus hb => ?_
  refine .bind (safe_add ⟨by omega, by omega⟩) fun haqlar hhaqlar => ?_
  refine .bind (safe_add ⟨by omega, by omega⟩) fun brutto hbrutto => ?_
  replace hbrutto : 0 ≤ brutto.toInt ∧ brutto.toInt ≤ 10 ^ 16 := by omega
  clear hhaqlar hb hasosiy hustama huch hqosh hhaq hbonus hod hqd hdaq ht
  refine .bind (soliqHisobla_safe hbrutto) fun soliq hsoliq => ?_
  refine .bind (foiz_safe (by omega) (by omega)) fun kasaba hk => ?_
  rw [hkasaba] at hk
  refine .bind (safe_sub ⟨by omega, by omega⟩) fun qoldiq hqoldiq => ?_
  refine .bind (safe_sub ⟨by omega, by omega⟩) fun sof hsof => ?_
  apply safe_pure
  have hc₁ : soliqChegara1.toInt = 300000000 := rfl
  refine ⟨?_, ?_⟩ <;> dsimp only <;> omega

end MyOS.Kadrlar
