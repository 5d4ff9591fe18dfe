import MyOS.Kadrlar.Xodim
import MyOS.Library.Sums
import MyOS.Library.System

/-! The totals of the payroll, by one thread and by several at once. -/

namespace MyOS.Kadrlar

open Library Function

inductive Maydon
  | asosiy
  | ustama
  | bonus
  | brutto
  | soliq
  | kasaba
  | sof
  deriving DecidableEq

def Maydon.hammasi : List Maydon := [.asosiy, .ustama, .bonus, .brutto, .soliq, .kasaba, .sof]

namespace Natija

def ol (a : Natija) : Maydon → Int64
  | .asosiy => a.asosiy
  | .ustama => a.ustama
  | .bonus => a.bonus
  | .brutto => a.brutto
  | .soliq => a.soliq
  | .kasaba => a.kasaba
  | .sof => a.sof

def yoz (a : Natija) (v : Int64) : Maydon → Natija
  | .asosiy => { a with asosiy := v }
  | .ustama => { a with ustama := v }
  | .bonus => { a with bonus := v }
  | .brutto => { a with brutto := v }
  | .soliq => { a with soliq := v }
  | .kasaba => { a with kasaba := v }
  | .sof => { a with sof := v }

def qoshMaydon (b a : Natija) (m : Maydon) : Natija := a.yoz (a.ol m + b.ol m) m

def qosh (a b : Natija) : Natija where
  asosiy := a.asosiy + b.asosiy
  ustama := a.ustama + b.ustama
  bonus := a.bonus + b.bonus
  brutto := a.brutto + b.brutto
  soliq := a.soliq + b.soliq
  kasaba := a.kasaba + b.kasaba
  sof := a.sof + b.sof

lemma foldl_qoshMaydon (a b : Natija) : Maydon.hammasi.foldl b.qoshMaydon a = a.qosh b := rfl

instance : Zero Natija := ⟨{}⟩

instance : Add Natija := ⟨qosh⟩

instance : AddCommMonoid Natija where
  add_assoc a b c := by
    apply Natija.ext <;> exact Int64.add_assoc _ _ _
  zero_add a := by
    apply Natija.ext <;> exact Int64.zero_add _
  add_zero a := by
    apply Natija.ext <;> exact Int64.add_zero _
  add_comm a b := by
    apply Natija.ext <;> exact Int64.add_comm _ _
  nsmul := nsmulRec

end Natija

def natijasi (x : Xodim) : Natija := (xodimHisobla x).1

def jamiKetmaKet (a : ℕ → Xodim) (n : ℕ) : Natija :=
  (List.range n).foldl (fun jami i => jami.qosh (natijasi (a i))) {}

lemma jamiKetmaKet_eq (a : ℕ → Xodim) (n : ℕ) : jamiKetmaKet a n = ∑ i ∈ Finset.Ico 0 n, natijasi (a i) := by
  induction n with
  | zero => rfl
  | succ n ih =>
    rw [jamiKetmaKet] at ih ⊢
    rw [List.range_succ, List.foldl_append, ih, Finset.sum_Ico_succ_top (Nat.zero_le n)]
    rfl

def maksOqim : ℤ := 16

/-- `n * t / T` on `size_t`: where the range of the thread `t` begins and that of the one before ends. -/
def chegara (n T t : ℕ) : ℕ := n * t % 2 ^ 64 / T

/-- Where a thread stands in `oqim_ishi`; `qosh` has the members that are still to be added, `yozish`
the sum read from one of them. -/
inductive Oqim
  | yoq
  | tekshir (i : ℕ)
  | qosh (i : ℕ) (r : Natija) (qolgan : List Maydon)
  | yozish (i : ℕ) (r : Natija) (m : Maydon) (v : Int64) (qolgan : List Maydon)
  | tugadi
  deriving DecidableEq

inductive Yurgiz
  | yarat (t : ℕ)
  | kut (t : ℕ) (xato : Bool)
  | jamla (t : ℕ)
  | qaytdi (r : ℤ)
  deriving DecidableEq

structure Holat where
  pc : Yurgiz
  ishga : ℕ := 0
  jami : Natija
  bolak : ℕ → Natija := fun _ => {}
  oqim : ℕ → Oqim := fun _ => .yoq

inductive Qadam
  | asosiy (yaratildi : Bool)
  | oqim (t : ℕ)

structure Chaqiruv where
  a : ℕ → Xodim
  n : ℕ
  T : ℤ
  bolishilgan : Bool
  qulf : Bool

namespace Chaqiruv

variable (c : Chaqiruv)

def bosh (t : ℕ) : ℕ := chegara c.n c.T.toNat t

def oqimIshi (oxir : ℕ) : Oqim → Natija → Option (Oqim × Natija)
  | .yoq, _ | .tugadi, _ => none
  | .tekshir i, jami =>
    if i < oxir then some (.qosh i (natijasi (c.a i)) Maydon.hammasi, jami) else some (.tugadi, jami)
  | .qosh i r qolgan, jami =>
    if c.qulf then some (.tekshir (i + 1), qolgan.foldl r.qoshMaydon jami)
    else match qolgan with
      | [] => some (.tekshir (i + 1), jami)
      | m :: qolgan => some (.yozish i r m (jami.ol m + r.ol m) qolgan, jami)
  | .yozish i r m v qolgan, jami => some (.qosh i r qolgan, jami.yoz v m)

def boshlanish (jami : Natija) : Holat :=
  if c.T < 1 ∨ maksOqim < c.T then { pc := .qaytdi (-1), jami } else { pc := .yarat 0, jami := {} }

def yurgizQadam (s : Holat) (yaratildi : Bool) : Option Holat :=
  match s.pc with
  | .yarat t =>
    if (t : ℤ) < c.T then
      if yaratildi then
        some { s with pc := .yarat (t + 1), ishga := s.ishga + 1
                      oqim := update s.oqim t (.tekshir (c.bosh t)) }
      else some { s with pc := .kut 0 true }
    else some { s with pc := .kut 0 false }
  | .kut t xato =>
    if t < s.ishga then
      if s.oqim t = .tugadi then some { s with pc := .kut (t + 1) xato } else none
    else if xato then some { s with pc := .qaytdi (-1) }
    else if c.bolishilgan then some { s with pc := .qaytdi 0 }
    else some { s with pc := .jamla 0 }
  | .jamla t =>
    if (t : ℤ) < c.T then some { s with pc := .jamla (t + 1), jami := s.jami.qosh (s.bolak t) }
    else some { s with pc := .qaytdi 0 }
  | .qaytdi _ => none

def oqimQadam (s : Holat) (t : ℕ) : Option Holat :=
  if c.bolishilgan then
    (c.oqimIshi (c.bosh (t + 1)) (s.oqim t) s.jami).map fun p =>
      { s with oqim := update s.oqim t p.1, jami := p.2 }
  else
    (c.oqimIshi (c.bosh (t + 1)) (s.oqim t) (s.bolak t)).map fun p =>
      { s with oqim := update s.oqim t p.1, bolak := update s.bolak t p.2 }

def qadam (s : Holat) : Qadam → Option Holat
  | .asosiy yaratildi => c.yurgizQadam s yaratildi
  | .oqim t => c.oqimQadam s t

def yurgiz : System Holat Qadam where
  init s := ∃ jami, s = c.boshlanish jami
  step s q s' := c.qadam s q = some s'

end Chaqiruv

def jamiParallel (a : ℕ → Xodim) (n : ℕ) (T : ℤ) : System Holat Qadam :=
  Chaqiruv.yurgiz { a, n, T, bolishilgan := false, qulf := false }

def jamiQulf (a : ℕ → Xodim) (n : ℕ) (T : ℤ) : System Holat Qadam :=
  Chaqiruv.yurgiz { a, n, T, bolishilgan := true, qulf := true }

namespace Chaqiruv

variable {c : Chaqiruv} {s s' : Holat} {t u : ℕ} {p p' : Oqim} {g g' : Natija}

def soni (c : Chaqiruv) : ℕ := c.T.toNat

def yigindi (c : Chaqiruv) (lo hi : ℕ) : Natija := ∑ i ∈ Finset.Ico lo hi, natijasi (c.a i)

lemma yigindi_self (lo : ℕ) : c.yigindi lo lo = 0 := by rw [yigindi, Finset.Ico_self, Finset.sum_empty]

lemma yigindi_succ {lo i : ℕ} (h : lo ≤ i) :
    c.yigindi lo (i + 1) = (c.yigindi lo i).qosh (natijasi (c.a i)) := Finset.sum_Ico_succ_top h _

section Thread

def Oziga (c : Chaqiruv) (u : ℕ) (jami : Natija) : Oqim → Prop
  | .yoq => jami = 0
  | .tekshir i => c.bosh u ≤ i ∧ i ≤ c.bosh (u + 1) ∧ jami = c.yigindi (c.bosh u) i
  | .qosh i r qolgan => c.bosh u ≤ i ∧ i < c.bosh (u + 1) ∧
      qolgan.foldl r.qoshMaydon jami = c.yigindi (c.bosh u) (i + 1)
  | .yozish i r m v qolgan => c.bosh u ≤ i ∧ i < c.bosh (u + 1) ∧
      qolgan.foldl r.qoshMaydon (jami.yoz v m) = c.yigindi (c.bosh u) (i + 1)
  | .tugadi => jami = c.yigindi (c.bosh u) (c.bosh (u + 1))

lemma Oziga.oqimIshi (h : c.Oziga u g p) (hq : c.qulf = false)
    (hs : c.oqimIshi (c.bosh (u + 1)) p g = some (p', g')) : c.Oziga u g' p' := by
  cases p with
  | yoq => cases hs
  | tugadi => cases hs
  | tekshir i =>
    obtain ⟨hlo, hhi, hg⟩ := h
    simp only [Chaqiruv.oqimIshi] at hs
    split_ifs at hs with hlt
    · cases hs
      refine ⟨hlo, hlt, ?_⟩
      rw [Natija.foldl_qoshMaydon, hg, yigindi_succ hlo]
    · cases hs
      obtain rfl : i = c.bosh (u + 1) := by omega
      exact hg
  | qosh i r qolgan =>
    obtain ⟨hlo, hlt, hg⟩ := h
    simp only [Chaqiruv.oqimIshi, hq] at hs
    cases qolgan with
    | nil =>
      cases hs
      exact ⟨by omega, hlt, hg⟩
    | cons m qolgan =>
      cases hs
      exact ⟨hlo, hlt, hg⟩
  | yozish i r m v qolgan =>
    cases hs
    exact h

def Umumiy (c : Chaqiruv) (u : ℕ) : Oqim → Prop
  | .yoq | .tugadi => True
  | .tekshir i => c.bosh u ≤ i ∧ i ≤ c.bosh (u + 1)
  | .qosh i r qolgan => c.bosh u ≤ i ∧ i < c.bosh (u + 1) ∧ r = natijasi (c.a i) ∧ qolgan = Maydon.hammasi
  | .yozish .. => False

def hissa (c : Chaqiruv) (u : ℕ) : Oqim → Natija
  | .yoq => 0
  | .tekshir i | .qosh i .. | .yozish i .. => c.yigindi (c.bosh u) i
  | .tugadi => c.yigindi (c.bosh u) (c.bosh (u + 1))

lemma Umumiy.oqimIshi (h : c.Umumiy u p) (hq : c.qulf = true)
    (hs : c.oqimIshi (c.bosh (u + 1)) p g = some (p', g')) :
    c.Umumiy u p' ∧ ∃ d, g' = g + d ∧ c.hissa u p' = c.hissa u p + d := by
  cases p with
  | yoq => cases hs
  | tugadi => cases hs
  | yozish => cases h
  | tekshir i =>
    obtain ⟨hlo, hhi⟩ := h
    simp only [Chaqiruv.oqimIshi] at hs
    split_ifs at hs with hlt
    · cases hs
      exact ⟨⟨hlo, hlt, rfl, rfl⟩, 0, (add_zero _).symm, (add_zero _).symm⟩
    · cases hs
      obtain rfl : i = c.bosh (u + 1) := by omega
      exact ⟨trivial, 0, (add_zero _).symm, (add_zero _).symm⟩
  | qosh i r qolgan =>
    obtain ⟨hlo, hlt, rfl, rfl⟩ := h
    simp only [Chaqiruv.oqimIshi, hq, if_true, Natija.foldl_qoshMaydon] at hs
    cases hs
    exact ⟨⟨by omega, hlt⟩, natijasi (c.a i), rfl, yigindi_succ hlo⟩

end Thread

def Tugagan (c : Chaqiruv) (s : Holat) : Prop := s.ishga = c.soni ∧ ∀ u < c.soni, s.oqim u = .tugadi

def Bosqich (c : Chaqiruv) (s : Holat) : Prop :=
  match s.pc with
  | .yarat t => s.ishga = t ∧ (c.bolishilgan = false → s.jami = 0)
  | .kut t xato => t ≤ s.ishga ∧ (∀ u < t, s.oqim u = .tugadi) ∧ (xato = false → s.ishga = c.soni) ∧
      (c.bolishilgan = false → s.jami = 0)
  | .jamla t => t ≤ c.soni ∧ c.Tugagan s ∧ c.bolishilgan = false ∧ s.jami = ∑ u ∈ Finset.range t, s.bolak u
  | .qaytdi r => r = 0 → c.Tugagan s ∧
      (c.bolishilgan = false → s.jami = ∑ u ∈ Finset.range c.soni, s.bolak u)

def Hisob (c : Chaqiruv) (s : Holat) : Prop :=
  if c.bolishilgan then
    (∀ u < c.soni, c.Umumiy u (s.oqim u)) ∧ s.jami = ∑ u ∈ Finset.range c.soni, c.hissa u (s.oqim u)
  else ∀ u < c.soni, c.Oziga u (s.bolak u) (s.oqim u)

structure Togri (c : Chaqiruv) (s : Holat) : Prop where
  ishga : s.ishga ≤ c.soni
  yoq : ∀ u, s.ishga ≤ u → s.oqim u = .yoq
  bosqich : c.Bosqich s
  hisob : c.Hisob s

lemma oqimIshi_ne (h : c.oqimIshi u p g = some (p', g')) : p ≠ .yoq ∧ p ≠ .tugadi := by
  refine ⟨?_, ?_⟩ <;> rintro rfl <;> cases h

lemma oqimQadam_cases (h : c.oqimQadam s t = some s') :
    ∃ p g, s'.oqim = update s.oqim t p ∧ s'.pc = s.pc ∧ s'.ishga = s.ishga ∧
      if c.bolishilgan then
        c.oqimIshi (c.bosh (t + 1)) (s.oqim t) s.jami = some (p, g) ∧ s'.jami = g ∧ s'.bolak = s.bolak
      else
        c.oqimIshi (c.bosh (t + 1)) (s.oqim t) (s.bolak t) = some (p, g) ∧ s'.jami = s.jami ∧
          s'.bolak = update s.bolak t g := by
  rw [oqimQadam] at h
  split_ifs at h with hb
  · obtain ⟨⟨p, g⟩, hpg, rfl⟩ := Option.map_eq_some_iff.1 h
    exact ⟨p, g, rfl, rfl, rfl, by rw [if_pos hb]; exact ⟨hpg, rfl, rfl⟩⟩
  · obtain ⟨⟨p, g⟩, hpg, rfl⟩ := Option.map_eq_some_iff.1 h
    exact ⟨p, g, rfl, rfl, rfl, by rw [if_neg hb]; exact ⟨hpg, rfl, rfl⟩⟩

lemma oqimQadam_ne (h : c.oqimQadam s t = some s') : s.oqim t ≠ .yoq ∧ s.oqim t ≠ .tugadi := by
  obtain ⟨p, g, -, -, -, hif⟩ := oqimQadam_cases h
  split_ifs at hif
  · exact oqimIshi_ne hif.1
  · exact oqimIshi_ne hif.1

lemma Togri.lt_of_oqimQadam (hi : c.Togri s) (h : c.oqimQadam s t = some s') : t < s.ishga := by
  by_contra hge
  exact (oqimQadam_ne h).1 (hi.yoq t (by omega))

lemma Hisob.oqimQadam (hi : c.Hisob s) (hv : c.bolishilgan = c.qulf) (ht : t < c.soni)
    (h : c.oqimQadam s t = some s') : c.Hisob s' := by
  obtain ⟨p, g, hoqim, -, -, hif⟩ := oqimQadam_cases h
  rw [Hisob] at hi ⊢
  split_ifs at hi hif ⊢ with hb
  · obtain ⟨hpg, hjami, -⟩ := hif
    obtain ⟨hum, hsum⟩ := hi
    obtain ⟨hp, d, hg, hd⟩ := (hum t ht).oqimIshi (hv.symm.trans hb) hpg
    refine ⟨fun u hu => ?_, ?_⟩
    · by_cases hut : u = t
      · subst hut
        rwa [hoqim, update_self]
      · rw [hoqim, update_of_ne hut]
        exact hum u hu
    · rw [hjami, hg, hsum]
      refine (Pieces.sum_add_at (Finset.mem_range.2 ht) (fun u hu => ?_) ?_).symm
      · rw [hoqim, update_of_ne hu]
      · rw [hoqim, update_self, hd]
  · obtain ⟨hpg, -, hbolak⟩ := hif
    intro u hu
    by_cases hut : u = t
    · subst hut
      rw [hoqim, hbolak, update_self, update_self]
      exact (hi u hu).oqimIshi (hv.symm.trans (Bool.eq_false_iff.2 hb)) hpg
    · rw [hoqim, hbolak, update_of_ne hut, update_of_ne hut]
      exact hi u hu

lemma not_tugagan_of_oqimQadam (hi : c.Togri s) (h : c.oqimQadam s t = some s') : ¬ c.Tugagan s := by
  intro ⟨hish, htug⟩
  exact (oqimQadam_ne h).2 (htug t (hish ▸ hi.lt_of_oqimQadam h))

lemma Togri.oqimQadam (hi : c.Togri s) (hv : c.bolishilgan = c.qulf) (h : c.oqimQadam s t = some s') :
    c.Togri s' := by
  obtain ⟨p, g, hoqim, hpc, hish, hif⟩ := oqimQadam_cases h
  have ht := hi.lt_of_oqimQadam h
  have hsame : ∀ u, s.oqim u = .tugadi → s'.oqim u = .tugadi := by
    intro u hu
    have hut : u ≠ t := by
      rintro rfl
      exact (oqimQadam_ne h).2 hu
    rwa [hoqim, update_of_ne hut]
  have hjami : c.bolishilgan = false → s'.jami = s.jami := by
    intro hb
    rw [hb] at hif
    exact hif.2.1
  refine ⟨hish ▸ hi.ishga, fun u hu => ?_, ?_, hi.hisob.oqimQadam hv (by have := hi.ishga; omega) h⟩
  · rw [hish] at hu
    rw [hoqim, update_of_ne (by omega)]
    exact hi.yoq u hu
  have hbosqich := hi.bosqich
  rw [Bosqich] at hbosqich ⊢
  rw [hpc]
  cases hs : s.pc with
  | yarat t =>
    simp only [hs] at hbosqich ⊢
    exact ⟨hish.trans hbosqich.1, fun hb => (hjami hb).trans (hbosqich.2 hb)⟩
  | kut t xato =>
    simp only [hs] at hbosqich ⊢
    obtain ⟨hle, htug, hx, hj⟩ := hbosqich
    exact ⟨hish ▸ hle, fun u hu => hsame u (htug u hu), fun hf => hish.trans (hx hf),
      fun hb => (hjami hb).trans (hj hb)⟩
  | jamla t =>
    simp only [hs] at hbosqich
    exact absurd hbosqich.2.1 (not_tugagan_of_oqimQadam hi h)
  | qaytdi r =>
    simp only [hs] at hbosqich ⊢
    intro hr
    exact absurd (hbosqich hr).1 (not_tugagan_of_oqimQadam hi h)

section Cuts

variable (hT : 1 ≤ c.T) (hn : c.n * c.soni < 2 ^ 64)

include hn in
lemma bosh_eq (ht : t ≤ c.soni) : c.bosh t = c.n * t / c.soni := by
  rw [bosh, chegara, Nat.mod_eq_of_lt]
  · rfl
  · exact lt_of_le_of_lt (Nat.mul_le_mul_left c.n ht) hn

lemma monotone_cut (n T : ℕ) : Monotone fun t => n * t / T := fun _ _ h =>
  Nat.div_le_div_right (Nat.mul_le_mul_left n h)

include hn in
lemma bosh_le_succ (ht : t < c.soni) : c.bosh t ≤ c.bosh (t + 1) := by
  rw [bosh_eq hn ht.le, bosh_eq hn ht]
  exact monotone_cut c.n c.soni (Nat.le_succ t)

include hT hn in
lemma bosh_soni : c.bosh c.soni = c.n := by
  have hpos : 0 < c.soni := by rw [soni]; omega
  rw [bosh_eq hn le_rfl, Nat.mul_div_cancel _ hpos]

include hT hn in
lemma bosh_succ_le (ht : t < c.soni) : c.bosh (t + 1) ≤ c.n := by
  rw [← bosh_soni hT hn, bosh_eq hn ht, bosh_eq hn le_rfl]
  exact monotone_cut c.n c.soni ht

include hT hn in
lemma exists_unique_oqim {i : ℕ} (hi : i < c.n) : ∃! t, t < c.soni ∧ c.bosh t ≤ i ∧ i < c.bosh (t + 1) := by
  have hpiece : ∀ t < c.soni, c.bosh t ≤ i ∧ i < c.bosh (t + 1) ↔
      c.n * t / c.soni ≤ i ∧ i < c.n * (t + 1) / c.soni := by
    intro t ht
    rw [bosh_eq hn ht.le, bosh_eq hn ht]
  have hfirst : c.n * 0 / c.soni ≤ i := by rw [Nat.mul_zero, Nat.zero_div]; exact Nat.zero_le i
  have hlast : i < c.n * c.soni / c.soni := by rwa [← bosh_eq hn le_rfl, bosh_soni hT hn]
  obtain ⟨t, ht, hit⟩ := Pieces.exists_piece (b := fun t => c.n * t / c.soni) hfirst hlast
  refine ⟨t, ⟨ht, (hpiece t ht).2 hit⟩, fun u hu => ?_⟩
  exact Pieces.piece_unique (monotone_cut c.n c.soni) ((hpiece u hu.1).1 hu.2) hit

include hT hn in
lemma sum_yigindi : ∑ u ∈ Finset.range c.soni, c.yigindi (c.bosh u) (c.bosh (u + 1)) = jamiKetmaKet c.a c.n := by
  have hcut : ∀ u ∈ Finset.range c.soni, c.yigindi (c.bosh u) (c.bosh (u + 1)) =
      ∑ i ∈ Finset.Ico (c.n * u / c.soni) (c.n * (u + 1) / c.soni), natijasi (c.a i) := by
    intro u hu
    have hlt := Finset.mem_range.1 hu
    rw [yigindi, bosh_eq hn hlt.le, bosh_eq hn hlt]
  have hlast := bosh_soni hT hn
  rw [bosh_eq hn le_rfl] at hlast
  rw [Finset.sum_congr rfl hcut, Pieces.sum_pieces (monotone_cut c.n c.soni) (fun i => natijasi (c.a i)),
    hlast, Nat.mul_zero, Nat.zero_div, jamiKetmaKet_eq]

include hT in
lemma lt_soni {t : ℕ} : (t : ℤ) < c.T ↔ t < c.soni := by
  rw [soni]
  omega

include hn in
lemma Hisob.yarat (h : c.Hisob s) (ht : t < c.soni) (hyoq : s.oqim t = .yoq)
    (hoqim : s'.oqim = update s.oqim t (.tekshir (c.bosh t))) (hjami : s'.jami = s.jami)
    (hbolak : s'.bolak = s.bolak) : c.Hisob s' := by
  have hle := bosh_le_succ hn ht
  rw [Hisob] at h ⊢
  rw [hoqim, hjami, hbolak]
  split_ifs at h ⊢
  · refine ⟨fun u hu => ?_, h.2.trans (Finset.sum_congr rfl fun u _ => ?_)⟩
    · by_cases hut : u = t
      · subst hut
        rw [update_self]
        exact ⟨le_rfl, hle⟩
      · rw [update_of_ne hut]
        exact h.1 u hu
    · by_cases hut : u = t
      · subst hut
        rw [update_self, hyoq]
        exact (yigindi_self _).symm
      · rw [update_of_ne hut]
  · intro u hu
    by_cases hut : u = t
    · subst hut
      have hzero := h u hu
      rw [hyoq] at hzero
      rw [update_self]
      exact ⟨le_rfl, hle, hzero.trans (yigindi_self _).symm⟩
    · rw [update_of_ne hut]
      exact h u hu

include hT hn in
lemma Togri.yurgizQadam {yaratildi : Bool} (hi : c.Togri s) (h : c.yurgizQadam s yaratildi = some s') :
    c.Togri s' := by
  have hb := hi.bosqich
  have hhisob := hi.hisob
  rw [Bosqich] at hb
  rw [Chaqiruv.yurgizQadam] at h
  cases hpc : s.pc with
  | yarat t =>
    simp only [hpc, lt_soni hT] at hb h
    obtain ⟨rfl, hjami⟩ := hb
    split_ifs at h with hlt hy
    · cases h
      refine ⟨hlt, fun u hu => ?_, ⟨rfl, hjami⟩, hhisob.yarat hn hlt (hi.yoq s.ishga le_rfl) rfl rfl rfl⟩
      have hne : u ≠ s.ishga := Nat.ne_of_gt hu
      exact (update_of_ne hne _ _).trans (hi.yoq u (Nat.le_of_succ_le hu))
    · cases h
      exact ⟨hi.ishga, hi.yoq, ⟨Nat.zero_le _, fun u hu => absurd hu u.not_lt_zero, nofun, hjami⟩, hhisob⟩
    · cases h
      have hall : s.ishga = c.soni := Nat.le_antisymm hi.ishga (Nat.not_lt.1 hlt)
      exact ⟨hi.ishga, hi.yoq, ⟨Nat.zero_le _, fun u hu => absurd hu u.not_lt_zero, fun _ => hall, hjami⟩, hhisob⟩
  | kut t xato =>
    simp only [hpc] at hb h
    obtain ⟨hle, htug, hx, hjami⟩ := hb
    split_ifs at h with hlt hdone hxato hbol
    · cases h
      refine ⟨hi.ishga, hi.yoq, ⟨hlt, fun u hu => ?_, hx, hjami⟩, hhisob⟩
      by_cases hut : u = t
      · exact hut ▸ hdone
      · exact htug u (by omega)
    · cases h
      exact ⟨hi.ishga, hi.yoq, fun hr => absurd hr (by decide), hhisob⟩
    · cases h
      have hish := hx (Bool.eq_false_iff.2 hxato)
      refine ⟨hi.ishga, hi.yoq, fun _ => ⟨⟨hish, fun u hu => htug u (by omega)⟩, fun hf => ?_⟩, hhisob⟩
      rw [hbol] at hf
      cases hf
    · cases h
      have hish := hx (Bool.eq_false_iff.2 hxato)
      have hbol := Bool.eq_false_iff.2 hbol
      exact ⟨hi.ishga, hi.yoq, ⟨Nat.zero_le _, ⟨hish, fun u hu => htug u (by omega)⟩, hbol, hjami hbol⟩, hhisob⟩
  | jamla t =>
    simp only [hpc, lt_soni hT] at hb h
    obtain ⟨hle, htug, hbol, hjami⟩ := hb
    have hozi : ∀ u < c.soni, c.Oziga u (s.bolak u) (s.oqim u) := by
      rw [Hisob, hbol] at hhisob
      exact hhisob
    split_ifs at h with hlt
    · cases h
      refine ⟨hi.ishga, hi.yoq, ⟨hlt, htug, hbol, ?_⟩, ?_⟩
      · dsimp only
        rw [hjami, Finset.sum_range_succ]
        rfl
      · rw [Hisob, hbol]
        exact hozi
    · cases h
      obtain rfl : t = c.soni := by omega
      exact ⟨hi.ishga, hi.yoq, fun _ => ⟨htug, fun _ => hjami⟩, hhisob⟩
  | qaytdi r =>
    simp only [hpc] at h
    cases h

lemma togri_boshlanish (jami : Natija) (hT : 1 ≤ c.T) (hmaks : c.T ≤ maksOqim) : c.Togri (c.boshlanish jami) := by
  have hok : ¬ (c.T < 1 ∨ maksOqim < c.T) := by omega
  rw [boshlanish, if_neg hok]
  refine ⟨Nat.zero_le _, fun _ _ => rfl, ⟨rfl, fun _ => rfl⟩, ?_⟩
  rw [Hisob]
  split_ifs
  · exact ⟨fun _ _ => trivial, (Finset.sum_eq_zero fun _ _ => rfl).symm⟩
  · exact fun _ _ => rfl

include hT hn in
lemma Togri.jami_eq (hi : c.Togri s) (hpc : s.pc = .qaytdi 0) : s.jami = jamiKetmaKet c.a c.n := by
  have hb := hi.bosqich
  simp only [Bosqich, hpc] at hb
  obtain ⟨⟨-, htug⟩, hjami⟩ := hb trivial
  have hhisob := hi.hisob
  rw [← sum_yigindi hT hn]
  rw [Hisob] at hhisob
  split_ifs at hhisob with hbol
  · refine hhisob.2.trans (Finset.sum_congr rfl fun u hu => ?_)
    rw [htug u (Finset.mem_range.1 hu)]
    rfl
  · refine (hjami (Bool.eq_false_iff.2 hbol)).trans (Finset.sum_congr rfl fun u hu => ?_)
    have hlt := Finset.mem_range.1 hu
    have hozi := hhisob u hlt
    rwa [htug u hlt] at hozi

include hT hn in
lemma yurgiz_jami (hmaks : c.T ≤ maksOqim) (hv : c.bolishilgan = c.qulf) (h : c.yurgiz.Reachable s)
    (hpc : s.pc = .qaytdi 0) : s.jami = jamiKetmaKet c.a c.n := by
  refine Togri.jami_eq hT hn (h.invariant ?_ ?_) hpc
  · rintro _ ⟨jami, rfl⟩
    exact togri_boshlanish jami hT hmaks
  · intro s q s' hi hs
    cases q with
    | asosiy yaratildi => exact hi.yurgizQadam hT hn hs
    | oqim t => exact hi.oqimQadam hv hs

lemma reachable_qadamlar {qs : List Qadam} (h : c.yurgiz.Reachable s) (hs : qs.foldlM c.qadam s = some s') :
    c.yurgiz.Reachable s' :=
  h.foldlM (fun hq => hq) hs

end Cuts

end Chaqiruv

section

variable {a : ℕ → Xodim} {n : ℕ} {T : ℤ}

theorem jami_eq_jamiKetmaKet (hT : 1 ≤ T ∧ T ≤ maksOqim) (hn : n * T.toNat < 2 ^ 64) :
    (∀ s, (jamiParallel a n T).Reachable s → s.pc = .qaytdi 0 → s.jami = jamiKetmaKet a n) ∧
    (∀ s, (jamiQulf a n T).Reachable s → s.pc = .qaytdi 0 → s.jami = jamiKetmaKet a n) ∧
    (∀ i < n, ∃! t, t < T.toNat ∧ chegara n T.toNat t ≤ i ∧ i < chegara n T.toNat (t + 1)) ∧
    ∀ t < T.toNat, chegara n T.toNat (t + 1) ≤ n := by
  have hown : (Chaqiruv.mk a n T false false).n * (Chaqiruv.mk a n T false false).soni < 2 ^ 64 := hn
  have hcommon : (Chaqiruv.mk a n T true true).n * (Chaqiruv.mk a n T true true).soni < 2 ^ 64 := hn
  refine ⟨fun s h hpc => ?_, fun s h hpc => ?_, fun i hi => ?_, fun t ht => ?_⟩
  · exact Chaqiruv.yurgiz_jami (c := ⟨a, n, T, false, false⟩) hT.1 hown hT.2 rfl h hpc
  · exact Chaqiruv.yurgiz_jami (c := ⟨a, n, T, true, true⟩) hT.1 hcommon hT.2 rfl h hpc
  · exact Chaqiruv.exists_unique_oqim (c := ⟨a, n, T, false, false⟩) hT.1 hown hi
  · exact Chaqiruv.bosh_succ_le (c := ⟨a, n, T, false, false⟩) hT.1 hown ht

def birXodim : Xodim where
  id := 1000
  ism := Vector.replicate ismUz 0
  toifa := 1
  bayroq := 0
  tarif := 1000000
  oddiyDaq := 600
  qoshDaq := 30

def uchXodim (i : ℕ) : Xodim := if i = 0 then birXodim else { birXodim with id := 1000 + Int32.ofNat i, tarif := 2000000 }

/-- Both threads are created, take turns as long as both have something to do, and are waited for. -/
def navbatma (birga yolgiz : ℕ) : List Qadam :=
  List.replicate 3 (.asosiy true) ++ (List.replicate birga [.oqim 0, .oqim 1]).flatten ++
    List.replicate yolgiz (.oqim 1) ++ List.replicate 3 (.asosiy true)

theorem jami_eq_jamiKetmaKet_uch :
    (∃ s, (jamiParallel uchXodim 3 2).Reachable s ∧ s.pc = .qaytdi 0 ∧ s.bolak 0 ≠ s.bolak 1 ∧
      s.jami = jamiKetmaKet uchXodim 3) ∧
    ∃ s, (jamiQulf uchXodim 3 2).Reachable s ∧ s.pc = .qaytdi 0 ∧ s.jami = jamiKetmaKet uchXodim 3 := by
  have hjami := jami_eq_jamiKetmaKet (a := uchXodim) (n := 3) (T := 2) ⟨by decide, by decide⟩ (by decide)
  constructor
  · let c : Chaqiruv := { a := uchXodim, n := 3, T := 2, bolishilgan := false, qulf := false }
    have hrun : ((navbatma 17 16 ++ List.replicate 3 (Qadam.asosiy true)).foldlM c.qadam (c.boshlanish {})).map
        (fun s => (s.pc, decide (s.bolak 0 = s.bolak 1))) = some (.qaytdi 0, false) := by
      decide +kernel
    obtain ⟨s, hs, hpc⟩ := Option.map_eq_some_iff.1 hrun
    obtain ⟨hpc, hbolak⟩ := Prod.mk.inj hpc
    have hreach : c.yurgiz.Reachable s := Chaqiruv.reachable_qadamlar (.init ⟨{}, rfl⟩) hs
    exact ⟨s, hreach, hpc, of_decide_eq_false hbolak, hjami.1 s hreach hpc⟩
  · let c : Chaqiruv := { a := uchXodim, n := 3, T := 2, bolishilgan := true, qulf := true }
    have hrun : ((navbatma 3 2).foldlM c.qadam (c.boshlanish {})).map Holat.pc = some (.qaytdi 0) := by
      decide +kernel
    obtain ⟨s, hs, hpc⟩ := Option.map_eq_some_iff.1 hrun
    have hreach : c.yurgiz.Reachable s := Chaqiruv.reachable_qadamlar (.init ⟨{}, rfl⟩) hs
    exact ⟨s, hreach, hpc, hjami.2.1 s hreach hpc⟩

end

end MyOS.Kadrlar
