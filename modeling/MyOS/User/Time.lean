import MyOS.Library.Calendar

/-! `gmtime_r` of the C library and `to_epoch` of the clock driver. -/

namespace MyOS.User

open Library Calendar Finset

structure Tm where
  year : ℤ
  mon : ℤ
  mday : ℤ
  hour : ℤ
  min : ℤ
  sec : ℤ
  wday : ℤ
  yday : ℤ
  deriving DecidableEq

def Tm.date (t : Tm) : Date :=
  { year := t.year + 1900, month := t.mon.toNat, day := t.mday, hour := t.hour, min := t.min, sec := t.sec }

def toInt (x : ℤ) : ℤ := (x + 2 ^ 31) % 2 ^ 32 - 2 ^ 31

def cum (m : ℤ) : ℤ := [0, 31, 59, 90, 120, 151, 181, 212, 243, 273, 304, 334].getD m.toNat 0

def gmtimeR (secs : ℤ) : Tm :=
  let days := secs.tdiv 86400
  let rem := secs.tmod 86400
  let (days, rem) := if rem < 0 then (days - 1, rem + 86400) else (days, rem)
  let z := days + 719468
  let era := (if z ≥ 0 then z else z - 146096).tdiv 146097
  let doe := z - era * 146097
  let yoe := (doe - doe.tdiv 1460 + doe.tdiv 36524 - doe.tdiv 146096).tdiv 365
  let y := yoe + era * 400
  let doy := doe - (365 * yoe + yoe.tdiv 4 - yoe.tdiv 100)
  let mp := (5 * doy + 2).tdiv 153
  let d := doy - (153 * mp + 2).tdiv 5 + 1
  let m := if mp < 10 then mp + 3 else mp - 9
  let y := y + if m ≤ 2 then 1 else 0
  let leap := decide ((y.tmod 4 = 0 ∧ y.tmod 100 ≠ 0) ∨ y.tmod 400 = 0)
  { year := toInt (y - 1900)
    mon := toInt (m - 1)
    mday := toInt d
    hour := toInt (rem.tdiv 3600)
    min := toInt ((rem.tmod 3600).tdiv 60)
    sec := toInt (rem.tmod 60)
    wday := toInt ((days.tmod 7 + 11).tmod 7)
    yday := cum (m - 1) + toInt d - 1 + if leap ∧ m > 2 then 1 else 0 }

/-! `to_epoch` -/

def leapYear (y : ℤ) : Bool := decide (y.tmod 4 = 0 ∧ (y.tmod 100 ≠ 0 ∨ y.tmod 400 = 0))

def mdays : List ℕ := [31, 28, 31, 30, 31, 30, 31, 31, 30, 31, 30, 31]

def yearLoop : ℕ → ℕ
  | 0 => 0
  | n + 1 => yearLoop n + if leapYear (1970 + n) then 366 else 365

def monthLoop (year : ℤ) : ℕ → ℕ
  | 0 => 0
  | i + 1 => monthLoop year i + mdays.getD i 0 + if i = 1 ∧ leapYear year = true then 1 else 0

def toEpoch (year mon day h m s : ℤ) : ℕ :=
  let days := yearLoop (year - 1970).toNat + monthLoop year (mon - 1).toNat + (day - 1).toNat
  (days * 86400 + h.toNat * 3600 + m.toNat * 60 + s.toNat) % 2 ^ 64

lemma tdiv_neg {s n : ℤ} (hs : s < 0) : s.tdiv n = -((-s) / n) := by
  obtain ⟨t, rfl⟩ : ∃ t, s = -t := ⟨-s, by ring⟩
  rw [Int.neg_tdiv, Int.tdiv_eq_ediv_of_nonneg (by omega), neg_neg]

lemma tmod_neg {s n : ℤ} (hs : s < 0) : s.tmod n = -((-s) % n) := by
  obtain ⟨t, rfl⟩ : ∃ t, s = -t := ⟨-s, by ring⟩
  rw [Int.neg_tmod, Int.tmod_eq_emod_of_nonneg (by omega), neg_neg]

lemma floor_days (secs : ℤ) : (if secs.tmod 86400 < 0 then (secs.tdiv 86400 - 1, secs.tmod 86400 + 86400) else
    (secs.tdiv 86400, secs.tmod 86400)) = (secs / 86400, secs % 86400) := by
  rcases le_or_gt 0 secs with h | h
  · rw [Int.tdiv_eq_ediv_of_nonneg h, Int.tmod_eq_emod_of_nonneg h, if_neg (by omega)]
  · rw [tdiv_neg h, tmod_neg h]
    split_ifs <;> rw [Prod.mk.injEq] <;> omega

lemma floor_era (z : ℤ) : (if z ≥ 0 then z else z - 146096).tdiv 146097 = z / 146097 := by
  split_ifs with h
  · exact Int.tdiv_eq_ediv_of_nonneg h
  · rw [tdiv_neg (by omega)]
    omega

lemma floor_wday (d : ℤ) : (d.tmod 7 + 11).tmod 7 = (d + 4) % 7 := by
  rcases le_or_gt 0 d with h | h
  · rw [Int.tmod_eq_emod_of_nonneg h, Int.tmod_eq_emod_of_nonneg (by omega)]
    omega
  · rw [tmod_neg h, Int.tmod_eq_emod_of_nonneg (by omega)]
    omega

lemma tmod_eq_zero (y : ℤ) (n : ℤ) : y.tmod n = 0 ↔ y % n = 0 := by
  rw [← Int.dvd_iff_tmod_eq_zero, ← Int.dvd_iff_emod_eq_zero]

lemma cum_eq (y : ℤ) {m : ℕ} (hm : m < 12) : cum m + (if leap y = true ∧ 1 < m then 1 else 0) = ∑ i ∈ range m, monthLength y i := by
  induction m with
  | zero => cases leap y <;> rfl
  | succ m ih =>
    have hmonth : cum (m + 1 : ℕ) + (if leap y = true ∧ 1 < m + 1 then 1 else 0) =
        cum m + (if leap y = true ∧ 1 < m then 1 else 0) + monthLength y m := by
      have hm11 : m < 11 := by omega
      rw [monthLength]
      clear ih hm
      interval_cases m <;> cases leap y <;> decide
    rw [sum_range_succ, ← ih (by omega), hmonth]

lemma month_spec {doy mp d : ℤ} (h0 : 0 ≤ doy) (hmp : mp = (5 * doy + 2) / 153) (hd : d = doy - (153 * mp + 2) / 5 + 1)
    (hlt : doy < 366) (y : ℤ) :
    (mp < 10 → 0 ≤ mp ∧ 1 ≤ d ∧ d ≤ monthLength y (mp + 2).toNat ∧
      ∑ i ∈ range (mp + 2).toNat, monthLength y i + (d - 1) = doy + 59 + if leap y then 1 else 0) ∧
    (10 ≤ mp → mp ≤ 11 ∧ 1 ≤ d ∧ (doy < 365 ∨ leap y = true → d ≤ monthLength y (mp - 10).toNat) ∧
      ∑ i ∈ range (mp - 10).toNat, monthLength y i + (d - 1) = doy - 306) := by
  have hmp0 : 0 ≤ mp := by omega
  have hmp1 : mp ≤ 11 := by omega
  constructor
  · intro hlt
    rw [← cum_eq y (show (mp + 2).toNat < 12 by omega), monthLength]
    interval_cases mp <;> cases leap y <;> simp [cum] <;> omega
  · intro hge
    rw [← cum_eq y (show (mp - 10).toNat < 12 by omega), monthLength]
    interval_cases mp <;> cases leap y <;> simp [cum] <;> omega

lemma ediv_eq {a b q r : ℤ} (h : a = b * q + r) (h0 : 0 ≤ r) (h1 : r < b) : a / b = q := by
  rw [h, add_comm, Int.add_mul_ediv_left _ _ (by omega), Int.ediv_eq_zero_of_lt h0 h1, zero_add]

lemma yoe_eq {doe c k t s : ℤ} (hc : 0 ≤ c ∧ c ≤ 3) (hk : 0 ≤ k ∧ k ≤ 24) (ht : 0 ≤ t ∧ t ≤ 3)
    (hs : 0 ≤ s ∧ s ≤ 364 + if t = 3 then 1 else 0) (hlast : 1461 * k + 365 * t + s < 36524)
    (h : doe = 36524 * c + 1461 * k + 365 * t + s) :
    (doe - doe / 1460 + doe / 36524 - doe / 146096) / 365 = 100 * c + 4 * k + t := by
  have h₁ : doe / 36524 = c := ediv_eq (r := 1461 * k + 365 * t + s) (by rw [h]; ring) (by omega) hlast
  have h₂ : doe / 146096 = 0 := Int.ediv_eq_zero_of_lt (by omega) (by omega)
  rw [h₁, h₂]
  rcases lt_or_ge (24 * c + k + 365 * t + s) 1460 with hlt | hge
  · have h₃ : doe / 1460 = 25 * c + k := ediv_eq (r := 24 * c + k + 365 * t + s) (by rw [h]; ring) (by omega) hlt
    rw [h₃]
    exact ediv_eq (r := s) (by rw [h]; ring) hs.1 (by omega)
  · have h₃ : doe / 1460 = 25 * c + k + 1 :=
      ediv_eq (r := 24 * c + k + 365 * t + s - 1460) (by rw [h]; ring) (by omega) (by omega)
    rw [h₃]
    exact ediv_eq (r := s - 1) (by rw [h]; ring) (by omega) (by omega)

lemma yoe_spec (doe yoe : ℤ) (h0 : 0 ≤ doe) (h1 : doe ≤ 146096)
    (hy : yoe = (doe - doe / 1460 + doe / 36524 - doe / 146096) / 365) :
    0 ≤ yoe ∧ yoe ≤ 399 ∧ 365 * yoe + yoe / 4 - yoe / 100 ≤ doe ∧
      doe < 365 * (yoe + 1) + (yoe + 1) / 4 - (yoe + 1) / 100 + (yoe + 1) / 400 := by
  rcases eq_or_lt_of_le h1 with rfl | hlt
  · norm_num at hy
    subst hy
    norm_num
  obtain ⟨c, r, hc, hr, hdoe⟩ : ∃ c r, (0 ≤ c ∧ c ≤ 3) ∧ (0 ≤ r ∧ r < 36524) ∧ doe = 36524 * c + r :=
    ⟨doe / 36524, doe % 36524, by omega, by omega, by omega⟩
  obtain ⟨k, u, hk, hu, hru⟩ : ∃ k u, (0 ≤ k ∧ k ≤ 24) ∧ (0 ≤ u ∧ u < 1461) ∧ r = 1461 * k + u :=
    ⟨r / 1461, r % 1461, by omega, by omega, by omega⟩
  obtain ⟨t, s, ht, hs, hts⟩ : ∃ t s, (0 ≤ t ∧ t ≤ 3) ∧ (0 ≤ s ∧ s ≤ 364 + if t = 3 then 1 else 0) ∧ u = 365 * t + s := by
    rcases lt_or_ge u 1095 with h | h
    · exact ⟨u / 365, u % 365, by omega, by split_ifs <;> omega, by omega⟩
    · exact ⟨3, u - 1095, by omega, by rw [if_pos rfl]; omega, by omega⟩
  have hyoe := yoe_eq hc hk ht hs (by omega) (show doe = 36524 * c + 1461 * k + 365 * t + s by omega)
  rw [← hy] at hyoe
  clear hy
  have h4 : yoe / 4 = 25 * c + k := ediv_eq (r := t) (by rw [hyoe]; ring) ht.1 (by omega)
  have h100 : yoe / 100 = c := ediv_eq (r := 4 * k + t) (by rw [hyoe]; ring) (by omega) (by omega)
  have h400 : 0 ≤ (yoe + 1) / 400 := Int.ediv_nonneg (by omega) (by norm_num)
  refine ⟨by omega, by omega, by omega, ?_⟩
  -- the last year of a century has no leap day unless the century is the last one
  by_cases hend : k = 24 ∧ t = 3
  · have h4' : (yoe + 1) / 4 = 25 * c + 25 := ediv_eq (r := 0) (by omega) le_rfl (by norm_num)
    have h100' : (yoe + 1) / 100 = c + 1 := ediv_eq (r := 0) (by omega) le_rfl (by norm_num)
    rw [h4', h100']
    omega
  · have h100' : (yoe + 1) / 100 = c := ediv_eq (r := 4 * k + t + 1) (by omega) (by omega) (by omega)
    rw [h100']
    split_ifs at hs with h3
    · have h4' : (yoe + 1) / 4 = 25 * c + k + 1 := ediv_eq (r := 0) (by omega) le_rfl (by norm_num)
      rw [h4']
      omega
    · have h4' : (yoe + 1) / 4 = 25 * c + k := ediv_eq (r := t + 1) (by omega) (by omega) (by omega)
      rw [h4']
      omega

lemma gmtimeR_of {secs days rem era doe yoe doy mp d m y : ℤ} (hdays : days = secs / 86400) (hrem : rem = secs % 86400)
    (hera : era = (days + 719468) / 146097) (hdoe : doe = days + 719468 - era * 146097)
    (hyoe : yoe = (doe - doe / 1460 + doe / 36524 - doe / 146096) / 365)
    (hdoy : doy = doe - (365 * yoe + yoe / 4 - yoe / 100)) (hmp : mp = (5 * doy + 2) / 153)
    (hd : d = doy - (153 * mp + 2) / 5 + 1) (hm : m = if mp < 10 then mp + 3 else mp - 9)
    (hy : y = yoe + era * 400 + if m ≤ 2 then 1 else 0) (hdoy0 : 0 ≤ doy) (hyoe0 : 0 ≤ yoe) :
    gmtimeR secs = { year := toInt (y - 1900), mon := toInt (m - 1), mday := toInt d, hour := toInt (rem / 3600),
                     min := toInt (rem % 3600 / 60), sec := toInt (rem % 60), wday := toInt ((days + 4) % 7),
                     yday := cum (m - 1) + toInt d - 1 + if leap y = true ∧ m > 2 then 1 else 0 } := by
  have hleap : (decide ((y.tmod 4 = 0 ∧ y.tmod 100 ≠ 0) ∨ y.tmod 400 = 0) = true) ↔ leap y = true := by
    rw [decide_eq_true_iff, leap_iff, tmod_eq_zero, Ne, tmod_eq_zero, tmod_eq_zero]
    omega
  have hrem0 : 0 ≤ rem := hrem ▸ Int.emod_nonneg _ (by norm_num)
  have hmod0 : 0 ≤ rem % 3600 := Int.emod_nonneg _ (by norm_num)
  have hdoe0 : 0 ≤ doe := by
    rw [hdoe, hera]
    clear hdays hrem hyoe hdoy hmp hd hm hy
    omega
  have hsum0 : 0 ≤ doe - doe / 1460 + doe / 36524 - doe / 146096 := by
    clear hdays hrem hera hdoe hyoe hdoy hmp hd hm hy
    omega
  have hmp0 : 0 ≤ mp := hmp ▸ Int.ediv_nonneg (by linarith only [hdoy0]) (by norm_num)
  rw [gmtimeR, floor_days]
  simp only [← hdays, ← hrem]
  rw [floor_era, floor_wday]
  simp only [← hera, ← hdoe]
  rw [Int.tdiv_eq_ediv_of_nonneg hrem0, Int.tmod_eq_emod_of_nonneg hrem0, Int.tmod_eq_emod_of_nonneg hrem0,
    Int.tdiv_eq_ediv_of_nonneg hmod0]
  simp only [Int.tdiv_eq_ediv_of_nonneg hdoe0]
  rw [Int.tdiv_eq_ediv_of_nonneg hsum0]
  simp only [← hyoe]
  simp only [Int.tdiv_eq_ediv_of_nonneg hyoe0]
  simp only [← hdoy]
  rw [Int.tdiv_eq_ediv_of_nonneg (show 0 ≤ 5 * doy + 2 by linarith only [hdoy0])]
  simp only [← hmp]
  rw [Int.tdiv_eq_ediv_of_nonneg (show 0 ≤ 153 * mp + 2 by linarith only [hmp0])]
  simp only [← hd, ← hm, ← hy]
  simp only [hleap]

lemma toInt_eq {x : ℤ} (h0 : -2 ^ 31 ≤ x) (h1 : x < 2 ^ 31) : toInt x = x := by
  rw [toInt]
  omega

lemma yearLength_eq (y : ℤ) : yearLength y = 365 + if leap y = true then 1 else 0 := by
  rw [yearLength]
  split_ifs <;> rfl

lemma leap_add (y : ℤ) : (if leap y = true then (1 : ℤ) else 0) = (y / 4 - (y - 1) / 4) - (y / 100 - (y - 1) / 100) +
      (y / 400 - (y - 1) / 400) := by
  have h := yearStart_succ y
  rw [yearStart_eq, yearStart_eq, yearLength_eq, show y + 1 - 1 = y by ring] at h
  linarith

lemma add_era_ediv (k era : ℤ) : (k + era * 400) / 4 = k / 4 + 100 * era ∧
    (k + era * 400) / 100 = k / 100 + 4 * era ∧ (k + era * 400) / 400 = k / 400 + era := by
  omega

lemma civil_spec (days : ℤ) : ∃ era doe yoe doy mp d m y : ℤ, era = (days + 719468) / 146097 ∧
    doe = days + 719468 - era * 146097 ∧ yoe = (doe - doe / 1460 + doe / 36524 - doe / 146096) / 365 ∧
    doy = doe - (365 * yoe + yoe / 4 - yoe / 100) ∧ mp = (5 * doy + 2) / 153 ∧ d = doy - (153 * mp + 2) / 5 + 1 ∧
    m = (if mp < 10 then mp + 3 else mp - 9) ∧ y = yoe + era * 400 + (if m ≤ 2 then 1 else 0) ∧ 0 ≤ doy ∧ 0 ≤ yoe ∧
    1 ≤ m ∧ m ≤ 12 ∧ 1 ≤ d ∧ d ≤ monthLength y (m - 1).toNat ∧
    yearStart y + ∑ i ∈ range (m - 1).toNat, monthLength y i + (d - 1) = days := by
  refine ⟨_, _, _, _, _, _, _, _, rfl, rfl, rfl, rfl, rfl, rfl, rfl, rfl, ?_⟩
  generalize hera : (days + 719468) / 146097 = era
  generalize hdoe : days + 719468 - era * 146097 = doe
  generalize hyoe : (doe - doe / 1460 + doe / 36524 - doe / 146096) / 365 = yoe
  obtain ⟨hyoe0, hyoe1, hstart, hend⟩ := yoe_spec doe yoe (by omega) (by omega) hyoe.symm
  clear hyoe hera
  generalize hdoy : doe - (365 * yoe + yoe / 4 - yoe / 100) = doy
  generalize hmp : (5 * doy + 2) / 153 = mp
  generalize hd : doy - (153 * mp + 2) / 5 + 1 = d
  have hY := fun k => add_era_ediv k era
  have hdoy0 : 0 ≤ doy := by omega
  -- the length of the year that ends in February
  have hleap := leap_add (yoe + era * 400 + 1)
  rw [show yoe + era * 400 + 1 - 1 = yoe + era * 400 by ring, show yoe + era * 400 + 1 = yoe + 1 + era * 400 by ring,
    (hY (yoe + 1)).1, (hY (yoe + 1)).2.1, (hY (yoe + 1)).2.2, (hY yoe).1, (hY yoe).2.1, (hY yoe).2.2] at hleap
  have hnext : yearStart (yoe + era * 400 + 1) = days - doy + 306 := by
    rw [yearStart_eq, show yoe + era * 400 + 1 - 1 = yoe + era * 400 by ring, (hY yoe).1, (hY yoe).2.1, (hY yoe).2.2]
    omega
  have hfits : doy < 365 + if leap (yoe + 1 + era * 400) = true then 1 else 0 := by omega
  clear hleap hstart hend hdoy hdoe
  have hdoy1 : doy < 366 := by
    split_ifs at hfits <;> omega
  refine ⟨hdoy0, hyoe0, ?_⟩
  rcases lt_or_ge mp 10 with hlt | hge
  · obtain ⟨h0, hd1, hlen, hsum⟩ := (month_spec hdoy0 hmp.symm hd.symm hdoy1 (yoe + era * 400)).1 hlt
    clear hmp hd hfits
    have hprev := yearStart_succ (yoe + era * 400)
    rw [yearLength_eq] at hprev
    rw [if_pos hlt, if_neg (by omega), add_zero, show mp + 3 - 1 = mp + 2 by ring]
    refine ⟨by omega, by omega, hd1, hlen, ?_⟩
    omega
  · obtain ⟨h11, hd1, hlen, hsum⟩ := (month_spec hdoy0 hmp.symm hd.symm hdoy1 (yoe + era * 400 + 1)).2 hge
    clear hmp hd
    rw [if_neg (by omega), if_pos (by omega), show mp - 9 - 1 = mp - 10 by ring]
    refine ⟨by omega, by omega, hd1, hlen ?_, ?_⟩
    · rw [show yoe + era * 400 + 1 = yoe + 1 + era * 400 by ring]
      split_ifs at hfits with hl
      · exact .inr hl
      · exact .inl (by omega)
    · omega

lemma leapYear_eq (y : ℤ) : leapYear y = leap y := by
  rw [Bool.eq_iff_iff, leap_iff, leapYear, decide_eq_true_iff, tmod_eq_zero, Ne, tmod_eq_zero, tmod_eq_zero]

lemma yearLoop_eq (n : ℕ) : (yearLoop n : ℤ) = yearStart (1970 + n) := by
  induction n with
  | zero => rfl
  | succ n ih =>
    rw [yearLoop, leapYear_eq, Nat.cast_add, ih, Nat.cast_succ, ← add_assoc, yearStart_succ, yearLength]
    split_ifs <;> rfl

lemma monthLoop_eq (y : ℤ) {m : ℕ} (hm : m ≤ 12) : (monthLoop y m : ℤ) = ∑ i ∈ range m, monthLength y i := by
  induction m with
  | zero => rfl
  | succ m ih =>
    have hmonth : ((mdays.getD m 0 + if m = 1 ∧ leapYear y = true then 1 else 0 : ℕ) : ℤ) = monthLength y m := by
      have hm12 : m < 12 := hm
      rw [leapYear_eq, monthLength]
      clear ih hm
      interval_cases m <;> cases leap y <;> decide
    rw [monthLoop, sum_range_succ, ← ih (by omega), ← hmonth]
    push_cast
    ring

lemma toEpoch_eq {d : Date} (hd : d.Valid) (h0 : 1970 ≤ d.year) (h1 : d.year < 2 ^ 31) :
    (toEpoch d.year (d.month + 1) d.day d.hour d.min d.sec : ℤ) = d.seconds := by
  have hmonth := hd.month
  have hday := hd.day
  have hdays : (yearLoop (d.year - 1970).toNat + monthLoop d.year (d.month + 1 - 1 : ℤ).toNat + (d.day - 1).toNat : ℤ) =
      d.days := by
    rw [yearLoop_eq, add_sub_cancel_right, Int.toNat_natCast, monthLoop_eq _ hmonth.le, Date.days, Date.dayOfYear,
      show (1970 : ℤ) + (d.year - 1970).toNat = d.year by omega, show ((d.day - 1).toNat : ℤ) = d.day - 1 by omega, add_assoc]
  have hbound : d.days < 2 ^ 40 := by
    have hmem := hd.dayOfYear_mem
    have hstart := yearStart_eq d.year
    have hlen : yearLength d.year ≤ 366 := by
      rw [yearLength]
      split_ifs <;> norm_num
    rw [Date.days]
    omega
  have hsum : (((yearLoop (d.year - 1970).toNat + monthLoop d.year (d.month + 1 - 1 : ℤ).toNat + (d.day - 1).toNat) * 86400 +
      d.hour.toNat * 3600 + d.min.toNat * 60 + d.sec.toNat : ℕ) : ℤ) = d.seconds := by
    simp only [Nat.cast_add, Nat.cast_mul, Nat.cast_ofNat]
    rw [hdays, Int.toNat_of_nonneg hd.hour.1, Int.toNat_of_nonneg hd.min.1, Int.toNat_of_nonneg hd.sec.1, Date.seconds]
    ring
  have hlt : d.seconds < 2 ^ 64 := by
    have hmem := hd.seconds_mem.2
    clear hsum hdays hday hmonth
    omega
  rw [toEpoch, Nat.mod_eq_of_lt (by rw [← Nat.cast_lt (α := ℤ), hsum]; exact_mod_cast hlt), hsum]

lemma year_unique {days y z : ℤ} (hy : yearStart y ≤ days) (hy' : days < yearStart (y + 1)) (hz : yearStart z ≤ days)
    (hz' : days < yearStart (z + 1)) : y = z := by
  rcases lt_trichotomy y z with h | h | h
  · have := yearStart_lt h
    rw [yearStart_succ] at hy'
    omega
  · exact h
  · have := yearStart_lt h
    rw [yearStart_succ] at hz'
    omega

lemma gmtimeR_spec {t y : ℤ} (hlo : yearStart y ≤ t / 86400) (hhi : t / 86400 < yearStart (y + 1))
    (hy0 : -2 ^ 31 ≤ y - 1900) (hy1 : y - 1900 < 2 ^ 31) :
    (gmtimeR t).date.Valid ∧ (gmtimeR t).mon = (gmtimeR t).date.month ∧ (gmtimeR t).date.year = y ∧
      (gmtimeR t).date.seconds = t ∧ (gmtimeR t).wday = (t / 86400 + 4) % 7 ∧ (gmtimeR t).yday = (gmtimeR t).date.dayOfYear := by
  obtain ⟨era, doe, yoe, doy, mp, d, m, z, hera, hdoe, hyoe, hdoy, hmp, hd, hm, hz, hdoy0, hyoe0, hm0, hm1, hd0, hd1, hdays⟩ :=
    civil_spec (t / 86400)
  have heq := gmtimeR_of rfl rfl hera hdoe hyoe hdoy hmp hd hm hz hdoy0 hyoe0
  clear hera hdoe hyoe hdoy hmp hd hm hz hdoy0 hyoe0
  obtain ⟨k, hk⟩ := Int.eq_ofNat_of_zero_le (show 0 ≤ m - 1 by omega)
  have hk12 : k < 12 := by omega
  rw [hk, Int.toNat_natCast] at hd1 hdays
  -- the year of the date is the one that was given
  have hlast := monthStart_lt hk12 z
  rw [sum_monthLength] at hlast
  have hfirst : 0 ≤ ∑ i ∈ range k, monthLength z i := sum_nonneg fun i _ => monthLength_nonneg _ i
  obtain rfl : y = z := by
    apply year_unique hlo hhi
    · omega
    · rw [yearStart_succ]
      omega
  have hdle : d ≤ 31 := by
    refine hd1.trans ?_
    rw [monthLength]
    interval_cases k <;> cases leap y <;> decide
  have hhour : 0 ≤ t % 86400 / 3600 ∧ t % 86400 / 3600 < 24 := by omega
  have hmin : 0 ≤ t % 86400 % 3600 / 60 ∧ t % 86400 % 3600 / 60 < 60 := by omega
  have hsec : 0 ≤ t % 86400 % 60 ∧ t % 86400 % 60 < 60 := by omega
  rw [toInt_eq hy0 hy1, hk, toInt_eq (x := (k : ℤ)) (by omega) (by omega), toInt_eq (x := d) (by omega) (by omega),
    toInt_eq (x := t % 86400 / 3600) (by omega) (by omega), toInt_eq (x := t % 86400 % 3600 / 60) (by omega) (by omega),
    toInt_eq (x := t % 86400 % 60) (by omega) (by omega), toInt_eq (x := (t / 86400 + 4) % 7) (by omega) (by omega)] at heq
  have hyday : cum k + d - 1 + (if leap y = true ∧ m > 2 then 1 else 0) = ∑ i ∈ range k, monthLength y i + (d - 1) := by
    rw [← cum_eq y hk12]
    have hiff : m > 2 ↔ 1 < k := by omega
    simp only [hiff]
    ring
  rw [hyday] at heq
  rw [heq]
  simp only [Tm.date, Int.toNat_natCast, sub_add_cancel]
  refine ⟨⟨hk12, ⟨hd0, hd1⟩, hhour, hmin, hsec⟩, trivial, trivial, ?_, trivial, rfl⟩
  simp only [Date.seconds, Date.days, Date.dayOfYear]
  omega

theorem gmtimeR_toEpoch :
    (∀ t y : ℤ, yearStart y ≤ t / 86400 → t / 86400 < yearStart (y + 1) → -2 ^ 31 ≤ y - 1900 → y - 1900 < 2 ^ 31 →
      (gmtimeR t).date.Valid ∧ (gmtimeR t).mon = (gmtimeR t).date.month ∧ (gmtimeR t).date.year = y ∧
        (gmtimeR t).date.seconds = t ∧ (gmtimeR t).wday = (t / 86400 + 4) % 7 ∧ (gmtimeR t).yday = (gmtimeR t).date.dayOfYear) ∧
      ∀ d : Date, d.Valid → 1970 ≤ d.year → d.year < 2 ^ 31 →
        (gmtimeR (toEpoch d.year (d.month + 1) d.day d.hour d.min d.sec)).date = d := by
  refine ⟨fun t y hlo hhi hy0 hy1 => gmtimeR_spec hlo hhi hy0 hy1, ?_⟩
  intro d hd h0 h1
  rw [toEpoch_eq hd h0 h1]
  have hmem := hd.dayOfYear_mem
  have hday : d.seconds / 86400 = d.days := by
    have := hd.seconds_mem
    omega
  obtain ⟨hvalid, -, -, hsec, -, -⟩ := gmtimeR_spec (t := d.seconds) (y := d.year) (by rw [hday, Date.days]; omega)
    (by rw [hday, Date.days, yearStart_succ]; omega) (by omega) (by omega)
  exact hvalid.ext hd hsec

theorem gmtimeR_toEpoch_2000 : (gmtimeR (-1)).date = ⟨1969, 11, 31, 23, 59, 59⟩ ∧
    (gmtimeR (toEpoch 2000 (1 + 1) 29 12 0 0)).date = ⟨2000, 1, 29, 12, 0, 0⟩ := by
  constructor
  · obtain ⟨hvalid, -, -, hsec, -, -⟩ := gmtimeR_toEpoch.1 (-1) 1969 (by decide) (by decide) (by decide) (by decide)
    exact hvalid.ext ⟨by decide, by decide, by decide, by decide, by decide⟩ (hsec.trans (by decide))
  · exact gmtimeR_toEpoch.2 ⟨2000, 1, 29, 12, 0, 0⟩ ⟨by decide, by decide, by decide, by decide, by decide⟩ (by decide) (by decide)

end MyOS.User
