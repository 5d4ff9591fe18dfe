import Mathlib.Algebra.BigOperators.Intervals
import Mathlib.Tactic

/-! The Gregorian calendar, in the past and in the future; days are counted from the first of January of 1970. -/

namespace MyOS.Library.Calendar

open Finset

def leap (y : ℤ) : Bool := y % 4 = 0 && (y % 100 ≠ 0 || y % 400 = 0)

def yearLength (y : ℤ) : ℤ := if leap y then 366 else 365

def monthLength (y : ℤ) (m : ℕ) : ℤ :=
  [31, if leap y then 29 else 28, 31, 30, 31, 30, 31, 31, 30, 31, 30, 31].getD m 0

def yearStart (y : ℤ) : ℤ :=
  ∑ i ∈ range (y - 1970).toNat, yearLength (1970 + i) - ∑ i ∈ range (1970 - y).toNat, yearLength (1969 - i)

structure Date where
  year : ℤ
  month : ℕ
  day : ℤ
  hour : ℤ
  min : ℤ
  sec : ℤ
  deriving DecidableEq

namespace Date

variable (d : Date)

structure Valid : Prop where
  month : d.month < 12
  day : 1 ≤ d.day ∧ d.day ≤ monthLength d.year d.month
  hour : 0 ≤ d.hour ∧ d.hour < 24
  min : 0 ≤ d.min ∧ d.min < 60
  sec : 0 ≤ d.sec ∧ d.sec < 60

def dayOfYear : ℤ := ∑ m ∈ range d.month, monthLength d.year m + (d.day - 1)

def days : ℤ := yearStart d.year + d.dayOfYear

def seconds : ℤ := 86400 * d.days + 3600 * d.hour + 60 * d.min + d.sec

end Date

variable {y : ℤ} {d e : Date}

lemma yearStart_succ (y : ℤ) : yearStart (y + 1) = yearStart y + yearLength y := by
  rw [yearStart, yearStart]
  rcases le_or_gt 1970 y with h | h
  · obtain ⟨n, hn⟩ := Int.eq_ofNat_of_zero_le (show 0 ≤ y - 1970 by omega)
    obtain rfl : y = 1970 + n := by omega
    rw [show (1970 + (n : ℤ) + 1 - 1970).toNat = n + 1 by omega, show (1970 + (n : ℤ) - 1970).toNat = n by omega,
      show (1970 - (1970 + (n : ℤ) + 1)).toNat = 0 by omega, show (1970 - (1970 + (n : ℤ))).toNat = 0 by omega,
      sum_range_succ]
    ring
  · obtain ⟨n, hn⟩ := Int.eq_ofNat_of_zero_le (show 0 ≤ 1969 - y by omega)
    obtain rfl : y = 1969 - n := by omega
    rw [show (1969 - (n : ℤ) + 1 - 1970).toNat = 0 by omega, show (1969 - (n : ℤ) - 1970).toNat = 0 by omega,
      show (1970 - (1969 - (n : ℤ) + 1)).toNat = n by omega, show (1970 - (1969 - (n : ℤ))).toNat = n + 1 by omega,
      sum_range_succ]
    ring

lemma leap_iff : leap y = true ↔ y % 4 = 0 ∧ (y % 100 ≠ 0 ∨ y % 400 = 0) := by
  simp [leap]

lemma yearStart_eq (y : ℤ) : yearStart y = 365 * (y - 1970) + (y - 1) / 4 - (y - 1) / 100 + (y - 1) / 400 - 477 := by
  have hstep : ∀ y : ℤ, yearLength y = 365 + (y / 4 - (y - 1) / 4) - (y / 100 - (y - 1) / 100) +
      (y / 400 - (y - 1) / 400) := by
    intro y
    rw [yearLength]
    split_ifs with h
    · rw [leap_iff] at h
      omega
    · rw [leap_iff] at h
      omega
  induction y using Int.inductionOn' (b := 1970) with
  | zero => decide
  | succ y _ ih =>
    rw [yearStart_succ, ih, hstep]
    rw [show y + 1 - 1 = y by ring]
    ring
  | pred y _ ih =>
    have h := yearStart_succ (y - 1)
    rw [show y - 1 + 1 = y by ring, ih, hstep] at h
    linarith

lemma yearLength_pos (y : ℤ) : 0 < yearLength y := by
  rw [yearLength]
  split_ifs <;> decide

lemma yearStart_lt {y z : ℤ} (h : y < z) : yearStart y + yearLength y ≤ yearStart z := by
  induction z, h using Int.leInduction with
  | base => exact (yearStart_succ y).ge
  | succ z _ ih =>
    have := yearLength_pos z
    rw [yearStart_succ]
    omega

lemma sum_monthLength (y : ℤ) : ∑ m ∈ range 12, monthLength y m = yearLength y := by
  simp only [sum_range_succ, sum_range_zero, monthLength, yearLength]
  cases leap y <;> rfl

lemma monthLength_nonneg (y : ℤ) (m : ℕ) : 0 ≤ monthLength y m := by
  rw [monthLength]
  rcases Nat.lt_or_ge m 12 with h | h
  · interval_cases m <;> cases leap y <;> decide
  · obtain ⟨k, rfl⟩ := Nat.exists_eq_add_of_le' h
    exact le_rfl

lemma monthStart_lt {m n : ℕ} (h : m < n) (y : ℤ) :
    ∑ i ∈ range m, monthLength y i + monthLength y m ≤ ∑ i ∈ range n, monthLength y i := by
  rw [← sum_range_succ]
  exact sum_le_sum_of_subset_of_nonneg (range_mono h) fun i _ _ => monthLength_nonneg y i

namespace Date

lemma Valid.dayOfYear_mem (h : d.Valid) : 0 ≤ d.dayOfYear ∧ d.dayOfYear < yearLength d.year := by
  have hsum : 0 ≤ ∑ m ∈ range d.month, monthLength d.year m := sum_nonneg fun i _ => monthLength_nonneg _ i
  have hlast := monthStart_lt h.month d.year
  rw [sum_monthLength] at hlast
  have hd := h.day
  rw [dayOfYear]
  omega

lemma Valid.seconds_mem (h : d.Valid) : 86400 * d.days ≤ d.seconds ∧ d.seconds < 86400 * (d.days + 1) := by
  have hh := h.hour
  have hm := h.min
  have hs := h.sec
  rw [seconds]
  omega

lemma Valid.ext (hd : d.Valid) (he : e.Valid) (h : d.seconds = e.seconds) : d = e := by
  have hdays : d.days = e.days := by
    have h₁ := hd.seconds_mem
    have h₂ := he.seconds_mem
    omega
  have hyear : d.year = e.year := by
    have h₁ := hd.dayOfYear_mem
    have h₂ := he.dayOfYear_mem
    rw [days, days] at hdays
    rcases lt_trichotomy d.year e.year with hlt | heq | hlt
    · have := yearStart_lt hlt
      omega
    · exact heq
    · have := yearStart_lt hlt
      omega
  have hdoy : d.dayOfYear = e.dayOfYear := by
    rw [days, days, hyear] at hdays
    omega
  have hmonth : d.month = e.month := by
    have h₁ := hd.day
    have h₂ := he.day
    rw [dayOfYear, dayOfYear, hyear] at hdoy
    rw [hyear] at h₁
    rcases Nat.lt_trichotomy d.month e.month with hlt | heq | hlt
    · have := monthStart_lt hlt e.year
      omega
    · exact heq
    · have := monthStart_lt hlt e.year
      omega
  have hday : d.day = e.day := by
    rw [dayOfYear, dayOfYear, hyear, hmonth] at hdoy
    omega
  have hd₁ := hd.hour
  have hd₂ := hd.min
  have hd₃ := hd.sec
  have he₁ := he.hour
  have he₂ := he.min
  have he₃ := he.sec
  rw [seconds, seconds, hdays] at h
  have hhour : d.hour = e.hour := by omega
  have hmin : d.min = e.min := by omega
  have hsec : d.sec = e.sec := by omega
  rcases d with ⟨⟩
  rcases e with ⟨⟩
  simp only at *
  subst_vars
  rfl

end Date

end MyOS.Library.Calendar
