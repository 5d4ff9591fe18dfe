import Mathlib.Data.List.TakeWhile
import Mathlib.Tactic

/-! `strtoul` and `strtol`. -/

namespace MyOS.User.Strtol

/-! A character above 127 is negative and in none of these classes, as none of its values is here. -/

def isspace (c : UInt8) : Bool := c = 32 || 9 ≤ c && c ≤ 13
def isdigit (c : UInt8) : Bool := 48 ≤ c && c ≤ 57
def isupper (c : UInt8) : Bool := 65 ≤ c && c ≤ 90
def islower (c : UInt8) : Bool := 97 ≤ c && c ≤ 122
def isalpha (c : UInt8) : Bool := isupper c || islower c
def isxdigit (c : UInt8) : Bool := isdigit c || 97 ≤ c && c ≤ 102 || 65 ≤ c && c ≤ 70
def tolower (c : UInt8) : UInt8 := if isupper c then c + 32 else c

def ulongMax : ℕ := 2 ^ 64 - 1
def int64Max : ℕ := 2 ^ 63 - 1

abbrev Str := List UInt8

def skipSpaces : Str → Str
  | [] => []
  | c :: p => if isspace c then skipSpaces p else c :: p

def at0 (p : Str) (i : ℕ) : UInt8 := p.getD i 0

def digit (c : UInt8) : Option ℕ :=
  if isdigit c then some (c - 48).toNat else if isalpha c then some ((tolower c - 97).toNat + 10) else none

structure Scan where
  p : Str
  v : ℕ
  overflow : Bool

def digitLoop (base : ℕ) : Str → ℕ → Bool → Scan
  | [], v, overflow => ⟨[], v, overflow⟩
  | c :: p, v, overflow =>
    match digit c with
    | none => ⟨c :: p, v, overflow⟩
    | some d =>
      if d ≥ base then ⟨c :: p, v, overflow⟩
      else digitLoop base p ((v * base + d) % 2 ^ 64) (overflow || decide (v > (ulongMax - d) / base))

def takePrefix (base : ℕ) (p : Str) : ℕ × Str :=
  if (base = 0 ∨ base = 16) ∧ at0 p 0 = 48 ∧ (at0 p 1 = 120 ∨ at0 p 1 = 88) ∧ isxdigit (at0 p 2) = true then
    (16, p.drop 2)
  else if base = 0 then (if at0 p 0 = 48 then 8 else 10, p)
  else (base, p)

structure Parsed (α : Type) where
  value : α
  stop : ℕ
  erange : Bool

def neg64 (n : ℕ) : ℕ := (2 ^ 64 - n) % 2 ^ 64

def strtoul (s : Str) (base : ℕ) : Parsed ℕ :=
  let p := skipSpaces s
  let neg := decide (at0 p 0 = 45)
  let p := if at0 p 0 = 43 ∨ at0 p 0 = 45 then p.drop 1 else p
  let (base, start) := takePrefix base p
  let r := digitLoop base start 0 false
  let stop := if r.p.length = start.length then 0 else s.length - r.p.length
  if r.overflow then ⟨ulongMax, stop, true⟩
  else ⟨if neg then neg64 r.v else r.v, stop, false⟩

def toLong (n : ℕ) : ℤ := if n < 2 ^ 63 then n else (n : ℤ) - 2 ^ 64

def toSigned (neg : Bool) (u : Parsed ℕ) : Parsed ℤ :=
  let mag := if neg then neg64 u.value else u.value
  if neg = false ∧ mag > int64Max then ⟨int64Max, u.stop, true⟩
  else if neg = true ∧ mag > int64Max + 1 then ⟨-2 ^ 63, u.stop, true⟩
  else ⟨if neg then -toLong ((mag + 2 ^ 64 - 1) % 2 ^ 64) - 1 else toLong mag, u.stop, u.erange⟩

def strtol (s : Str) (base : ℕ) : Parsed ℤ := toSigned (decide (at0 (skipSpaces s) 0 = 45)) (strtoul s base)

section Reference

def validIn (base : ℕ) (c : UInt8) : Bool :=
  match digit c with
  | none => false
  | some d => decide (d < base)

/-- A numeral: white space, a sign, a prefix and the digits, which are as many as there are. -/
structure Numeral where
  neg : Bool
  base : ℕ
  digits : List ℕ
  rest : Str

def numeral (s : Str) (base : ℕ) : Numeral :=
  let p := s.dropWhile isspace
  let signed := p.head? = some 43 ∨ p.head? = some 45
  let q := takePrefix base (if signed then p.tail else p)
  { neg := decide (p.head? = some 45)
    base := q.1
    digits := (q.2.takeWhile (validIn q.1)).filterMap digit
    rest := q.2.dropWhile (validIn q.1) }

namespace Numeral

variable (k : Numeral)

def magnitude : ℕ := k.digits.foldl (fun v d => v * k.base + d) 0

def value : ℤ := if k.neg then -(k.magnitude : ℤ) else k.magnitude

end Numeral

structure UnsignedMeets (s : Str) (base : ℕ) : Prop where
  stop : (strtoul s base).stop =
    if (numeral s base).digits = [] then 0 else s.length - (numeral s base).rest.length
  value : ((strtoul s base).value : ℤ) =
    if 2 ^ 64 ≤ (numeral s base).magnitude then 2 ^ 64 - 1 else (numeral s base).value % 2 ^ 64
  erange : (strtoul s base).erange = true ↔ 2 ^ 64 ≤ (numeral s base).magnitude

structure SignedMeets (s : Str) (base : ℕ) : Prop where
  value : (strtol s base).value = max (-2 ^ 63) (min (2 ^ 63 - 1) (numeral s base).value)
  erange : (strtol s base).erange = true ↔
    (numeral s base).value < -2 ^ 63 ∨ 2 ^ 63 - 1 < (numeral s base).value

end Reference

variable {base v V d : ℕ} {overflow : Bool} {p s : Str}

def Tracks (v : ℕ) (overflow : Bool) (V : ℕ) : Prop := (overflow = true ↔ 2 ^ 64 ≤ V) ∧ (V < 2 ^ 64 → v = V)

lemma Tracks.step (h : Tracks v overflow V) (hd : d < base) (hbase : base ≤ 36) :
    Tracks ((v * base + d) % 2 ^ 64) (overflow || decide (v > (ulongMax - d) / base)) (V * base + d) := by
  have hb : 0 < base := Nat.zero_lt_of_lt hd
  have hle : V ≤ V * base := Nat.le_mul_of_pos_right V hb
  rcases Nat.lt_or_ge V (2 ^ 64) with hV | hV
  · obtain rfl := h.2 hV
    have ho : overflow = false := by
      rw [← Bool.not_eq_true, h.1]
      exact not_le.2 hV
    have hgt : v > (ulongMax - d) / base ↔ 2 ^ 64 ≤ v * base + d := by
      rw [gt_iff_lt, Nat.div_lt_iff_lt_mul hb, ulongMax]
      omega
    constructor
    · rw [ho, Bool.false_or, decide_eq_true_iff, hgt]
    · exact Nat.mod_eq_of_lt
  · constructor
    · rw [h.1.2 hV, Bool.true_or]
      exact iff_of_true rfl (by omega)
    · intro hlt
      omega

def leading (base : ℕ) (p : Str) : List ℕ := (p.takeWhile (validIn base)).filterMap digit

lemma digitLoop_tracks (hbase : base ≤ 36) (h : Tracks v overflow V) :
    (digitLoop base p v overflow).p = p.dropWhile (validIn base) ∧
      Tracks (digitLoop base p v overflow).v (digitLoop base p v overflow).overflow
        ((leading base p).foldl (fun v d => v * base + d) V) := by
  induction p generalizing v overflow V with
  | nil => exact ⟨rfl, h⟩
  | cons c p ih =>
    cases hc : digit c with
    | none =>
      have hv : validIn base c = false := by rw [validIn, hc]
      rw [digitLoop, leading, List.takeWhile_cons_of_neg (by simp [hv]), List.dropWhile_cons_of_neg (by simp [hv])]
      simp only [hc]
      exact ⟨trivial, h⟩
    | some d =>
      have hv : validIn base c = decide (d < base) := by rw [validIn, hc]
      by_cases hd : d < base
      · rw [digitLoop, leading, List.takeWhile_cons_of_pos (by simp [hv, hd]),
          List.dropWhile_cons_of_pos (by simp [hv, hd]), List.filterMap_cons_some hc, List.foldl_cons]
        simp only [hc, ge_iff_le, not_le.2 hd, if_false]
        exact ih (h.step hd hbase)
      · rw [digitLoop, leading, List.takeWhile_cons_of_neg (by simp [hv, hd]),
          List.dropWhile_cons_of_neg (by simp [hv, hd])]
        simp only [hc, ge_iff_le, not_lt.1 hd, if_true]
        exact ⟨trivial, h⟩

lemma skipSpaces_eq (s : Str) : skipSpaces s = s.dropWhile isspace := by
  induction s with
  | nil => rfl
  | cons c s ih => rw [skipSpaces, List.dropWhile_cons, ih]

lemma at0_zero {c : UInt8} (hc : c ≠ 0) : at0 p 0 = c ↔ p.head? = some c := by
  cases p with
  | nil => simpa [at0] using hc.symm
  | cons b p => simp [at0]

lemma takePrefix_base (h : base = 0 ∨ 2 ≤ base ∧ base ≤ 36) : (takePrefix base p).1 ≤ 36 := by
  rw [takePrefix]
  split_ifs
  all_goals
    simp only
    omega

lemma leading_eq_nil : leading base p = [] ↔ (p.dropWhile (validIn base)).length = p.length := by
  have hlen := congrArg List.length (List.takeWhile_append_dropWhile (p := validIn base) (l := p))
  rw [List.length_append] at hlen
  have hdig : (leading base p).length = (p.takeWhile (validIn base)).length := by
    rw [leading]
    have hall : ∀ c ∈ p.takeWhile (validIn base), (digit c).isSome = true := by
      intro c hc
      have hv := List.mem_takeWhile_imp hc
      rw [validIn] at hv
      cases hd : digit c with
      | none => simp [hd] at hv
      | some d => rfl
    rw [List.length_filterMap_eq_countP, List.countP_eq_length]
    exact hall
  rw [← List.length_eq_zero_iff, hdig]
  omega

lemma strtoul_scan (s : Str) (h : base = 0 ∨ 2 ≤ base ∧ base ≤ 36) : ∃ r : Scan,
    r.p = (numeral s base).rest ∧ Tracks r.v r.overflow (numeral s base).magnitude ∧
      strtoul s base =
        ⟨if r.overflow then ulongMax else if (numeral s base).neg then neg64 r.v else r.v,
          if (numeral s base).digits = [] then 0 else s.length - r.p.length, r.overflow⟩ := by
  have hstart : (if at0 (skipSpaces s) 0 = 43 ∨ at0 (skipSpaces s) 0 = 45 then (skipSpaces s).drop 1 else skipSpaces s) =
      if (s.dropWhile isspace).head? = some 43 ∨ (s.dropWhile isspace).head? = some 45 then (s.dropWhile isspace).tail
      else s.dropWhile isspace := by
    simp only [skipSpaces_eq, at0_zero (show (43 : UInt8) ≠ 0 by decide),
      at0_zero (show (45 : UInt8) ≠ 0 by decide), List.drop_one]
  set q := takePrefix base (if (s.dropWhile isspace).head? = some 43 ∨ (s.dropWhile isspace).head? = some 45 then
    (s.dropWhile isspace).tail else s.dropWhile isspace) with hq
  have hzero : Tracks 0 false 0 := ⟨by decide, fun _ => rfl⟩
  have hbase : q.1 ≤ 36 := takePrefix_base h
  obtain ⟨hp, ht⟩ := digitLoop_tracks (p := q.2) hbase hzero
  refine ⟨digitLoop q.1 q.2 0 false, hp, ht, ?_⟩
  have hneg : decide (at0 (skipSpaces s) 0 = 45) = (numeral s base).neg := by
    rw [skipSpaces_eq, numeral]
    exact decide_eq_decide.2 (at0_zero (by decide))
  have hdigits : (numeral s base).digits = [] ↔ (digitLoop q.1 q.2 0 false).p.length = q.2.length := by
    rw [hp]
    exact leading_eq_nil
  rw [strtoul]
  simp only [hstart, ← hq, hneg, hdigits]
  cases (digitLoop q.1 q.2 0 false).overflow <;> rfl

lemma unsigned_meets (s : Str) (h : base = 0 ∨ 2 ≤ base ∧ base ≤ 36) : UnsignedMeets s base := by
  obtain ⟨r, hp, ⟨ho, hv⟩, hr⟩ := strtoul_scan s h
  constructor
  · rw [hr, hp]
  · rw [hr]
    rcases Nat.lt_or_ge (numeral s base).magnitude (2 ^ 64) with hm | hm
    · have hoff : r.overflow = false := by
        rw [← Bool.not_eq_true, ho]
        exact not_le.2 hm
      rw [hoff, if_neg (not_le.2 hm), hv hm, Numeral.value]
      cases (numeral s base).neg <;> simp only [if_true, Bool.false_eq_true, if_false, neg64] <;> omega
    · rw [ho.2 hm, if_pos hm, if_pos rfl]
      rfl
  · rw [hr]
    exact ho

def clamp (x : ℤ) : ℤ := max (-2 ^ 63) (min (2 ^ 63 - 1) x)

lemma toSigned_of_lt {n : ℕ} (neg : Bool) (stop : ℕ) (hn : n < 2 ^ 64) :
    toSigned neg ⟨if neg then neg64 n else n, stop, false⟩ =
      ⟨clamp (if neg then -(n : ℤ) else n), stop,
        decide ((if neg then -(n : ℤ) else n) < -2 ^ 63 ∨ 2 ^ 63 - 1 < if neg then -(n : ℤ) else n)⟩ := by
  cases neg
  · simp only [toSigned, Bool.false_eq_true, if_false, true_and, false_and, int64Max, toLong, clamp]
    by_cases hc : n > 2 ^ 63 - 1
    · rw [if_pos hc, Parsed.mk.injEq]
      exact ⟨by omega, rfl, (decide_eq_true (by omega)).symm⟩
    · rw [if_neg hc, if_pos (by omega), Parsed.mk.injEq]
      exact ⟨by omega, rfl, (decide_eq_false (by omega)).symm⟩
  · have hmag : neg64 (neg64 n) = n := by
      rw [neg64, neg64]
      omega
    simp only [toSigned, if_true, Bool.true_eq_false, false_and, if_false, true_and, hmag, int64Max, toLong, clamp]
    by_cases hc : n > 2 ^ 63 - 1 + 1
    · rw [if_pos hc, Parsed.mk.injEq]
      exact ⟨by omega, rfl, (decide_eq_true (by omega)).symm⟩
    · rw [if_neg hc, Parsed.mk.injEq]
      refine ⟨?_, rfl, (decide_eq_false (by omega)).symm⟩
      split_ifs <;> omega

lemma toSigned_saturated (neg : Bool) (stop : ℕ) :
    toSigned neg ⟨ulongMax, stop, true⟩ = ⟨if neg then -1 else 2 ^ 63 - 1, stop, true⟩ := by
  cases neg
  · simp only [toSigned, Bool.false_eq_true, if_false, true_and, ulongMax, int64Max]
    rw [if_pos (by norm_num), Parsed.mk.injEq]
    exact ⟨by norm_num, rfl, rfl⟩
  · have hone : neg64 ulongMax = 1 := by norm_num [neg64, ulongMax]
    simp only [toSigned, if_true, Bool.true_eq_false, false_and, if_false, true_and, hone, int64Max, toLong]
    rw [if_neg (by norm_num), Parsed.mk.injEq]
    exact ⟨by norm_num, rfl, rfl⟩

lemma signed_meets_iff (s : Str) (h : base = 0 ∨ 2 ≤ base ∧ base ≤ 36) :
    SignedMeets s base ↔ ((numeral s base).neg = true → (numeral s base).magnitude < 2 ^ 64) := by
  obtain ⟨r, hp, ⟨ho, hv⟩, hr⟩ := strtoul_scan s h
  have hneg : decide (at0 (skipSpaces s) 0 = 45) = (numeral s base).neg := by
    rw [skipSpaces_eq, numeral]
    exact decide_eq_decide.2 (at0_zero (by decide))
  have hval : (numeral s base).value =
      if (numeral s base).neg then -((numeral s base).magnitude : ℤ) else (numeral s base).magnitude := rfl
  rcases Nat.lt_or_ge (numeral s base).magnitude (2 ^ 64) with hm | hm
  · have hoff : r.overflow = false := by
      rw [← Bool.not_eq_true, ho]
      exact not_le.2 hm
    obtain ⟨stop, hl⟩ : ∃ stop, strtol s base = toSigned (numeral s base).neg ⟨if (numeral s base).neg then
        neg64 (numeral s base).magnitude else (numeral s base).magnitude, stop, false⟩ :=
      ⟨_, by rw [strtol, hneg, hr, hoff, if_neg (by decide), hv hm]⟩
    rw [toSigned_of_lt _ _ hm] at hl
    refine iff_of_true ⟨?_, ?_⟩ fun _ => hm
    · rw [hl, ← hval]
      rfl
    · rw [hl, ← hval, decide_eq_true_iff]
  · obtain ⟨stop, hl⟩ : ∃ stop, strtol s base = toSigned (numeral s base).neg ⟨ulongMax, stop, true⟩ :=
      ⟨_, by rw [strtol, hneg, hr, ho.2 hm, if_pos rfl]⟩
    rw [toSigned_saturated] at hl
    cases hn : (numeral s base).neg with
    | false =>
      rw [hn] at hval
      refine iff_of_true ⟨?_, ?_⟩ fun hf => Bool.noConfusion hf
      · rw [hl, hval, hn]
        simp only [Bool.false_eq_true, if_false]
        omega
      · rw [hl, hval]
        exact iff_of_true rfl (by simp only [Bool.false_eq_true, if_false]; omega)
    | true =>
      rw [hn] at hval
      refine iff_of_false (fun hs => ?_) fun hlt => absurd (hlt rfl) (not_lt.2 hm)
      have hs := hs.value
      rw [hl, hval, hn] at hs
      simp only [if_true] at hs
      omega

def Meets (s : Str) (base : ℕ) : Prop := UnsignedMeets s base ∧ SignedMeets s base

theorem meets_iff (s : Str) (h : base = 0 ∨ 2 ≤ base ∧ base ≤ 36) :
    Meets s base ↔ ((numeral s base).neg = true → (numeral s base).magnitude < 2 ^ 64) := by
  rw [Meets, and_iff_right (unsigned_meets s h), signed_meets_iff s h]

theorem meets_iff_minus_five : Meets [32, 45, 53] 0 ↔
    ((numeral [32, 45, 53] 0).neg = true → (numeral [32, 45, 53] 0).magnitude < 2 ^ 64) :=
  meets_iff [32, 45, 53] (Or.inl rfl)

theorem not_meets_saturated : ¬ ∀ s base, base = 0 ∨ 2 ≤ base ∧ base ≤ 36 → Meets s base := by
  intro h
  have hs := (h [45, 49, 56, 52, 52, 54, 55, 52, 52, 48, 55, 51, 55, 48, 57, 53, 53, 49, 54, 49, 54] 10
    (by decide)).2.value
  revert hs
  decide +kernel

end MyOS.User.Strtol
