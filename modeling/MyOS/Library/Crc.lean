import Mathlib.Algebra.Polynomial.Div
import Mathlib.Data.BitVec
import Mathlib.Data.ZMod.Basic
import Mathlib.Tactic

/-! Cyclic redundancy checks: division of a message of bits by a polynomial, and the step for several bits at once. -/

namespace MyOS.Library.Crc

variable {w : ℕ} (g : BitVec w)

/-- One bit of the division: the register is shifted, and the generator without its leading term is subtracted if the
bit that is shifted out differs from that of the message. -/
def bitStep (r : BitVec w) (b : Bool) : BitVec w :=
  if (r.msb ^^ b) = true then (r <<< 1) ^^^ g else r <<< 1

def remainder (bits : List Bool) : BitVec w := bits.foldl (bitStep g) 0

def shiftStep (r : BitVec w) : BitVec w := if r.msb then (r <<< 1) ^^^ g else r <<< 1

def top (w : ℕ) : List Bool → BitVec w
  | [] => 0
  | b :: bs => (if b then BitVec.intMin w else 0) ^^^ (top w bs >>> 1)

variable {g} {r s : BitVec w} {bits : List Bool}

lemma shiftStep_xor : shiftStep g (r ^^^ s) = shiftStep g r ^^^ shiftStep g s := by
  unfold shiftStep
  rw [BitVec.msb_xor, BitVec.shiftLeft_xor_distrib]
  cases r.msb <;> cases s.msb
  · rfl
  · exact BitVec.xor_assoc _ _ _
  · change r <<< 1 ^^^ s <<< 1 ^^^ g = r <<< 1 ^^^ g ^^^ s <<< 1
    rw [BitVec.xor_assoc, BitVec.xor_comm (s <<< 1), ← BitVec.xor_assoc]
  · change r <<< 1 ^^^ s <<< 1 = r <<< 1 ^^^ g ^^^ (s <<< 1 ^^^ g)
    rw [BitVec.xor_comm (s <<< 1) g, BitVec.xor_assoc, ← BitVec.xor_assoc g g, BitVec.xor_self, BitVec.zero_xor]

lemma iterate_shiftStep_xor (n : ℕ) :
    (shiftStep g)^[n] (r ^^^ s) = (shiftStep g)^[n] r ^^^ (shiftStep g)^[n] s := by
  induction n generalizing r s with
  | zero => rfl
  | succ n ih => rw [Function.iterate_succ_apply, shiftStep_xor, ih]; rfl

lemma iterate_shiftStep_low {n : ℕ} (h : ∀ i, w - n ≤ i → r.getLsbD i = false) : (shiftStep g)^[n] r = r <<< n := by
  induction n generalizing r with
  | zero => simp
  | succ n ih =>
    have hm : r.msb = false := by
      rw [BitVec.msb_eq_getLsbD_last]
      exact h (w - 1) (by omega)
    have hs : shiftStep g r = r <<< 1 := by rw [shiftStep, hm]; rfl
    rw [Function.iterate_succ_apply, hs, ih, ← BitVec.shiftLeft_add, Nat.add_comm]
    intro i hi
    rw [BitVec.getLsbD_shiftLeft]
    by_cases hi0 : i < 1
    · simp [hi0]
    · rw [h (i - 1) (by omega), Bool.and_false]

lemma bitStep_eq (b : Bool) : bitStep g r b = shiftStep g (r ^^^ if b then BitVec.intMin w else 0) := by
  cases b
  · simp [bitStep, shiftStep]
  · rcases Nat.eq_zero_or_pos w with rfl | hw
    · exact Subsingleton.elim _ _
    · have hl : (BitVec.intMin w) <<< 1 = 0#w := by
        apply BitVec.eq_of_getLsbD_eq
        intro i hi
        rw [BitVec.getLsbD_shiftLeft, BitVec.getLsbD_intMin]
        simp
        omega
      simp only [bitStep, shiftStep, if_true, BitVec.shiftLeft_xor_distrib, hl, BitVec.msb_xor, BitVec.msb_intMin, hw,
        decide_true, BitVec.xor_zero]

lemma getLsbD_top {i : ℕ} (hi : i + bits.length < w) : (top w bits).getLsbD i = false := by
  induction bits generalizing i with
  | nil => simp [top]
  | cons b bits ih =>
    rw [List.length_cons] at hi
    have hr : (top w bits >>> 1).getLsbD i = false := by
      rw [BitVec.getLsbD_ushiftRight]
      exact ih (by omega)
    rw [top, BitVec.getLsbD_xor, hr, Bool.xor_false]
    split_ifs
    · rw [BitVec.getLsbD_intMin]
      simp
      omega
    · simp

lemma foldl_bitStep (h : bits.length ≤ w) :
    bits.foldl (bitStep g) r = (shiftStep g)^[bits.length] (r ^^^ top w bits) := by
  induction bits generalizing r with
  | nil => simp [top]
  | cons b bits ih =>
    rw [List.length_cons] at h
    have ht : top w bits = shiftStep g (top w bits >>> 1) := by
      have hm : (top w bits >>> 1).msb = false := by
        rw [BitVec.msb_eq_getLsbD_last, BitVec.getLsbD_ushiftRight]
        exact BitVec.getLsbD_of_ge _ _ (by omega)
      rw [shiftStep, hm]
      apply BitVec.eq_of_getLsbD_eq
      intro i hi
      rw [if_neg (by simp), BitVec.getLsbD_shiftLeft, BitVec.getLsbD_ushiftRight]
      rcases Nat.eq_zero_or_pos i with rfl | hpos
      · simpa using @getLsbD_top w bits 0 (by omega)
      · have hi1 : 1 + (i - 1) = i := by omega
        simp [hi, hpos.ne', hi1]
    rw [List.foldl_cons, ih (by omega), bitStep_eq, ht, ← shiftStep_xor, ← Function.iterate_succ_apply, top,
      BitVec.xor_assoc]
    rfl

section Polynomials

open Polynomial

noncomputable def poly (r : BitVec w) : (ZMod 2)[X] := ∑ i ∈ Finset.range w, C (if r.getLsbD i then 1 else 0) * X ^ i

noncomputable def message (bits : List Bool) : (ZMod 2)[X] :=
  bits.foldl (fun p b => p * X + C (if b then 1 else 0)) 0

variable (g) in
noncomputable def generator : (ZMod 2)[X] := X ^ w + poly g

lemma coeff_poly (i : ℕ) : (poly r).coeff i = if r.getLsbD i then 1 else 0 := by
  rw [poly, finsetSum_coeff]
  simp only [coeff_C_mul, coeff_X_pow]
  by_cases hi : i < w
  · rw [Finset.sum_eq_single i]
    · simp
    · intro j _ hj
      simp [hj.symm]
    · intro hn
      exact absurd (Finset.mem_range.2 hi) hn
  · rw [BitVec.getLsbD_of_ge r i (not_lt.1 hi)]
    apply Finset.sum_eq_zero
    intro j hj
    have := Finset.mem_range.1 hj
    simp [show i ≠ j by omega]

lemma degree_poly : (poly r).degree < (w : WithBot ℕ) := by
  rw [degree_lt_iff_coeff_zero]
  intro i hi
  rw [coeff_poly, BitVec.getLsbD_of_ge r i hi]
  rfl

lemma poly_xor : poly (r ^^^ s) = poly r + poly s := by
  ext i
  rw [coeff_add, coeff_poly, coeff_poly, coeff_poly, BitVec.getLsbD_xor]
  cases r.getLsbD i <;> cases s.getLsbD i <;> decide

lemma poly_zero : poly 0#w = 0 := by
  ext i
  simp [coeff_poly]

lemma monic_generator : (generator g).Monic := monic_X_pow_add degree_poly

lemma degree_generator : (generator g).degree = w := by
  rw [generator, degree_add_eq_left_of_degree_lt]
  · exact degree_X_pow w
  · rw [degree_X_pow]
    exact degree_poly

lemma poly_shiftLeft (hw : 0 < w) : poly (r <<< 1) + C (if r.msb then 1 else 0) * X ^ w = poly r * X := by
  ext i
  rw [coeff_add, coeff_poly, coeff_C_mul, coeff_X_pow, BitVec.getLsbD_shiftLeft, BitVec.msb_eq_getLsbD_last]
  cases i with
  | zero => simp [hw.ne]
  | succ i =>
    rw [coeff_mul_X, coeff_poly]
    rcases lt_trichotomy (i + 1) w with h | h | h
    · simp [h, h.ne]
    · subst h
      simp
    · simp [BitVec.getLsbD_of_ge r i (by omega), h.ne', h.not_gt]

lemma poly_bitStep (hw : 0 < w) (b : Bool) : ∃ q, poly r * X + C (if b then 1 else 0) * X ^ w =
    poly (bitStep g r b) + generator g * q := by
  have hs := poly_shiftLeft (r := r) hw
  rw [← hs, bitStep]
  have htwo : (X ^ w + X ^ w : (ZMod 2)[X]) = 0 := CharTwo.add_self_eq_zero _
  have hpoly : (poly g + poly g : (ZMod 2)[X]) = 0 := CharTwo.add_self_eq_zero _
  cases r.msb <;> cases b
  · exact ⟨0, by simp⟩
  · refine ⟨1, ?_⟩
    simp only [Bool.false_xor, if_true, poly_xor, generator, Bool.false_eq_true, if_false, map_zero, map_one]
    linear_combination -hpoly
  · refine ⟨1, ?_⟩
    simp only [Bool.xor_false, if_true, poly_xor, generator, Bool.false_eq_true, if_false, map_zero, map_one]
    linear_combination -hpoly
  · refine ⟨0, ?_⟩
    simp only [Bool.xor_self, if_true, if_false, Bool.false_eq_true, map_one]
    linear_combination htwo

/-- The register is the remainder of the division by the generator, with as many zero bits behind the message as the
register has. -/
theorem poly_remainder (hw : 0 < w) (bits : List Bool) :
    poly (remainder g bits) = (message bits * X ^ w) %ₘ generator g := by
  have hq : ∃ q, poly (remainder g bits) + generator g * q = message bits * X ^ w := by
    induction bits using List.reverseRecOn with
    | nil => exact ⟨0, by simp [remainder, message, poly_zero]⟩
    | append_singleton bits b ih =>
      obtain ⟨q, hq⟩ := ih
      obtain ⟨p, hp⟩ := poly_bitStep (g := g) (r := remainder g bits) hw b
      have hr : remainder g (bits ++ [b]) = bitStep g (remainder g bits) b := List.foldl_concat _ _ _ _
      have hm : message (bits ++ [b]) = message bits * X + C (if b then 1 else 0) := List.foldl_concat _ _ _ _
      refine ⟨p + q * X, ?_⟩
      rw [hr, hm]
      linear_combination hq * X - hp
  obtain ⟨q, hq⟩ := hq
  refine ((div_modByMonic_unique q _ monic_generator ⟨hq, ?_⟩).2).symm
  rw [degree_generator]
  exact degree_poly

end Polynomials

end MyOS.Library.Crc
