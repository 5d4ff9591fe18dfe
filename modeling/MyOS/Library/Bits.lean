import Mathlib.Tactic

/-! Bits that a change of a word leaves alone: `bit` is what may change, `k` what is looked at. -/

namespace MyOS.Library

variable {w : ℕ} {k bit mask x : BitVec w}

lemma and_and_of_disjoint (h : bit &&& k = 0) : (x &&& bit) &&& k = 0 := by
  rw [BitVec.and_assoc, h]
  exact BitVec.and_zero

lemma and_of_mask (hm : bit &&& mask = bit) (h : mask &&& k = 0) : bit &&& k = 0 := by
  rw [← hm, BitVec.and_assoc, h]
  exact BitVec.and_zero

lemma or_and_of_disjoint (h : bit &&& k = 0) : (x ||| bit) &&& k = x &&& k := by
  rw [BitVec.and_or_distrib_right, h]
  exact BitVec.or_zero

lemma and_not_and_of_disjoint (h : bit &&& k = 0) : (x &&& ~~~bit) &&& k = x &&& k := by
  ext i hi
  have hb : (bit[i] && k[i]) = false := by
    rw [← BitVec.getElem_and, h]
    exact BitVec.getElem_zero hi
  rw [BitVec.getElem_and, BitVec.getElem_and, BitVec.getElem_not, BitVec.getElem_and]
  revert hb
  generalize bit[i] = u
  generalize k[i] = v
  cases u <;> cases v <;> simp

lemma and_not_of_disjoint (h : x &&& bit = 0) : x &&& ~~~bit = x := by
  have hx : bit &&& x = 0 := by
    rw [BitVec.and_comm]
    exact h
  have hself := and_not_and_of_disjoint (x := x) hx
  rwa [BitVec.and_self, BitVec.and_comm, ← BitVec.and_assoc, BitVec.and_self] at hself

end MyOS.Library

/-! Bits in an array of bytes: bit `i` is in byte `i / 8`. -/

namespace MyOS.Library.Bitmap

open Function

variable (m : ℕ → UInt8) (i : ℕ)

def test : Bool := (m (i / 8) >>> UInt8.ofNat (i % 8)) &&& 1 = 1

def set : ℕ → UInt8 := update m (i / 8) (m (i / 8) ||| 1 <<< UInt8.ofNat (i % 8))

def clear : ℕ → UInt8 := update m (i / 8) (m (i / 8) &&& ~~~(1 <<< UInt8.ofNat (i % 8)))

variable {m i} {j : ℕ}

lemma shift_and_one (v : UInt8) {r : ℕ} (hr : r < 8) :
    decide ((v >>> UInt8.ofNat r) &&& 1 = 1) = v.toBitVec.getLsbD r := by
  have hbits : (v >>> UInt8.ofNat r &&& 1).toBitVec = v.toBitVec >>> r &&& 1#8 := by
    rw [UInt8.toBitVec_and, UInt8.toBitVec_shiftRight]
    interval_cases r <;> rfl
  rw [Bool.eq_iff_iff, decide_eq_true_eq, ← UInt8.toBitVec_inj, hbits]
  constructor
  · intro h
    have hzero := congrArg (fun w => w.getLsbD 0) h
    simpa using hzero
  · intro h
    apply BitVec.eq_of_getLsbD_eq
    intro k hk
    rcases Nat.eq_zero_or_pos k with rfl | hpos
    · simpa using h
    · simp [BitVec.getLsbD_one, Nat.pos_iff_ne_zero.1 hpos]

lemma one_shiftLeft {r s : ℕ} (hr : r < 8) (hs : s < 8) :
    (1 <<< UInt8.ofNat r : UInt8).toBitVec.getLsbD s = decide (s = r) := by
  interval_cases r <;> interval_cases s <;> rfl

lemma test_eq (m : ℕ → UInt8) (i : ℕ) : test m i = (m (i / 8)).toBitVec.getLsbD (i % 8) :=
  shift_and_one _ (Nat.mod_lt i (by decide))

lemma eq_of_div_mod (hd : j / 8 = i / 8) (hm : j % 8 = i % 8) : j = i := by omega

lemma test_set : test (set m i) j = (decide (j = i) || test m j) := by
  rw [test_eq, test_eq, set]
  by_cases hd : j / 8 = i / 8
  · rw [hd, update_self, UInt8.toBitVec_or, BitVec.getLsbD_or,
      one_shiftLeft (Nat.mod_lt i (by decide)) (Nat.mod_lt j (by decide)), Bool.or_comm]
    congr 2
    exact propext ⟨eq_of_div_mod hd, congrArg (· % 8)⟩
  · have hne : j ≠ i := fun h => hd (congrArg (· / 8) h)
    rw [update_of_ne hd, decide_eq_false hne, Bool.false_or]

lemma test_clear : test (clear m i) j = (!decide (j = i) && test m j) := by
  rw [test_eq, test_eq, clear]
  by_cases hd : j / 8 = i / 8
  · have hlt : j % 8 < 8 := Nat.mod_lt j (by decide)
    rw [hd, update_self, UInt8.toBitVec_and, UInt8.toBitVec_not, BitVec.getLsbD_and, BitVec.getLsbD_not,
      one_shiftLeft (Nat.mod_lt i (by decide)) hlt, Bool.and_comm, decide_eq_true hlt, Bool.true_and]
    congr 3
    exact propext ⟨eq_of_div_mod hd, congrArg (· % 8)⟩
  · have hne : j ≠ i := fun h => hd (congrArg (· / 8) h)
    rw [update_of_ne hd, decide_eq_false hne, Bool.not_false, Bool.true_and]

end MyOS.Library.Bitmap
