import Mathlib.Tactic
import Mathlib.Data.Nat.Bitwise

/-! Aligned blocks whose length is a power of two: halves, buddies, and how often a
list of blocks covers a point. -/

namespace MyOS.Library.Dyadic

structure Block where
  base : ℕ
  order : ℕ
  deriving DecidableEq, Repr

def Block.stop (b : Block) : ℕ := b.base + 2 ^ b.order

def Block.Aligned (b : Block) : Prop := 2 ^ b.order ∣ b.base

abbrev Block.Contains (b : Block) (q : ℕ) : Prop := b.base ≤ q ∧ q < b.base + 2 ^ b.order

def Block.Apart (b c : Block) : Prop := ∀ q, ¬ (b.Contains q ∧ c.Contains q)

lemma Block.contains_base (b : Block) : b.Contains b.base :=
  ⟨le_rfl, Nat.lt_add_of_pos_right (Nat.two_pow_pos _)⟩

lemma Block.apart_iff {b c : Block} : b.Apart c ↔ b.stop ≤ c.base ∨ c.stop ≤ b.base := by
  have hb := Nat.two_pow_pos b.order
  have hc := Nat.two_pow_pos c.order
  simp only [Block.stop]
  constructor
  · intro h
    by_contra hne
    exact h (max b.base c.base) (by simp only [Block.Contains]; omega)
  · rintro h q ⟨⟨_, _⟩, _, _⟩
    omega

instance (b c : Block) : Decidable (b.Apart c) := decidable_of_iff _ Block.apart_iff.symm

section Buddies

variable {p o : ℕ}

lemma testBit_of_even (h : 2 ^ (o + 1) ∣ p) : p.testBit o = false := by
  obtain ⟨k, rfl⟩ := h
  simp [Nat.testBit_two_pow_mul]

lemma xor_of_even (h : 2 ^ (o + 1) ∣ p) : p ^^^ 2 ^ o = p + 2 ^ o := by
  obtain ⟨k, rfl⟩ := h
  have hlt : 2 ^ o < 2 ^ (o + 1) := Nat.pow_lt_pow_right (by omega) (by omega)
  rw [Nat.two_pow_add_eq_or_of_lt hlt]
  apply Nat.eq_of_testBit_eq
  intro i
  rw [Nat.testBit_xor, Nat.testBit_or, Nat.testBit_two_pow_mul, Nat.testBit_two_pow]
  by_cases hi : o = i
  · subst hi; simp
  · simp [hi]

lemma odd_split (h : 2 ^ o ∣ p) (hodd : ¬ 2 ^ (o + 1) ∣ p) :
    ∃ r, 2 ^ (o + 1) ∣ r ∧ p = r + 2 ^ o := by
  obtain ⟨k, rfl⟩ := h
  have hk : k % 2 = 1 := by
    by_contra hk
    exact hodd ⟨k / 2, by rw [pow_succ, mul_assoc, Nat.mul_div_cancel' (by omega)]⟩
  refine ⟨2 ^ (o + 1) * (k / 2), dvd_mul_right _ _, ?_⟩
  calc 2 ^ o * k = 2 ^ o * (2 * (k / 2) + 1) := by congr 1; omega
    _ = 2 ^ (o + 1) * (k / 2) + 2 ^ o := by ring

lemma xor_cancel (p b : ℕ) : (p ^^^ b) ^^^ b = p := by
  rw [Nat.xor_assoc, Nat.xor_self, Nat.xor_zero]

lemma xor_of_odd {r : ℕ} (h : 2 ^ (o + 1) ∣ r) : (r + 2 ^ o) ^^^ 2 ^ o = r := by
  rw [← xor_of_even h, xor_cancel]

lemma dvd_of_succ (h : 2 ^ (o + 1) ∣ p) : 2 ^ o ∣ p :=
  (pow_dvd_pow 2 (Nat.le_succ o)).trans h

lemma half_cases (h : 2 ^ o ∣ p) :
    (2 ^ (o + 1) ∣ p ∧ p ^^^ 2 ^ o = p + 2 ^ o) ∨
      ∃ r, 2 ^ (o + 1) ∣ r ∧ p = r + 2 ^ o ∧ p ^^^ 2 ^ o = r := by
  by_cases he : 2 ^ (o + 1) ∣ p
  · exact Or.inl ⟨he, xor_of_even he⟩
  · obtain ⟨r, hr, rfl⟩ := odd_split h he
    exact Or.inr ⟨r, hr, rfl, xor_of_odd hr⟩

def clearBit (p o : ℕ) : ℕ := p ^^^ (p &&& 2 ^ o)

lemma clearBit_of_even (h : 2 ^ (o + 1) ∣ p) : clearBit p o = p := by
  rw [clearBit, Nat.and_two_pow, testBit_of_even h]
  simp

lemma clearBit_of_odd {r : ℕ} (h : 2 ^ (o + 1) ∣ r) : clearBit (r + 2 ^ o) o = r := by
  have ht : (r + 2 ^ o).testBit o = true := by
    rw [← xor_of_even h, Nat.testBit_xor, testBit_of_even h, Nat.testBit_two_pow_self]
    rfl
  rw [clearBit, Nat.and_two_pow, ht]
  simpa using xor_of_odd h

end Buddies

section Nested

variable {b c : Block}

lemma Block.order_lt (hb : b.Aligned) (hc : c.Aligned) (h : c.Contains b.base) (hne : c.base ≠ b.base) :
    b.order < c.order := by
  by_contra hle
  obtain ⟨i, hi⟩ := (pow_dvd_pow 2 (not_lt.1 hle)).trans hb
  obtain ⟨j, hj⟩ := hc
  obtain ⟨hlo, hhi⟩ := h
  have hlt : c.base < b.base := lt_of_le_of_ne hlo hne
  rw [hi, hj] at hlt
  have hij : j + 1 ≤ i := Nat.lt_of_mul_lt_mul_left hlt
  have := Nat.mul_le_mul_left (2 ^ c.order) hij
  rw [Nat.mul_add, mul_one] at this
  omega

lemma Block.contains_buddy (hb : b.Aligned) (hc : c.Aligned) (ho : b.order < c.order) (h : c.Contains b.base) :
    c.Contains (b.base ^^^ 2 ^ b.order) := by
  have hd : 2 ^ (b.order + 1) ∣ 2 ^ c.order := pow_dvd_pow 2 ho
  obtain ⟨j, hj⟩ := hd.trans hc
  obtain ⟨n, hn⟩ := hd
  have h2 : 2 ^ (b.order + 1) = 2 ^ b.order + 2 ^ b.order := by ring
  have hpos := Nat.two_pow_pos b.order
  obtain ⟨hlo, hhi⟩ := h
  rcases half_cases hb with ⟨⟨i, hi⟩, hx⟩ | ⟨r, ⟨i, hi⟩, hr, hx⟩
  · have hlt : i < j + n := by
      rw [hi, hj, hn, ← Nat.mul_add] at hhi
      exact Nat.lt_of_mul_lt_mul_left hhi
    have := Nat.mul_le_mul_left (2 ^ (b.order + 1)) hlt
    rw [Nat.mul_add, Nat.mul_succ] at this
    rw [hx, Block.Contains]
    omega
  · have hle : j ≤ i := by
      by_contra hlt
      have := Nat.mul_le_mul_left (2 ^ (b.order + 1)) (not_le.1 hlt)
      rw [Nat.mul_succ] at this
      omega
    have := Nat.mul_le_mul_left (2 ^ (b.order + 1)) hle
    rw [hx, Block.Contains]
    omega

end Nested

def coverage (bs : List Block) (q : ℕ) : ℕ := bs.countP (fun b => decide (b.Contains q))

@[simp] lemma coverage_nil (q : ℕ) : coverage [] q = 0 := rfl

lemma coverage_cons (b : Block) (bs : List Block) (q : ℕ) :
    coverage (b :: bs) q = coverage bs q + if b.Contains q then 1 else 0 := by
  simp [coverage, List.countP_cons]

lemma coverage_append (bs cs : List Block) (q : ℕ) :
    coverage (bs ++ cs) q = coverage bs q + coverage cs q :=
  List.countP_append

lemma coverage_perm {bs cs : List Block} (h : bs.Perm cs) (q : ℕ) : coverage bs q = coverage cs q :=
  h.countP_eq _

lemma coverage_erase {b : Block} {bs : List Block} (h : b ∈ bs) (q : ℕ) :
    coverage (bs.erase b) q + (if b.Contains q then 1 else 0) = coverage bs q := by
  have hp := (List.perm_cons_erase h).countP_eq (fun b => decide (b.Contains q))
  simp only [List.countP_cons, decide_eq_true_eq] at hp
  exact hp.symm

lemma coverage_pos_of_mem {b : Block} {bs : List Block} {q : ℕ} (h : b ∈ bs) (hq : b.Contains q) :
    0 < coverage bs q :=
  List.countP_pos_iff.2 ⟨b, h, by simpa using hq⟩

lemma exists_of_coverage_pos {bs : List Block} {q : ℕ} (h : 0 < coverage bs q) :
    ∃ b ∈ bs, b.Contains q := by
  obtain ⟨b, hb, hq⟩ := List.countP_pos_iff.1 h
  exact ⟨b, hb, by simpa using hq⟩

lemma two_le_coverage {b c : Block} {bs : List Block} {q : ℕ} (hb : b ∈ bs) (hc : c ∈ bs) (hne : c ≠ b)
    (hbq : b.Contains q) (hcq : c.Contains q) : 2 ≤ coverage bs q := by
  have herase := coverage_erase hb q
  have hpos := coverage_pos_of_mem ((List.mem_erase_of_ne hne).2 hc) hcq
  rw [if_pos hbq] at herase
  omega

lemma contains_halves (p o q : ℕ) :
    (if (Block.mk p (o + 1)).Contains q then 1 else 0) =
      (if (Block.mk p o).Contains q then 1 else 0) +
        (if (Block.mk (p + 2 ^ o) o).Contains q then 1 else 0) := by
  have h2 : 2 ^ (o + 1) = 2 ^ o + 2 ^ o := by ring
  simp only [Block.Contains, h2]
  split_ifs <;> omega

lemma pairwise_apart {bs : List Block} (h : ∀ q, coverage bs q ≤ 1) : bs.Pairwise Block.Apart := by
  induction bs with
  | nil => exact List.Pairwise.nil
  | cons b bs ih =>
    refine List.pairwise_cons.2 ⟨?_, ih fun q => ?_⟩
    · rintro c hc q ⟨hb, hq⟩
      have hle := h q
      rw [coverage_cons, if_pos hb] at hle
      have := coverage_pos_of_mem hc hq
      omega
    · exact (Nat.le_add_right _ _).trans ((coverage_cons b bs q).symm.trans_le (h q))

end MyOS.Library.Dyadic
