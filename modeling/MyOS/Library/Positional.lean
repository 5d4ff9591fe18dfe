import Mathlib.Tactic

/-! Numbers as lists of digits, the most significant one first. -/

namespace MyOS.Library.Positional

variable (b : ℕ)

def digits : ℕ → ℕ → List ℕ
  | 0, _ => []
  | d + 1, n => n / b ^ d :: digits d (n % b ^ d)

def value : ℕ → List ℕ → ℕ
  | d + 1, i :: is => i * b ^ d + value d is
  | _, _ => 0

def Prefix (d : ℕ) (is : List ℕ) : Prop := is.length ≤ d ∧ ∀ i ∈ is, i < b

variable {b} {d i n : ℕ} {is js : List ℕ}

@[simp]
lemma value_nil : value b d [] = 0 := by
  cases d <;> rfl

@[simp]
lemma value_cons : value b (d + 1) (i :: is) = i * b ^ d + value b d is :=
  rfl

@[simp]
lemma length_digits : (digits b d n).length = d := by
  induction d generalizing n with
  | zero => rfl
  | succ d ih => simp [digits, ih]

lemma prefix_nil : Prefix b d [] :=
  ⟨Nat.zero_le d, by simp⟩

lemma not_prefix_zero : ¬ Prefix b 0 (i :: is) :=
  fun h => by simpa using h.1

lemma prefix_cons : Prefix b (d + 1) (i :: is) ↔ i < b ∧ Prefix b d is := by
  unfold Prefix
  simp only [List.length_cons, Nat.add_le_add_iff_right, List.forall_mem_cons]
  tauto

lemma pow_pos_of_lt (h : n < b ^ (d + 1)) : 0 < b ^ d := by
  have hb : b ≠ 0 := by
    rintro rfl
    simp at h
  exact Nat.pow_pos (Nat.pos_of_ne_zero hb)

lemma div_lt (h : n < b ^ (d + 1)) : n / b ^ d < b :=
  Nat.div_lt_of_lt_mul (by rwa [← pow_succ])

lemma value_lt (h : Prefix b d is) (hb : 0 < b) : value b d is < b ^ d := by
  induction d generalizing is with
  | zero => simp [value]
  | succ d ih =>
    cases is with
    | nil => simpa using Nat.pow_pos hb
    | cons i is =>
      obtain ⟨hi, his⟩ := prefix_cons.1 h
      have hle : (i + 1) * b ^ d ≤ b * b ^ d := Nat.mul_le_mul_right _ hi
      calc value b (d + 1) (i :: is) = i * b ^ d + value b d is := rfl
        _ < i * b ^ d + b ^ d := Nat.add_lt_add_left (ih his) _
        _ = (i + 1) * b ^ d := by ring
        _ ≤ b ^ (d + 1) := by rwa [pow_succ, Nat.mul_comm (b ^ d)]

lemma digits_lt (h : n < b ^ d) : ∀ i ∈ digits b d n, i < b := by
  induction d generalizing n with
  | zero => simp [digits]
  | succ d ih =>
    refine List.forall_mem_cons.2 ⟨div_lt h, ih ?_⟩
    exact Nat.mod_lt _ (pow_pos_of_lt h)

lemma value_digits (h : n < b ^ d) : value b d (digits b d n) = n := by
  induction d generalizing n with
  | zero =>
    simp only [pow_zero, Nat.lt_one_iff] at h
    exact h.symm
  | succ d ih =>
    rw [digits, value_cons, ih (Nat.mod_lt _ (pow_pos_of_lt h)), Nat.mul_comm]
    exact Nat.div_add_mod n (b ^ d)

lemma digits_value_cons (hi : i < b) (h : Prefix b d is) :
    digits b (d + 1) (value b (d + 1) (i :: is)) = i :: digits b d (value b d is) := by
  have hlt := value_lt h (Nat.zero_lt_of_lt hi)
  have hdiv : (i * b ^ d + value b d is) / b ^ d = i := by
    rw [Nat.mul_comm, Nat.mul_add_div (Nat.zero_lt_of_lt hlt), Nat.div_eq_of_lt hlt, Nat.add_zero]
  have hmod : (i * b ^ d + value b d is) % b ^ d = value b d is := by
    rw [Nat.mul_comm, Nat.mul_add_mod, Nat.mod_eq_of_lt hlt]
  rw [value_cons, digits, hdiv, hmod]

lemma digits_value (h : Prefix b d is) (hl : is.length = d) : digits b d (value b d is) = is := by
  induction d generalizing is with
  | zero => exact (List.eq_nil_of_length_eq_zero hl).symm
  | succ d ih =>
    cases is with
    | nil => simp at hl
    | cons i is =>
      obtain ⟨hi, his⟩ := prefix_cons.1 h
      rw [digits_value_cons hi his, ih his (by simpa using hl)]

lemma prefix_value_le (h : is <+: js) : value b d is ≤ value b d js := by
  induction d generalizing is js with
  | zero => simp [value]
  | succ d ih =>
    cases is with
    | nil => simp
    | cons i is =>
      obtain ⟨t, rfl⟩ := h
      exact Nat.add_le_add_left (ih ⟨t, rfl⟩) _

lemma prefix_digits (h : Prefix b d is) : is <+: digits b d (value b d is) := by
  induction d generalizing is with
  | zero =>
    obtain rfl := List.eq_nil_of_length_eq_zero (Nat.le_zero.1 h.1)
    exact ⟨_, rfl⟩
  | succ d ih =>
    cases is with
    | nil => exact ⟨_, rfl⟩
    | cons i is =>
      obtain ⟨hi, his⟩ := prefix_cons.1 h
      rw [digits_value_cons hi his]
      exact (List.prefix_cons_inj i).2 (ih his)

end MyOS.Library.Positional
