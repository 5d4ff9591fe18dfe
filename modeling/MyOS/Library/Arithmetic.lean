import Mathlib.Tactic

/-! Arithmetic of `unsigned`, and programs that may go wrong instead of returning. -/

namespace MyOS.Library

def add32 (a b : ℕ) : ℕ := (a + b) % 2 ^ 32
def sub32 (a b : ℕ) : ℕ := (a + 2 ^ 32 - b) % 2 ^ 32
def mul32 (a b : ℕ) : ℕ := a * b % 2 ^ 32

def sub64 (a b : ℕ) : ℕ := (a + 2 ^ 64 - b) % 2 ^ 64

section Arithmetic

variable {a b : ℕ}

lemma add32_of_lt (h : a + b < 2 ^ 32) : add32 a b = a + b :=
  Nat.mod_eq_of_lt h

lemma sub32_of_le (h : b ≤ a) (ha : a < 2 ^ 32) : sub32 a b = a - b := by
  unfold sub32
  omega

lemma sub64_of_le (h : b ≤ a) (ha : a < 2 ^ 64) : sub64 a b = a - b := by
  unfold sub64
  omega

lemma mul32_of_lt (h : a * b < 2 ^ 32) : mul32 a b = a * b :=
  Nat.mod_eq_of_lt h
end Arithmetic

attribute [irreducible] add32 sub32 mul32 sub64

inductive Fault
  | outside
  | endless
  deriving DecidableEq

section Loops

variable {σ : Type}

def forLt (a b : ℕ) (f : ℕ → σ → Except Fault σ) (s : σ) : Except Fault σ :=
  (List.range' a (b - a)).foldlM (fun s i => f i s) s

def forLe (a b : ℕ) (f : ℕ → σ → Except Fault σ) (s : σ) : Except Fault σ := do
  let s ← forLt a (b + 1) f s
  if b = 2 ^ 32 - 1 then .error .endless else .ok s

lemma ok_bind {α β : Type} (a : α) (f : α → Except Fault β) : (Except.ok a >>= f) = f a :=
  rfl

def Returns (x : Except Fault σ) (Q : σ → Prop) : Prop := ∃ t, x = .ok t ∧ Q t

variable {x : Except Fault σ} {P Q : σ → Prop} {f : σ → Except Fault σ} {s : σ}

lemma Returns.ok (h : Q s) : Returns (.ok s) Q :=
  ⟨s, rfl, h⟩

lemma Returns.bind (hx : Returns x P) (hf : ∀ t, P t → Returns (f t) Q) :
    Returns (x >>= f) Q := by
  obtain ⟨t, rfl, ht⟩ := hx
  exact hf t ht

lemma Returns.mono (hx : Returns x P) (h : ∀ t, P t → Q t) : Returns x Q := by
  obtain ⟨t, ht, hp⟩ := hx
  exact ⟨t, ht, h t hp⟩

lemma Returns.ite {c : Prop} [Decidable c] {y : Except Fault σ} (hx : c → Returns x Q)
    (hy : ¬ c → Returns y Q) : Returns (if c then x else y) Q := by
  split_ifs with hc
  · exact hx hc
  · exact hy hc

lemma error_ne_ok {α : Type} {e : Fault} {a : α} : Except.error e ≠ .ok a :=
  fun he => by cases he

lemma bind_ne_ok_left {α β : Type} {x : Except Fault α} {f : α → Except Fault β} {b : β}
    (h : ∀ a, x ≠ .ok a) : x >>= f ≠ .ok b := by
  cases x with
  | error e => exact error_ne_ok
  | ok a => exact absurd rfl (h a)

lemma bind_ne_ok_right {α β : Type} {x : Except Fault α} {f : α → Except Fault β} {b : β}
    (h : ∀ a, f a ≠ .ok b) : x >>= f ≠ .ok b := by
  cases x with
  | error e => exact error_ne_ok
  | ok a => exact h a

lemma returns_foldlM {l : List ℕ} {g : σ → ℕ → Except Fault σ}
    (h : ∀ i ∈ l, ∀ t, P t → Returns (g t i) P) (hs : P s) : Returns (l.foldlM g s) P := by
  induction l generalizing s with
  | nil => exact .ok hs
  | cons i l ih =>
    rw [List.foldlM_cons]
    refine (h i List.mem_cons_self s hs).bind fun t ht => ?_
    exact ih (fun j hj => h j (List.mem_cons_of_mem i hj)) ht

variable {a b : ℕ} {g : ℕ → σ → Except Fault σ}

lemma returns_forLt (h : ∀ i, a ≤ i → i < b → ∀ t, P t → Returns (g i t) P) (hs : P s) :
    Returns (forLt a b g s) P := by
  refine returns_foldlM (fun i hi => ?_) hs
  rw [List.mem_range'_1] at hi
  exact h i hi.1 (by omega)

lemma returns_forLe (hb : b < 2 ^ 32 - 1)
    (h : ∀ i, a ≤ i → i ≤ b → ∀ t, P t → Returns (g i t) P) (hs : P s) :
    Returns (forLe a b g s) P := by
  refine (returns_forLt (fun i hi hib => h i hi (by omega)) hs).bind fun t ht => ?_
  rw [if_neg (by omega)]
  exact .ok ht

lemma forLe_endless {u v : σ} : forLe a (2 ^ 32 - 1) g u ≠ .ok v := by
  refine bind_ne_ok_right fun w => ?_
  rw [if_pos rfl]
  exact error_ne_ok

end Loops

end MyOS.Library

/-! Computations on 64-bit signed integers, with the exact results of their operations. -/

namespace MyOS.Library

/-- The result of a computation, and what each operation would give on unbounded integers. -/
def Arith (α : Type) : Type := α × List ℤ

namespace Arith

variable {α β : Type}

instance : Monad Arith where
  pure a := (a, [])
  bind x f := ((f x.1).1, x.2 ++ (f x.1).2)

def add (a b : Int64) : Arith Int64 := (a + b, [a.toInt + b.toInt])

def sub (a b : Int64) : Arith Int64 := (a - b, [a.toInt - b.toInt])

def mul (a b : Int64) : Arith Int64 := (a * b, [a.toInt * b.toInt])

def div (a b : Int64) : Arith Int64 := (a / b, [a.toInt.tdiv b.toInt])

def InRange (v : ℤ) : Prop := -2 ^ 63 ≤ v ∧ v < 2 ^ 63

def Safe (x : Arith α) (P : α → Prop) : Prop := P x.1 ∧ ∀ v ∈ x.2, InRange v

variable {x : Arith α} {f : α → Arith β} {P Q : α → Prop} {R : β → Prop} {a b : Int64}

lemma safe_pure {a : α} (h : P a) : (pure a : Arith α).Safe P := ⟨h, fun _ hv => by cases hv⟩

lemma Safe.bind (hx : x.Safe P) (hf : ∀ a, P a → (f a).Safe R) : (x >>= f).Safe R := by
  obtain ⟨hr, hs⟩ := hf x.1 hx.1
  refine ⟨hr, fun v hv => ?_⟩
  rcases List.mem_append.1 hv with hv | hv
  · exact hx.2 v hv
  · exact hs v hv

lemma Safe.mono (h : x.Safe P) (hpq : ∀ a, P a → Q a) : x.Safe Q := ⟨hpq _ h.1, h.2⟩

lemma safe_ite {c : Prop} [Decidable c] {y : Arith α} (hx : c → x.Safe P) (hy : ¬ c → y.Safe P) :
    (if c then x else y).Safe P := by
  split_ifs with h
  · exact hx h
  · exact hy h

lemma safe_op {c : Int64} {v : ℤ} (hc : c.toInt = v.bmod (2 ^ 64)) (h : InRange v) :
    Safe (c, [v]) fun c => c.toInt = v := by
  obtain ⟨hlo, hhi⟩ := h
  refine ⟨hc.trans (Int.bmod_eq_of_le (by omega) (by omega)), fun u hu => ?_⟩
  cases List.mem_singleton.1 hu
  exact ⟨hlo, hhi⟩

lemma safe_add (h : InRange (a.toInt + b.toInt)) : (add a b).Safe fun c => c.toInt = a.toInt + b.toInt :=
  safe_op (Int64.toInt_add a b) h

lemma safe_sub (h : InRange (a.toInt - b.toInt)) : (sub a b).Safe fun c => c.toInt = a.toInt - b.toInt :=
  safe_op (Int64.toInt_sub a b) h

lemma safe_mul (h : InRange (a.toInt * b.toInt)) : (mul a b).Safe fun c => c.toInt = a.toInt * b.toInt :=
  safe_op (Int64.toInt_mul a b) h

lemma safe_div (ha : 0 ≤ a.toInt) (hb : 0 < b.toInt) :
    (div a b).Safe fun c => c.toInt = a.toInt / b.toInt := by
  have hquot : a.toInt.tdiv b.toInt = a.toInt / b.toInt := Int.tdiv_eq_ediv_of_nonneg ha
  have hle : a.toInt / b.toInt ≤ a.toInt := Int.ediv_le_self _ ha
  have hnonneg : 0 ≤ a.toInt / b.toInt := Int.ediv_nonneg ha hb.le
  have hlt := a.toInt_lt
  rw [← hquot] at hle hnonneg ⊢
  exact safe_op (Int64.toInt_div a b) ⟨by omega, by omega⟩

end Arith

end MyOS.Library
