import Mathlib.Tactic

/-! Ring buffers: a queue in an array with wrap-around. -/

namespace MyOS.Library

variable {α : Type}

structure RingBuffer (α : Type) where
  buf : ℕ → α
  head : ℕ
  count : ℕ

namespace RingBuffer

variable (size : ℕ)

def store (buf : ℕ → α) (pos : ℕ) : List α → ℕ → α
  | [] => buf
  | x :: xs => store (Function.update buf (pos % size) x) (pos + 1) xs

def contents (r : RingBuffer α) : List α :=
  (List.range r.count).map fun i => r.buf ((r.head + i) % size)

def front (r : RingBuffer α) (n : ℕ) : List α :=
  (List.range n).map fun i => r.buf ((r.head + i) % size)

def push (r : RingBuffer α) (xs : List α) : RingBuffer α :=
  { r with buf := store size r.buf ((r.head + r.count) % size) xs, count := r.count + xs.length }

def pop (r : RingBuffer α) (n : ℕ) : RingBuffer α :=
  { r with head := (r.head + n) % size, count := r.count - n }

variable {size}

lemma add_mod_inj {pos a b : ℕ} (h : (pos + a) % size = (pos + b) % size) (ha : a < size)
    (hb : b < size) : a = b := by
  have hm : a ≡ b [MOD size] := Nat.ModEq.add_left_cancel' pos h
  rwa [Nat.ModEq, Nat.mod_eq_of_lt ha, Nat.mod_eq_of_lt hb] at hm

lemma store_of_ne {buf : ℕ → α} {pos j : ℕ} {xs : List α}
    (h : ∀ i < xs.length, (pos + i) % size ≠ j) : store size buf pos xs j = buf j := by
  induction xs generalizing buf pos with
  | nil => rfl
  | cons x xs ih =>
    have hx : j ≠ pos % size := Ne.symm (h 0 (Nat.succ_pos _))
    rw [store, ih fun i hi => ?_, Function.update_of_ne hx]
    rw [Nat.add_assoc, Nat.add_comm 1]
    exact h (i + 1) (by simpa using hi)

lemma store_get {buf : ℕ → α} {pos i : ℕ} {xs : List α} (hi : i < xs.length)
    (hs : xs.length ≤ size) : store size buf pos xs ((pos + i) % size) = xs[i] := by
  induction xs generalizing buf pos i with
  | nil => cases hi
  | cons x xs ih =>
    simp only [List.length_cons] at hs hi
    rw [store]
    cases i with
    | zero =>
      -- the later values stay clear of the first position
      rw [store_of_ne fun k hk he => ?_]
      · simp
      · rw [Nat.add_assoc] at he
        have := add_mod_inj he (by omega) (by omega)
        omega
    | succ i =>
      rw [← Nat.add_assoc, Nat.add_right_comm, ih (by omega) (by omega)]
      rfl
lemma contents_push {r : RingBuffer α} {xs : List α} (h : r.count + xs.length ≤ size) :
    contents size (push size r xs) = contents size r ++ xs := by
  have hmod : ∀ i, ((r.head + r.count) % size + i) % size = (r.head + (r.count + i)) % size := by
    intro i
    rw [Nat.mod_add_mod, Nat.add_assoc]
  refine List.ext_getElem (by simp [contents, push]) fun i h₁ h₂ => ?_
  simp only [contents, push, List.length_map, List.length_range] at h₁
  simp only [contents, push, List.getElem_map, List.getElem_range]
  by_cases hi : i < r.count
  · rw [List.getElem_append_left (by simpa using hi), store_of_ne fun k hk he => ?_]
    · simp
    · rw [hmod] at he
      have := add_mod_inj he (by omega) (by omega)
      omega
  · rw [List.getElem_append_right (by simpa using hi)]
    have hsplit : r.head + i = r.head + (r.count + (i - r.count)) := by omega
    rw [hsplit, ← hmod, store_get (by omega) (by omega)]
    simp

lemma front_eq_take {r : RingBuffer α} {n : ℕ} (h : n ≤ r.count) :
    front size r n = (contents size r).take n := by
  rw [front, contents, ← List.map_take, List.take_range, Nat.min_eq_left h]

lemma contents_pop {r : RingBuffer α} {n : ℕ} :
    contents size (pop size r n) = (contents size r).drop n := by
  refine List.ext_getElem (by simp [contents, pop]) fun i h₁ h₂ => ?_
  simp [contents, pop, Nat.add_assoc]

lemma front_append_pop {r : RingBuffer α} {n : ℕ} (h : n ≤ r.count) :
    front size r n ++ contents size (pop size r n) = contents size r := by
  rw [front_eq_take h, contents_pop, List.take_append_drop]

end RingBuffer

end MyOS.Library
