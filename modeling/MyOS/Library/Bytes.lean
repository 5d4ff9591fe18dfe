import Mathlib.Tactic

/-! Byte-addressed memory with little-endian words. -/

namespace MyOS.Library.Bytes

variable (m : ℕ → UInt8)

def fill (a len : ℕ) (v : UInt8) : ℕ → UInt8 :=
  fun x => if a ≤ x ∧ x < a + len then v else m x

def read : ℕ → ℕ → ℕ
  | _, 0 => 0
  | a, n + 1 => (m a).toNat + 256 * read (a + 1) n

def write (a n v : ℕ) : ℕ → UInt8 :=
  fun x => if a ≤ x ∧ x < a + n then UInt8.ofNat (v / 256 ^ (x - a)) else m x

def load (a n : ℕ) : List UInt8 := (List.range n).map fun i => m (a + i)

def store (a : ℕ) (l : List UInt8) : ℕ → UInt8 :=
  fun x => if a ≤ x ∧ x < a + l.length then l.getD (x - a) 0 else m x

def writeWords (m : ℕ → UInt8) (a : ℕ) : List ℕ → ℕ → UInt8
  | [] => m
  | w :: ws => writeWords (write m a 8 w) (a + 8) ws

variable {m} {a b n k v : ℕ}

lemma fill_of_mem {len x : ℕ} {u : UInt8} (h : a ≤ x ∧ x < a + len) : fill m a len u x = u :=
  if_pos h

lemma fill_of_not_mem {len x : ℕ} {u : UInt8} (h : ¬ (a ≤ x ∧ x < a + len)) :
    fill m a len u x = m x := if_neg h

lemma write_of_not_mem {x : ℕ} (h : ¬ (a ≤ x ∧ x < a + n)) : write m a n v x = m x := if_neg h

lemma read_congr {m' : ℕ → UInt8} (h : ∀ x, a ≤ x → x < a + n → m' x = m x) :
    read m' a n = read m a n := by
  induction n generalizing a with
  | zero => rfl
  | succ n ih =>
    rw [read, read, h a le_rfl (by omega), ih fun x h₁ h₂ => h x (by omega) (by omega)]

lemma read_shift {m' : ℕ → UInt8} (h : ∀ x < n, m' (b + x) = m (a + x)) : read m' b n = read m a n := by
  induction n generalizing a b with
  | zero => rfl
  | succ n ih =>
    have hhead := h 0 (Nat.succ_pos n)
    have htail : read m' (b + 1) n = read m (a + 1) n := ih fun x hx => by
      rw [Nat.add_assoc, Nat.add_assoc, Nat.add_comm 1 x]
      exact h (x + 1) (Nat.succ_lt_succ hx)
    rw [Nat.add_zero, Nat.add_zero] at hhead
    rw [read, read, hhead, htail]

lemma read_lt : read m a n < 256 ^ n := by
  induction n generalizing a with
  | zero => simp [read]
  | succ n ih =>
    have := (m a).toNat_lt
    have := ih (a := a + 1)
    rw [read, pow_succ]
    omega

lemma read_succ (a n : ℕ) : read m a (n + 1) = read m a n + 256 ^ n * (m (a + n)).toNat := by
  induction n generalizing a with
  | zero => simp [read]
  | succ n ih =>
    have hlast : a + 1 + n = a + (n + 1) := by omega
    rw [read, ih (a + 1), hlast, read]
    ring

lemma read_write_suffix (j : ℕ) (h : k + j = n) :
    read (write m a n v) (a + k) j = v / 256 ^ k % 256 ^ j := by
  induction j generalizing k with
  | zero => simp [read, Nat.mod_one]
  | succ j ih =>
    have hk : (write m a n v (a + k)).toNat = v / 256 ^ k % 256 := by
      rw [write, if_pos (by omega), Nat.add_sub_cancel_left, UInt8.toNat_ofNat']
    rw [read, hk, add_assoc, ih (by omega), pow_succ 256 k, ← Nat.div_div_eq_div_mul,
      pow_succ' 256 j, Nat.mod_mul]

lemma read_write_self (h : v < 256 ^ n) : read (write m a n v) a n = v := by
  have := read_write_suffix (m := m) (a := a) (v := v) n (Nat.zero_add n)
  rwa [pow_zero, Nat.div_one, add_zero, Nat.mod_eq_of_lt h] at this

lemma read_write_of_disjoint (h : a + n ≤ b ∨ b + k ≤ a) :
    read (write m a n v) b k = read m b k :=
  read_congr fun x h₁ h₂ => write_of_not_mem (by omega)

lemma store_of_not_mem {x : ℕ} {l : List UInt8} (h : ¬ (a ≤ x ∧ x < a + l.length)) :
    store m a l x = m x := if_neg h

lemma store_of_mem {i : ℕ} {l : List UInt8} (h : i < l.length) : store m a l (a + i) = l[i] := by
  rw [store, if_pos (by omega), Nat.add_sub_cancel_left, List.getD_eq_getElem?_getD, List.getElem?_eq_getElem h,
    Option.getD_some]

lemma read_store_of_disjoint {l : List UInt8} (h : a + l.length ≤ b ∨ b + k ≤ a) :
    read (store m a l) b k = read m b k :=
  read_congr fun x h₁ h₂ => store_of_not_mem (by omega)

lemma length_load : (load m a n).length = n := by simp [load]

lemma load_congr {m' : ℕ → UInt8} (h : ∀ x, a ≤ x → x < a + n → m' x = m x) :
    load m' a n = load m a n := by
  apply List.map_congr_left
  intro i hi
  exact h _ (Nat.le_add_right a i) (Nat.add_lt_add_left (List.mem_range.1 hi) a)

lemma load_shift {m' : ℕ → UInt8} (h : ∀ x < n, m' (b + x) = m (a + x)) : load m' b n = load m a n :=
  List.map_congr_left fun x hx => h x (List.mem_range.1 hx)

lemma load_store_self {l : List UInt8} (h : l.length = n) : load (store m a l) a n = l := by
  subst h
  apply List.ext_getElem (by simp [load])
  intro i h₁ h₂
  simp [load, store, h₂]

lemma load_append : load m a n ++ load m (a + n) k = load m a (n + k) := by
  rw [load, load, load, List.range_add, List.map_append, List.map_map]
  refine congrArg _ (List.map_congr_left fun i _ => ?_)
  rw [Function.comp_apply, Nat.add_assoc]

lemma load_take (hk : k ≤ n) : (load m a n).take k = load m a k := by
  rw [← Nat.add_sub_cancel' hk, ← load_append, List.take_left' length_load]

lemma load_drop (hk : k ≤ n) : (load m a n).drop k = load m (a + k) (n - k) := by
  conv_lhs => rw [← Nat.add_sub_cancel' hk, ← load_append]
  rw [List.drop_left' length_load]

lemma load_eq_replicate {v : UInt8} (h : ∀ i < n, m (a + i) = v) : load m a n = List.replicate n v := by
  rw [load, List.eq_replicate_iff, List.length_map, List.length_range]
  refine ⟨rfl, fun b hb => ?_⟩
  obtain ⟨i, hi, rfl⟩ := List.mem_map.1 hb
  exact h i (List.mem_range.1 hi)

lemma store_nil : store m a [] = m := by
  funext x
  exact store_of_not_mem fun h => by simp only [List.length_nil] at h; omega

lemma store_append (l l' : List UInt8) : store (store m a l) (a + l.length) l' = store m a (l ++ l') := by
  funext x
  have hlen : (l ++ l').length = l.length + l'.length := List.length_append
  by_cases h₁ : x < a
  · rw [store_of_not_mem (by omega), store_of_not_mem (by omega), store_of_not_mem (by omega)]
  by_cases h₂ : x < a + l.length
  · rw [store_of_not_mem (by omega), store, store, if_pos (by omega), if_pos (by omega),
      List.getD_eq_getElem?_getD, List.getD_eq_getElem?_getD, List.getElem?_append_left (by omega)]
  by_cases h₃ : x < a + l.length + l'.length
  · rw [store, store.eq_def _ _ (l ++ l'), if_pos (by omega), if_pos (by omega),
      List.getD_eq_getElem?_getD, List.getD_eq_getElem?_getD, List.getElem?_append_right (by omega), Nat.sub_sub]
  · rw [store_of_not_mem (by omega), store_of_not_mem (by omega), store_of_not_mem (by omega)]

def words : List ℕ → List UInt8
  | [] => []
  | w :: ws => load (write (fun _ => 0) 0 8 w) 0 8 ++ words ws

lemma length_words (ws : List ℕ) : (words ws).length = 8 * ws.length := by
  induction ws with
  | nil => rfl
  | cons w ws ih => rw [words, List.length_append, length_load, ih, List.length_cons]; omega

lemma store_word (w : ℕ) : store m a (load (write (fun _ => 0) 0 8 w) 0 8) = write m a 8 w := by
  funext x
  by_cases hx : a ≤ x ∧ x < a + 8
  · have hlt : x - a < 8 := by omega
    simp [store, load, write, hx, hlt]
  · rw [write_of_not_mem hx, store_of_not_mem (by rwa [length_load])]

lemma store_words (ws : List ℕ) : store m a (words ws) = writeWords m a ws := by
  induction ws generalizing m a with
  | nil => exact store_nil
  | cons w ws ih =>
    rw [words, ← store_append, length_load, store_word, ih]
    rfl

lemma writeWords_of_not_mem {ws : List ℕ} {x : ℕ} (h : ¬ (a ≤ x ∧ x < a + 8 * ws.length)) :
    writeWords m a ws x = m x := by
  induction ws generalizing m a with
  | nil => rfl
  | cons w ws ih =>
    rw [List.length_cons] at h
    rw [writeWords, ih (by omega), write_of_not_mem (by omega)]

lemma read_writeWords {ws : List ℕ} (hk : k < ws.length) (hw : ws[k] < 256 ^ 8) :
    read (writeWords m a ws) (a + 8 * k) 8 = ws[k] := by
  induction ws generalizing m a k with
  | nil => exact absurd hk (Nat.not_lt_zero k)
  | cons w ws ih =>
    rw [writeWords]
    cases k with
    | zero =>
      have hrest : read (writeWords (write m a 8 w) (a + 8) ws) a 8 = read (write m a 8 w) a 8 :=
        read_congr fun x _ hx => writeWords_of_not_mem (by omega)
      rw [mul_zero, add_zero, hrest]
      exact read_write_self hw
    | succ k =>
      have hat : a + 8 * (k + 1) = a + 8 + 8 * k := by ring
      rw [hat, ih (by simpa using hk) hw]
      rfl

lemma write_one (v : UInt8) : write m a 1 v.toNat a = v := by simp [write]

end MyOS.Library.Bytes
