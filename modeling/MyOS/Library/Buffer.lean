import Mathlib.Data.List.DropRight
import Mathlib.Tactic

/-! Buffers of a fixed size: moves that stay inside, and scans that go back from a place in the text. -/

namespace MyOS.Library.Buffer

variable {α : Type*}

def move (b : List α) (dst src n : ℕ) : Option (List α) :=
  if dst + n ≤ b.length ∧ src + n ≤ b.length then some (b.take dst ++ (b.drop src).take n ++ b.drop (dst + n))
  else none

def store (b : List α) (dst : ℕ) (w : List α) : Option (List α) :=
  if dst + w.length ≤ b.length then some (b.take dst ++ w ++ b.drop (dst + w.length)) else none

def load (b : List α) (src n : ℕ) : Option (List α) :=
  if src + n ≤ b.length then some ((b.drop src).take n) else none

def backWhile (p : α → Bool) (b : List α) : ℕ → Option ℕ
  | 0 => some 0
  | i + 1 => (b[i]?).bind fun c => if p c then backWhile p b i else some (i + 1)

section Moves

variable {b l w r g x y : List α}

lemma move_eq (hb : b = x ++ w ++ r) (hy : b = y ++ g) (hw : w.length ≤ g.length) :
    move b y.length x.length w.length = some (y ++ w ++ g.drop w.length) := by
  have hfit : x.length + w.length ≤ b.length := by
    rw [hb, List.length_append, List.length_append]
    exact Nat.le_add_right _ _
  have hroom : y.length + w.length ≤ b.length := by
    rw [hy, List.length_append]
    exact Nat.add_le_add_left hw _
  have hsrc : (b.drop x.length).take w.length = w := by
    rw [hb, List.append_assoc, List.drop_left, List.take_left]
  have htake : b.take y.length = y := by rw [hy, List.take_left]
  have hdrop : b.drop (y.length + w.length) = g.drop w.length := by
    rw [hy, ← List.drop_drop, List.drop_left]
  rw [move, if_pos ⟨hroom, hfit⟩, hsrc, htake, hdrop]

lemma store_eq (hb : b = y ++ g) (hw : w.length ≤ g.length) :
    store b y.length w = some (y ++ w ++ g.drop w.length) := by
  have hroom : y.length + w.length ≤ b.length := by
    rw [hb, List.length_append]
    exact Nat.add_le_add_left hw _
  have hdrop : b.drop (y.length + w.length) = g.drop w.length := by
    rw [hb, ← List.drop_drop, List.drop_left]
  rw [store, if_pos hroom, hdrop, hb, List.take_left]

lemma load_eq (hb : b = l ++ w ++ r) : load b l.length w.length = some w := by
  have hfit : l.length + w.length ≤ b.length := by
    rw [hb, List.length_append, List.length_append]
    exact Nat.le_add_right _ _
  rw [load, if_pos hfit, hb, List.append_assoc, List.drop_left, List.take_left]

lemma close_gap : ∃ g', g'.length = g.length + w.length ∧
    move (l ++ w ++ r ++ g) l.length (l.length + w.length) r.length = some (l ++ r ++ g') := by
  refine ⟨(w ++ r ++ g).drop r.length, ?_, ?_⟩
  · rw [List.length_drop, List.length_append, List.length_append]
    omega
  · have hlen : l.length + w.length = (l ++ w).length := List.length_append.symm
    have hfit : r.length ≤ (w ++ r ++ g).length := by
      rw [List.length_append, List.length_append]
      omega
    rw [hlen]
    exact move_eq rfl (by simp only [List.append_assoc]) hfit

lemma open_gap (hw : w.length ≤ g.length) : ∃ b', b'.length = (l ++ r ++ g).length ∧
    move (l ++ r ++ g) (l.length + w.length) l.length r.length = some b' ∧
    store b' l.length w = some (l ++ w ++ r ++ g.drop w.length) := by
  obtain ⟨s, t, hst, hs⟩ : ∃ s t, r ++ g = s ++ t ∧ s.length = w.length := by
    refine ⟨(r ++ g).take w.length, (r ++ g).drop w.length, (List.take_append_drop _ _).symm, ?_⟩
    rw [List.length_take, List.length_append]
    omega
  have hlen : l.length + w.length = (l ++ s).length := by rw [List.length_append, hs]
  have hroom : r.length ≤ t.length := by
    have := congrArg List.length hst
    simp only [List.length_append] at this
    omega
  have hrest : t.drop r.length = g.drop w.length := by
    have hd := congrArg (List.drop (w.length + r.length)) hst
    rw [← List.drop_drop (l := s ++ t), ← hs, List.drop_left, hs, Nat.add_comm, ← List.drop_drop, List.drop_left] at hd
    exact hd.symm
  have hmove := move_eq (b := l ++ r ++ g) (x := l) (w := r) (r := g) (y := l ++ s) (g := t) rfl
    (by rw [List.append_assoc, hst, List.append_assoc]) hroom
  refine ⟨_, ?_, by rw [hlen]; exact hmove, ?_⟩
  · have := congrArg List.length hst
    simp only [List.length_append, List.length_drop] at this ⊢
    omega
  · rw [store_eq (y := l) (g := s ++ (r ++ t.drop r.length)) (by simp only [List.append_assoc])
      (by rw [List.length_append, hs]; exact Nat.le_add_right _ _), ← hs, List.drop_left, hs, hrest]
    simp only [List.append_assoc]

lemma length_store {b' : List α} {n : ℕ} (h : store b n w = some b') : b'.length = b.length := by
  unfold store at h
  split_ifs at h with hn
  obtain rfl := Option.some_inj.1 h
  simp only [List.length_append, List.length_take, List.length_drop]
  omega

end Moves

section Scans

variable {p : α → Bool} {l r : List α}

lemma backWhile_eq (p : α → Bool) (l r : List α) :
    backWhile p (l ++ r) l.length = some (l.rdropWhile p).length := by
  induction l using List.reverseRecOn generalizing r with
  | nil => rfl
  | append_singleton l c ih =>
    have hget : (l ++ [c] ++ r)[l.length]? = some c := by
      rw [List.append_assoc, List.getElem?_append_right le_rfl, Nat.sub_self]
      rfl
    rw [List.length_append, List.length_singleton, backWhile, hget, Option.bind_some]
    by_cases hc : p c = true
    · rw [if_pos hc, List.rdropWhile_concat_pos p l c hc, List.append_assoc]
      exact ih _
    · rw [if_neg hc, List.rdropWhile_concat_neg p l c hc, List.length_append, List.length_singleton]

end Scans

section CommonPrefix

variable [DecidableEq α]

def agree : ℕ → List α → List α → ℕ
  | n + 1, a :: x, b :: y => if a = b then agree n x y + 1 else 0
  | _, _, _ => 0

variable {n k : ℕ} {x y : List α}

lemma le_agree_iff : k ≤ agree n x y ↔ k ≤ n ∧ k ≤ x.length ∧ k ≤ y.length ∧ x.take k = y.take k := by
  induction n generalizing k x y with
  | zero =>
    cases k with
    | zero => simp
    | succ k => simp [agree]
  | succ n ih =>
    cases k with
    | zero => simp
    | succ k =>
      cases x with
      | nil => simp [agree]
      | cons a x =>
        cases y with
        | nil => simp [agree]
        | cons b y =>
          rw [agree]
          split_ifs with hab
          · subst hab
            simp [ih]
          · simp [hab]

def commonPrefix : List α → List α → List α
  | a :: x, b :: y => if a = b then a :: commonPrefix x y else []
  | _, _ => []

def longestCommonPrefix : List (List α) → List α
  | [] => []
  | [x] => x
  | x :: y :: xs => commonPrefix x (longestCommonPrefix (y :: xs))

variable {l : List α}

lemma prefix_commonPrefix_iff : l <+: commonPrefix x y ↔ l <+: x ∧ l <+: y := by
  induction x generalizing l y with
  | nil => simp +contextual [commonPrefix]
  | cons a x ih =>
    cases y with
    | nil => simp +contextual [commonPrefix]
    | cons b y =>
      rw [commonPrefix]
      cases l with
      | nil => simp
      | cons c l =>
        split_ifs with hab
        · subst hab
          simp only [List.cons_prefix_cons, ih]
          tauto
        · simp only [List.prefix_nil, List.cons_prefix_cons, reduceCtorEq, false_iff]
          rintro ⟨⟨rfl, -⟩, rfl, -⟩
          exact hab rfl

lemma prefix_longestCommonPrefix_iff {xs : List (List α)} (h : xs ≠ []) :
    l <+: longestCommonPrefix xs ↔ ∀ x ∈ xs, l <+: x := by
  induction xs with
  | nil => exact absurd rfl h
  | cons x xs ih =>
    cases xs with
    | nil => exact List.forall_mem_singleton.symm
    | cons y xs =>
      rw [longestCommonPrefix, prefix_commonPrefix_iff, ih (List.cons_ne_nil y xs)]
      exact List.forall_mem_cons.symm

omit [DecidableEq α] in
lemma eq_of_prefix_iff (h : ∀ l, l <+: x ↔ l <+: y) : x = y :=
  ((h x).1 (List.prefix_refl x)).eq_of_length_le ((h y).2 (List.prefix_refl y)).length_le

omit [DecidableEq α] in
lemma prefix_iff_take : l <+: x ↔ l.length ≤ x.length ∧ x.take l.length = l :=
  ⟨fun h => ⟨h.length_le, (List.prefix_iff_eq_take.1 h).symm⟩, fun h => List.prefix_iff_eq_take.2 h.2.symm⟩

lemma le_foldl_agree_iff {xs : List (List α)} :
    k ≤ xs.foldl (fun n y => agree n y x) n ↔ k ≤ n ∧ ∀ y ∈ xs, k ≤ y.length ∧ k ≤ x.length ∧ y.take k = x.take k := by
  induction xs generalizing n with
  | nil => simp
  | cons y xs ih =>
    rw [List.foldl_cons, ih, le_agree_iff, List.forall_mem_cons]
    tauto

lemma take_foldl_agree {xs : List (List α)} :
    x.take (xs.foldl (fun n y => agree n y x) x.length) = longestCommonPrefix (x :: xs) := by
  apply eq_of_prefix_iff
  intro l
  rw [prefix_longestCommonPrefix_iff (List.cons_ne_nil x xs), List.forall_mem_cons]
  constructor
  · intro h
    have hx : l <+: x := h.trans (List.take_prefix _ _)
    have hlen := h.length_le.trans (List.length_take_le _ _)
    refine ⟨hx, fun y hy => ?_⟩
    obtain ⟨-, hall⟩ := le_foldl_agree_iff.1 hlen
    obtain ⟨hyl, hxl, he⟩ := hall y hy
    rw [prefix_iff_take]
    exact ⟨hyl, he.trans (prefix_iff_take.1 hx).2⟩
  · rintro ⟨hx, hxs⟩
    obtain ⟨hxl, he⟩ := prefix_iff_take.1 hx
    have hlen : l.length ≤ xs.foldl (fun n y => agree n y x) x.length := by
      refine le_foldl_agree_iff.2 ⟨hxl, fun y hy => ?_⟩
      obtain ⟨hyl, hey⟩ := prefix_iff_take.1 (hxs y hy)
      exact ⟨hyl, hxl, hey.trans he.symm⟩
    have htake := List.take_prefix_take_left (l := x) hlen
    rwa [he] at htake

end CommonPrefix

end MyOS.Library.Buffer
