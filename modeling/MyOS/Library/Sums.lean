import Mathlib.Tactic

/-! Sums over indices when the summand changes at one index only. -/

namespace MyOS.Library.Sums

open Function

variable {ι : Type}

lemma sum_map_congr {l : List ι} {f g : ι → ℕ} (h : ∀ j ∈ l, f j = g j) :
    (l.map f).sum = (l.map g).sum :=
  congrArg List.sum (List.map_congr_left h)

lemma sum_map_update {l : List ι} (hn : l.Nodup) {i : ι} (hi : i ∈ l) {f g : ι → ℕ}
    (h : ∀ j ∈ l, j ≠ i → g j = f j) : (l.map g).sum + f i = (l.map f).sum + g i := by
  induction l with
  | nil => simp at hi
  | cons a l ih =>
    obtain ⟨ha, hn⟩ := List.nodup_cons.1 hn
    simp only [List.map_cons, List.sum_cons]
    by_cases hia : i = a
    · subst hia
      have hrest : (l.map g).sum = (l.map f).sum :=
        sum_map_congr fun j hj => h j (List.mem_cons_of_mem _ hj) (by rintro rfl; exact ha hj)
      omega
    · have hil : i ∈ l := (List.mem_cons.1 hi).resolve_left hia
      have hhead : g a = f a := h a List.mem_cons_self (Ne.symm hia)
      have := ih hn hil fun j hj => h j (List.mem_cons_of_mem _ hj)
      omega

lemma single_le_sum {l : List ι} {i : ι} (hi : i ∈ l) (f : ι → ℕ) : f i ≤ (l.map f).sum :=
  List.le_sum_of_mem (List.mem_map_of_mem hi)

lemma sum_map_apply {α : Type} (l : List ι) (F : ι → α → ℕ) (x : α) :
    (l.map F).sum x = (l.map fun i => F i x).sum := by
  induction l with
  | nil => rfl
  | cons i l ih =>
    simp only [List.map_cons, List.sum_cons, Pi.add_apply, ih]

section Update

variable [Fintype ι] [DecidableEq ι] {β : Type}

lemma sum_update (p : ι → β) (i : ι) (b : β) (g : β → ℕ) :
    ∑ j, g (update p i b j) + g (p i) = ∑ j, g (p j) + g b := by
  rw [← Finset.add_sum_erase Finset.univ _ (Finset.mem_univ i),
    ← Finset.add_sum_erase Finset.univ (fun j => g (p j)) (Finset.mem_univ i),
    update_self]
  have hrest : ∑ j ∈ Finset.univ.erase i, g (update p i b j) =
      ∑ j ∈ Finset.univ.erase i, g (p j) := by
    apply Finset.sum_congr rfl
    intro j hj
    rw [update_of_ne (Finset.ne_of_mem_erase hj)]
  omega

omit [DecidableEq ι] in
lemma le_sum (p : ι → β) (i : ι) (g : β → ℕ) : g (p i) ≤ ∑ j, g (p j) :=
  Finset.single_le_sum (f := fun j => g (p j)) (fun _ _ => Nat.zero_le _) (Finset.mem_univ i)

end Update

end MyOS.Library.Sums

/-! An interval of numbers that is cut into consecutive pieces. -/

namespace MyOS.Library.Pieces

variable {M : Type} [AddCommMonoid M] {b : ℕ → ℕ}

lemma sum_pieces (hb : Monotone b) (f : ℕ → M) (t : ℕ) :
    ∑ u ∈ Finset.range t, ∑ i ∈ Finset.Ico (b u) (b (u + 1)), f i = ∑ i ∈ Finset.Ico (b 0) (b t), f i := by
  induction t with
  | zero => rw [Finset.Ico_self, Finset.sum_empty, Finset.sum_range_zero]
  | succ t ih =>
    rw [Finset.sum_range_succ, ih]
    exact Finset.sum_Ico_consecutive f (hb (Nat.zero_le t)) (hb (Nat.le_succ t))

lemma exists_piece {i t : ℕ} (hlo : b 0 ≤ i) (hi : i < b t) : ∃ u < t, b u ≤ i ∧ i < b (u + 1) := by
  induction t with
  | zero => exact absurd hi (by omega)
  | succ t ih =>
    by_cases h : i < b t
    · obtain ⟨u, hu, hpiece⟩ := ih h
      exact ⟨u, by omega, hpiece⟩
    · exact ⟨t, by omega, by omega, hi⟩

lemma piece_unique (hb : Monotone b) {i u v : ℕ} (hu : b u ≤ i ∧ i < b (u + 1))
    (hv : b v ≤ i ∧ i < b (v + 1)) : u = v := by
  rcases Nat.lt_trichotomy u v with h | h | h
  · have hcut : b (u + 1) ≤ b v := hb h
    omega
  · exact h
  · have hcut : b (v + 1) ≤ b u := hb h
    omega

lemma sum_add_at {s : Finset ℕ} {i : ℕ} (hi : i ∈ s) {f g : ℕ → M} {d : M} (hne : ∀ j, j ≠ i → g j = f j)
    (hd : g i = f i + d) : ∑ j ∈ s, g j = ∑ j ∈ s, f j + d := by
  have hrest : ∑ j ∈ s.erase i, g j = ∑ j ∈ s.erase i, f j :=
    Finset.sum_congr rfl fun j hj => hne j (Finset.ne_of_mem_erase hj)
  rw [← Finset.add_sum_erase s g hi, ← Finset.add_sum_erase s f hi, hrest, hd, add_right_comm]

end MyOS.Library.Pieces
