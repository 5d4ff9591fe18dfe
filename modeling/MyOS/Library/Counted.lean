import Mathlib.Tactic

/-! Counts of the holders of an object, where each holder has at most one object at a time. -/

namespace MyOS.Library

open Function

variable {ι β : Type} [DecidableEq ι]

def Counted (f : ι → Option β) (b : β) (n : ℕ) : Prop :=
  ∃ H : Finset ι, (∀ i, i ∈ H ↔ f i = some b) ∧ H.card = n

namespace Counted

variable {f : ι → Option β} {b : β} {n : ℕ} {i : ι} {o : Option β}

lemma same (h : Counted f b n) (ho : o = some b ↔ f i = some b) :
    Counted (update f i o) b n := by
  obtain ⟨H, hH, rfl⟩ := h
  refine ⟨H, ?_, rfl⟩
  intro j
  by_cases hj : j = i
  · subst hj
    rw [update_self, hH, ho]
  · rw [update_of_ne hj, hH]

lemma add (h : Counted f b n) (hi : f i ≠ some b) :
    Counted (update f i (some b)) b (n + 1) := by
  obtain ⟨H, hH, rfl⟩ := h
  refine ⟨insert i H, ?_, Finset.card_insert_of_notMem fun hm => hi ((hH i).1 hm)⟩
  intro j
  by_cases hj : j = i
  · subst hj
    simp
  · rw [update_of_ne hj, Finset.mem_insert, hH]
    simp [hj]

lemma remove (h : Counted f b n) (hi : f i = some b) (ho : o ≠ some b) :
    Counted (update f i o) b (n - 1) := by
  obtain ⟨H, hH, rfl⟩ := h
  refine ⟨H.erase i, ?_, Finset.card_erase_of_mem ((hH i).2 hi)⟩
  intro j
  by_cases hj : j = i
  · subst hj
    simp [ho]
  · rw [update_of_ne hj, Finset.mem_erase, hH]
    simp [hj]

omit [DecidableEq ι] in
lemma eq_zero (h : Counted f b 0) (i : ι) : f i ≠ some b := by
  obtain ⟨H, hH, hc⟩ := h
  intro hi
  have hm := (hH i).2 hi
  rw [Finset.card_eq_zero.1 hc] at hm
  exact Finset.notMem_empty i hm

omit [DecidableEq ι] in
lemma unique (h : Counted f b 1) {j : ι} (hi : f i = some b) (hj : f j = some b) : i = j := by
  obtain ⟨H, hH, hc⟩ := h
  obtain ⟨k, rfl⟩ := Finset.card_eq_one.1 hc
  rw [Finset.mem_singleton.1 ((hH i).2 hi), Finset.mem_singleton.1 ((hH j).2 hj)]

omit [DecidableEq ι] in
lemma none (h : ∀ i, f i ≠ some b) : Counted f b 0 := by
  refine ⟨∅, ?_, rfl⟩
  intro i
  simp [h i]

end Counted

def Numbered {α : Type} (P : α → Prop) (n : ℕ) : Prop :=
  ∃ H : Finset α, (∀ x, x ∈ H ↔ P x) ∧ H.card = n

namespace Numbered

variable {α : Type} [DecidableEq α] {P Q : α → Prop} {n k : ℕ} {a : α}

omit [DecidableEq α] in
lemma congr (h : Numbered P n) (hq : ∀ x, Q x ↔ P x) : Numbered Q n := by
  obtain ⟨H, hH, hn⟩ := h
  exact ⟨H, fun x => (hH x).trans (hq x).symm, hn⟩

omit [DecidableEq α] in
lemma zero (h : ∀ x, ¬ P x) : Numbered P 0 := by
  refine ⟨∅, ?_, rfl⟩
  intro x
  simp [h x]

lemma add (h : Numbered P n) (ha : ¬ P a) (hq : ∀ x, Q x ↔ P x ∨ x = a) :
    Numbered Q (n + 1) := by
  obtain ⟨H, hH, rfl⟩ := h
  refine ⟨insert a H, ?_, Finset.card_insert_of_notMem fun hm => ha ((hH a).1 hm)⟩
  intro x
  rw [Finset.mem_insert, hH, hq, or_comm]

lemma remove (h : Numbered P n) (ha : P a) (hq : ∀ x, Q x ↔ P x ∧ x ≠ a) :
    Numbered Q (n - 1) := by
  obtain ⟨H, hH, rfl⟩ := h
  refine ⟨H.erase a, ?_, Finset.card_erase_of_mem ((hH a).2 ha)⟩
  intro x
  rw [Finset.mem_erase, hH, hq, and_comm]

omit [DecidableEq α] in
lemma pos (h : Numbered P n) (ha : P a) : 0 < n := by
  obtain ⟨H, hH, rfl⟩ := h
  exact Finset.card_pos.2 ⟨a, (hH a).2 ha⟩

omit [DecidableEq α] in
lemma exists_of_pos (h : Numbered P n) (hn : 0 < n) : ∃ a, P a := by
  obtain ⟨H, hH, rfl⟩ := h
  obtain ⟨a, ha⟩ := Finset.card_pos.1 hn
  exact ⟨a, (hH a).1 ha⟩

omit [DecidableEq α] in
lemma eq_zero (h : Numbered P 0) (a : α) : ¬ P a := by
  intro ha
  exact absurd (h.pos ha) (lt_irrefl 0)

end Numbered

end MyOS.Library
