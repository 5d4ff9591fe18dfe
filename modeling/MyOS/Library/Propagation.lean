import Mathlib.Tactic

/-! Items that are made again from what the item before leaves: a change goes down as far as it changes anything. -/

namespace MyOS.Propagation

variable {α β σ : Type*} (redo : σ → α → α) (out : α → σ)

def Settled : σ → List α → Prop
  | _, [] => True
  | s, a :: l => redo s a = a ∧ Settled (out a) l

/-- The first item is made again, and those below it while what they start from changes. -/
def settle [DecidableEq σ] : σ → List α → List α
  | _, [] => []
  | s, a :: l => redo s a :: if out (redo s a) = out a then l else settle (out (redo s a)) l

def last (s : σ) (l : List α) : σ := l.getLast?.elim s out

variable {redo out}

@[simp] lemma last_nil (s : σ) : last out s [] = s := rfl

@[simp] lemma last_append_singleton (s : σ) (l : List α) (a : α) : last out s (l ++ [a]) = out a := by
  simp [last]

lemma last_cons (s : σ) (a : α) (l : List α) : last out s (a :: l) = last out (out a) l := by
  cases l using List.reverseRecOn with
  | nil => rfl
  | append_singleton l b => simp [last, List.getLast?_cons]

lemma Settled.append_iff {s : σ} {l m : List α} :
    Settled redo out s (l ++ m) ↔ Settled redo out s l ∧ Settled redo out (last out s l) m := by
  induction l generalizing s with
  | nil => simp [Settled]
  | cons a l ih => rw [List.cons_append, last_cons, Settled, Settled, ih, and_assoc]

section Settle
variable [DecidableEq σ] (hr : ∀ s t a, redo s (redo t a) = redo s a)
include hr

lemma Settled.settle_cons {s : σ} {a : α} {l : List α} (h : Settled redo out (out a) l) :
    Settled redo out s (settle redo out s (a :: l)) := by
  induction l generalizing s a with
  | nil =>
    refine ⟨hr _ _ _, ?_⟩
    split <;> trivial
  | cons b l ih =>
    refine ⟨hr _ _ _, ?_⟩
    split
    · next he => rwa [he]
    · exact ih h.2

lemma Settled.settle_cons_iff {s t : σ} {a : α} {l : List α} (h : Settled redo out t l) :
    Settled redo out s (settle redo out s (a :: l)) ↔ out (redo s a) ≠ out a ∨ Settled redo out (out a) l := by
  have hs : Settled redo out s (settle redo out s (a :: l)) ↔ Settled redo out (out (redo s a))
      (if out (redo s a) = out a then l else settle redo out (out (redo s a)) l) := and_iff_right (hr _ _ _)
  rw [hs]
  by_cases he : out (redo s a) = out a
  · rw [if_pos he, he]
    simp
  · rw [if_neg he]
    refine iff_of_true ?_ (.inl he)
    cases l with
    | nil => trivial
    | cons b l => exact settle_cons hr h.2

lemma Settled.settle_settle_iff {s t : σ} {a b : α} {l : List α} (h : Settled redo out t l) :
    Settled redo out s (settle redo out s (a :: settle redo out (out a) (b :: l))) ↔
      out (redo (out a) b) ≠ out b ∨ out (redo (out (redo s a)) b) ≠ out b ∨ Settled redo out (out b) l := by
  have hs : ∀ m, Settled redo out s (settle redo out s (a :: m)) ↔ Settled redo out (out (redo s a))
      (if out (redo s a) = out a then m else settle redo out (out (redo s a)) m) :=
    fun m => and_iff_right (hr _ _ _)
  rw [hs]
  by_cases hu : out (redo s a) = out a
  · rw [if_pos hu, hu, settle_cons_iff hr h]
    exact ⟨Or.inr, fun ho => ho.elim Or.inl id⟩
  · rw [if_neg hu, settle]
    by_cases hb : out (redo (out a) b) = out b
    · rw [if_pos hb, settle_cons_iff hr h, hr, hb]
      simp
    · have hl : Settled redo out (out (redo (out a) b)) (settle redo out (out (redo (out a) b)) l) := by
        cases l with
        | nil => trivial
        | cons c l => exact settle_cons hr h.2
      rw [if_neg hb]
      exact iff_of_true (settle_cons hr hl) (.inl hb)

lemma Settled.settle_append {s : σ} {l : List α} {a : α} {m : List α} (hl : Settled redo out s l)
    (hm : Settled redo out (out a) m) : Settled redo out s (l ++ settle redo out (last out s l) (a :: m)) :=
  Settled.append_iff.2 ⟨hl, Settled.settle_cons hr hm⟩

end Settle

lemma Settled.eq_of_map_eq {key : α → β} (hk : ∀ s a b, key a = key b → redo s a = redo s b) {s : σ} {l m : List α}
    (hl : Settled redo out s l) (hm : Settled redo out s m) (h : l.map key = m.map key) : l = m := by
  induction l generalizing s m with
  | nil => exact (List.map_eq_nil_iff.1 h.symm).symm
  | cons a l ih =>
    cases m with
    | nil => cases h
    | cons b m =>
      obtain ⟨he, ht⟩ := List.cons.inj h
      have hab : a = b := by rw [← hl.1, ← hm.1, hk s a b he]
      subst hab
      rw [ih hl.2 hm.2 ht]

lemma forall_settle_cons [DecidableEq σ] {p : α → Prop} (hp : ∀ s a, p (redo s a)) (s : σ) (a : α) {l : List α}
    (hl : ∀ b ∈ l, p b) : ∀ b ∈ settle redo out s (a :: l), p b := by
  induction l generalizing s a with
  | nil =>
    intro b hb
    rcases List.mem_cons.1 hb with rfl | hb
    · exact hp s a
    · split at hb <;> cases hb
  | cons c l ih =>
    intro b hb
    rcases List.mem_cons.1 hb with rfl | hb
    · exact hp s a
    · split at hb
      · exact hl b hb
      · exact ih _ c (fun d hd => hl d (List.mem_cons_of_mem _ hd)) b hb

end MyOS.Propagation
