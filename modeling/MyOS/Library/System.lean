import Mathlib.Tactic

/-! Labelled transition systems, their reachable states and their invariants. -/

namespace MyOS.Library

structure System (σ α : Type*) where
  init : σ → Prop
  step : σ → α → σ → Prop

namespace System

variable {σ α : Type*}

inductive Reachable (M : System σ α) : σ → Prop
  | init {s : σ} (h : M.init s) : Reachable M s
  | step {s t : σ} (a : α) (h : Reachable M s) (hs : M.step s a t) : Reachable M t

def guarded (M : System σ α) (c : σ → α → Prop) : System σ α where
  init := M.init
  step s a t := c s a ∧ M.step s a t

variable {M : System σ α}

lemma Reachable.invariant {I : σ → Prop} {s : σ} (h : M.Reachable s)
    (hi : ∀ s, M.init s → I s) (hs : ∀ s a t, I s → M.step s a t → I t) : I s := by
  induction h with
  | init h => exact hi _ h
  | step a _ hst ih => exact hs _ a _ ih hst

lemma Reachable.foldlM {f : σ → α → Option σ} {s t : σ} {l : List α}
    (hf : ∀ {s a t}, f s a = some t → M.step s a t) (h : M.Reachable s) (hr : l.foldlM f s = some t) : M.Reachable t := by
  induction l generalizing s with
  | nil =>
    cases hr
    exact h
  | cons a l ih =>
    obtain ⟨u, hu, hr⟩ := Option.bind_eq_some_iff.1 (List.foldlM_cons.symm.trans hr)
    exact ih (.step a h (hf hu)) hr

lemma Reachable.of_guarded {c : σ → α → Prop} {s : σ} (h : (M.guarded c).Reachable s) :
    M.Reachable s := by
  induction h with
  | init h => exact .init h
  | step a _ hst ih => exact .step a ih hst.2

end System

end MyOS.Library
