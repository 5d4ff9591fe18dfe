import Mathlib.Logic.Function.Basic
import Mathlib.Logic.Relation
import Mathlib.Tactic

/-! Parent maps: ancestors, cycles, and what attaching a node under a new parent does to them. -/

namespace MyOS.Library.Forest

open Relation

variable {α : Type*}

def Up (parent : α → Option α) (a b : α) : Prop := parent a = some b

def Acyclic (parent : α → Option α) : Prop := ∀ a, ¬ TransGen (Up parent) a a

def Reaches (parent : α → Option α) : α → α → Prop := ReflTransGen (Up parent)

/-- A walk from `a` upwards that has not met `x` yet is at `p`; `none` is beyond a root. -/
inductive Walked (parent : α → Option α) (x a : α) : Option α → Prop
  | start : Walked parent x a (some a)
  | up {b : α} (h : Walked parent x a (some b)) (hb : b ≠ x) : Walked parent x a (parent b)

variable {parent parent' : α → Option α} {a b x y : α} {p : Option α}

lemma Walked.reaches (h : Walked parent x a p) (hx : Reaches parent a x) :
    ∃ b, p = some b ∧ Reaches parent b x := by
  induction h with
  | start => exact ⟨a, rfl, hx⟩
  | up _ hb ih =>
    obtain ⟨c, hc, hcx⟩ := ih
    cases hc
    rcases ReflTransGen.cases_head hcx with rfl | ⟨d, hd, hdx⟩
    · exact absurd rfl hb
    · exact ⟨d, hd, hdx⟩

lemma Walked.not_reaches (h : Walked parent x a none) : ¬ Reaches parent a x := fun hx => by
  obtain ⟨b, hb, -⟩ := h.reaches hx
  cases hb

lemma Walked.reaches_of_some (h : Walked parent x a (some b)) : Reaches parent a b := by
  suffices ∀ p, Walked parent x a p → ∀ b, p = some b → Reaches parent a b from this _ h _ rfl
  intro p hp
  induction hp with
  | start => rintro b ⟨⟩; exact .refl
  | up _ _ ih => exact fun c hc => (ih _ rfl).tail hc

lemma Walked.congr (h : Walked parent x a p)
    (hp : ∀ b, Reaches parent a b → parent' b = parent b) : Walked parent' x a p := by
  induction h with
  | start => exact .start
  | up h hb ih => exact hp _ h.reaches_of_some ▸ .up ih hb

lemma Reaches.congr (h : Reaches parent' a b)
    (hp : ∀ c, Reaches parent a c → parent' c = parent c) : Reaches parent a b := by
  induction h with
  | refl => exact .refl
  | tail _ hcd ih => exact ih.tail ((hp _ ih).symm.trans hcd)

lemma Acyclic.mono (h : Acyclic parent) (hp : ∀ a b, Up parent' a b → Up parent a b) :
    Acyclic parent' := fun a ha => h a (TransGen.mono hp a a ha)

lemma Acyclic.of_rank {r : α → ℕ} (h : ∀ a b, parent a = some b → r b < r a) :
    Acyclic parent := fun a ha => by
  have hlt : ∀ b, TransGen (Up parent) a b → r b < r a := by
    intro b hb
    induction hb with
    | single hb => exact h _ _ hb
    | tail _ hcd ih => exact (h _ _ hcd).trans ih
  exact lt_irrefl _ (hlt a ha)

lemma Reaches.no_cycle (h : Reaches parent a b) (hb : parent b = none) :
    ¬ TransGen (Up parent) a a := by
  induction h using ReflTransGen.head_induction_on with
  | refl =>
    intro hc
    obtain ⟨d, hd, -⟩ := TransGen.head'_iff.1 hc
    rw [Up, hb] at hd
    cases hd
  | head hac _ ih =>
    intro hc
    obtain ⟨d, hd, hda⟩ := TransGen.head'_iff.1 hc
    cases hac.symm.trans hd
    exact ih (TransGen.tail' hda hac)

section Update

variable [DecidableEq α]

lemma Reaches.of_update (h : Reaches (Function.update parent x (some y)) y b)
    (hx : ¬ Reaches parent y x) : Reaches parent y b := by
  refine h.congr fun c hc => Function.update_of_ne ?_ ..
  rintro rfl
  exact hx hc

lemma path_update (h : TransGen (Up (Function.update parent x (some y))) a b) :
    TransGen (Up parent) a b ∨ Reaches (Function.update parent x (some y)) a x ∧
      Reaches (Function.update parent x (some y)) y b := by
  have hstep : ∀ c d, Up (Function.update parent x (some y)) c d →
      c = x ∧ d = y ∨ Up parent c d := by
    intro c d hcd
    by_cases hc : c = x
    · rw [Up, hc, Function.update_self] at hcd
      exact .inl ⟨hc, (Option.some.inj hcd).symm⟩
    · rw [Up, Function.update_of_ne hc] at hcd
      exact .inr hcd
  induction h with
  | single h =>
    rcases hstep _ _ h with ⟨rfl, rfl⟩ | h
    · exact .inr ⟨.refl, .refl⟩
    · exact .inl (.single h)
  | tail hac hcd ih =>
    rcases ih with ih | ⟨hax, hyc⟩
    · rcases hstep _ _ hcd with ⟨rfl, rfl⟩ | h
      · exact .inr ⟨hac.to_reflTransGen, .refl⟩
      · exact .inl (ih.tail h)
    · exact .inr ⟨hax, hyc.tail hcd⟩

lemma Acyclic.update (h : Acyclic parent) (hx : ¬ Reaches parent y x) :
    Acyclic (Function.update parent x (some y)) := fun a ha => by
  rcases path_update ha with ha | ⟨hax, hya⟩
  · exact h a ha
  · exact hx (Reaches.of_update (hya.trans hax) hx)

end Update

end MyOS.Library.Forest
