import Mathlib.Tactic

/-! Resources that are held in places, and that must be given back once each. -/

namespace MyOS.Library

open Function

/-- The resource in each place, by its number; how many there have been; and how often each has been
given back. -/
structure Ledger (P : Type) where
  held : P → Option ℕ := fun _ => none
  next : ℕ := 0
  released : ℕ → ℕ := fun _ => 0

namespace Ledger

variable {P : Type}

structure Exact (l : Ledger P) : Prop where
  inj : ∀ p q r, l.held p = some r → l.held q = some r → p = q
  lt : ∀ p r, l.held p = some r → r < l.next
  live : ∀ p r, l.held p = some r → l.released r = 0
  gone : ∀ r < l.next, (∀ p, l.held p ≠ some r) → l.released r = 1
  fresh : ∀ r, l.next ≤ r → l.released r = 0

lemma exact_empty : ({} : Ledger P).Exact := by
  constructor <;> simp

variable [DecidableEq P] {l : Ledger P} {p q : P} {r : ℕ}

def acquire (l : Ledger P) (p : P) : Ledger P :=
  { l with held := update l.held p (some l.next), next := l.next + 1 }

def release (l : Ledger P) (p : P) : Ledger P :=
  match l.held p with
  | none => l
  | some r => { l with held := update l.held p none
                       released := update l.released r (l.released r + 1) }

def move (l : Ledger P) (p q : P) : Ledger P :=
  { l with held := update (update l.held p none) q (l.held p) }

@[simp]
lemma acquire_self : (l.acquire p).held p = some l.next :=
  update_self ..

lemma acquire_of_ne (h : q ≠ p) : (l.acquire p).held q = l.held q :=
  update_of_ne h ..

@[simp]
lemma release_self : (l.release p).held p = none := by
  unfold release
  cases h : l.held p with
  | none => exact h
  | some r => exact update_self ..

lemma release_of_ne (h : q ≠ p) : (l.release p).held q = l.held q := by
  unfold release
  cases l.held p with
  | none => rfl
  | some r => exact update_of_ne h ..

@[simp]
lemma move_target : (l.move p q).held q = l.held p :=
  update_self ..

lemma move_source (h : p ≠ q) : (l.move p q).held p = none :=
  (update_of_ne h ..).trans (update_self ..)

lemma move_of_ne {x : P} (hp : x ≠ p) (hq : x ≠ q) : (l.move p q).held x = l.held x :=
  (update_of_ne hq ..).trans (update_of_ne hp ..)

@[grind =]
lemma acquire_held : (l.acquire p).held q = if q = p then some l.next else l.held q := by
  split_ifs with h
  · rw [h, acquire_self]
  · exact acquire_of_ne h

@[grind =]
lemma release_held : (l.release p).held q = if q = p then none else l.held q := by
  split_ifs with h
  · rw [h, release_self]
  · exact release_of_ne h

lemma move_held {x : P} (hpq : p ≠ q) :
    (l.move p q).held x = if x = q then l.held p else if x = p then none else l.held x := by
  split_ifs with hq hp
  · rw [hq, move_target]
  · rw [hp, move_source hpq]
  · exact move_of_ne hp hq

namespace Exact

lemma acquire (h : l.Exact) (hp : l.held p = none) : (l.acquire p).Exact := by
  have hold : ∀ x r, (l.acquire p).held x = some r → x = p ∧ r = l.next ∨ l.held x = some r := by
    intro x r hx
    by_cases hxp : x = p
    · subst hxp
      rw [acquire_self] at hx
      exact .inl ⟨rfl, (Option.some.inj hx).symm⟩
    · rw [acquire_of_ne hxp] at hx
      exact .inr hx
  constructor
  · intro x y r hx hy
    obtain ⟨rfl, rfl⟩ | hx := hold x r hx
    · obtain ⟨rfl, -⟩ | hy := hold y _ hy
      · rfl
      · exact absurd (h.lt y _ hy) (lt_irrefl _)
    · obtain ⟨-, rfl⟩ | hy := hold y r hy
      · exact absurd (h.lt x _ hx) (lt_irrefl _)
      · exact h.inj x y r hx hy
  · intro x r hx
    obtain ⟨-, rfl⟩ | hx := hold x r hx
    · exact Nat.lt_succ_self _
    · exact Nat.lt_succ_of_lt (h.lt x r hx)
  · intro x r hx
    obtain ⟨-, rfl⟩ | hx := hold x r hx
    · exact h.fresh _ le_rfl
    · exact h.live x r hx
  · intro r hr hnone
    have hne : r ≠ l.next := by
      rintro rfl
      exact hnone p acquire_self
    refine h.gone r (lt_of_le_of_ne (Nat.lt_succ_iff.1 hr) hne) fun x hx => ?_
    by_cases hxp : x = p
    · subst hxp
      rw [hp] at hx
      cases hx
    · exact hnone x (by rw [acquire_of_ne hxp, hx])
  · exact fun r hr => h.fresh r (Nat.le_of_succ_le hr)

lemma release (h : l.Exact) : (l.release p).Exact := by
  cases hp : l.held p with
  | none =>
    have hsame : l.release p = l := by
      unfold Ledger.release
      rw [hp]
    rw [hsame]
    exact h
  | some r =>
    have hrel : l.release p = { l with held := update l.held p none
                                       released := update l.released r (l.released r + 1) } := by
      unfold Ledger.release
      rw [hp]
    have hold : ∀ x r', (l.release p).held x = some r' → r' ≠ r ∧ l.held x = some r' := by
      intro x r' hx
      by_cases hxp : x = p
      · subst hxp
        simp at hx
      · rw [release_of_ne hxp] at hx
        refine ⟨?_, hx⟩
        rintro rfl
        exact hxp (h.inj x p r' hx hp)
    have hnext : (l.release p).next = l.next := by rw [hrel]
    have hreleased : ∀ r', (l.release p).released r' = if r' = r then 1 else l.released r' := by
      intro r'
      rw [hrel]
      by_cases hr : r' = r
      · subst hr
        simp [h.live p r' hp]
      · simp [hr]
    constructor
    · exact fun x y r' hx hy => h.inj x y r' (hold x r' hx).2 (hold y r' hy).2
    · exact fun x r' hx => hnext ▸ h.lt x r' (hold x r' hx).2
    · intro x r' hx
      obtain ⟨hne, hx⟩ := hold x r' hx
      rw [hreleased, if_neg hne]
      exact h.live x r' hx
    · intro r' hr' hnone
      rw [hreleased]
      split_ifs with hrr
      · rfl
      · refine h.gone r' (hnext ▸ hr') fun x hx => ?_
        have hxp : x ≠ p := by
          rintro rfl
          rw [hp] at hx
          exact hrr (Option.some.inj hx).symm
        exact hnone x (by rw [release_of_ne hxp, hx])
    · intro r' hr'
      rw [hnext] at hr'
      have hne : r' ≠ r := by
        rintro rfl
        exact absurd (h.lt p r' hp) (not_lt.2 hr')
      rw [hreleased, if_neg hne]
      exact h.fresh r' hr'

lemma move (h : l.Exact) (hpq : p ≠ q) (hq : l.held q = none) : (l.move p q).Exact := by
  have hold : ∀ x r, (l.move p q).held x = some r →
      x = q ∧ l.held p = some r ∨ x ≠ q ∧ x ≠ p ∧ l.held x = some r := by
    intro x r hx
    by_cases hxq : x = q
    · subst hxq
      rw [move_target] at hx
      exact .inl ⟨rfl, hx⟩
    · by_cases hxp : x = p
      · subst hxp
        rw [move_source hpq] at hx
        simp at hx
      · rw [move_of_ne hxp hxq] at hx
        exact .inr ⟨hxq, hxp, hx⟩
  constructor
  · intro x y r hx hy
    obtain ⟨hxq, hpr⟩ | ⟨-, hxp, hxr⟩ := hold x r hx
    · obtain ⟨hyq, -⟩ | ⟨-, hyp, hyr⟩ := hold y r hy
      · rw [hxq, hyq]
      · exact absurd (h.inj y p r hyr hpr) hyp
    · obtain ⟨-, hpr⟩ | ⟨-, -, hyr⟩ := hold y r hy
      · exact absurd (h.inj x p r hxr hpr) hxp
      · exact h.inj x y r hxr hyr
  · intro x r hx
    obtain ⟨-, hx⟩ | ⟨-, -, hx⟩ := hold x r hx
    · exact h.lt p r hx
    · exact h.lt x r hx
  · intro x r hx
    obtain ⟨-, hx⟩ | ⟨-, -, hx⟩ := hold x r hx
    · exact h.live p r hx
    · exact h.live x r hx
  · intro r hr hnone
    refine h.gone r hr fun x hx => ?_
    by_cases hxp : x = p
    · subst hxp
      exact hnone q (by rw [move_target, hx])
    · have hxq : x ≠ q := by
        rintro rfl
        rw [hq] at hx
        simp at hx
      exact hnone x (by rw [move_of_ne hxp hxq, hx])
  · exact h.fresh

end Exact

end Ledger

end MyOS.Library
