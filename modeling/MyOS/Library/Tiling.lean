import Mathlib.Algebra.BigOperators.Group.List.Basic
import Mathlib.Tactic

/-! Blocks that lie one behind the other, from one place to another one. -/

namespace MyOS.Library

def Tiles (len : ℕ → ℕ) : ℕ → List ℕ → ℕ → Prop
  | a, [], e => a = e
  | a, b :: bs, e => b = a ∧ Tiles len (a + len a) bs e

namespace Tiles

variable {len len' : ℕ → ℕ} {a b c e n : ℕ} {bs : List ℕ}

lemma congr (h : Tiles len a bs e) (hlen : ∀ b ∈ bs, len' b = len b) : Tiles len' a bs e := by
  induction bs generalizing a with
  | nil => exact h
  | cons b bs ih =>
    obtain ⟨rfl, h⟩ := h
    refine ⟨rfl, ?_⟩
    rw [hlen b List.mem_cons_self]
    exact ih h fun c hc => hlen c (List.mem_cons_of_mem _ hc)

lemma concat (h : Tiles len a bs e) : Tiles len a (bs ++ [e]) (e + len e) := by
  induction bs generalizing a with
  | nil =>
    obtain rfl := h
    exact ⟨rfl, rfl⟩
  | cons b bs ih => exact ⟨h.1, ih h.2⟩

lemma sum (h : Tiles len a bs e) : a + (bs.map len).sum = e := by
  induction bs generalizing a with
  | nil => exact h
  | cons b bs ih =>
    obtain ⟨rfl, h⟩ := h
    rw [List.map_cons, List.sum_cons, ← Nat.add_assoc]
    exact ih h

lemma mem_bounds (h : Tiles len a bs e) (hb : b ∈ bs) : a ≤ b ∧ b + len b ≤ e := by
  induction bs generalizing a with
  | nil => cases hb
  | cons c bs ih =>
    obtain ⟨rfl, h⟩ := h
    rcases List.mem_cons.1 hb with rfl | hb
    · have := h.sum
      omega
    · have := ih h hb
      omega

lemma apart (h : Tiles len a bs e) (hb : b ∈ bs) (hc : c ∈ bs) : b = c ∨ b + len b ≤ c ∨ c + len c ≤ b := by
  induction bs generalizing a with
  | nil => cases hb
  | cons d bs ih =>
    obtain ⟨rfl, h⟩ := h
    rcases List.mem_cons.1 hb with hbd | hbs
    · rcases List.mem_cons.1 hc with hcd | hcs
      · exact .inl (hbd.trans hcd.symm)
      · subst hbd
        exact .inr (.inl (h.mem_bounds hcs).1)
    · rcases List.mem_cons.1 hc with hcd | hcs
      · subst hcd
        exact .inr (.inr (h.mem_bounds hbs).1)
      · exact ih h hbs hcs

lemma nodup (h : Tiles len a bs e) (hlen : ∀ b, 0 < len b) : bs.Nodup := by
  induction bs generalizing a with
  | nil => exact List.nodup_nil
  | cons b bs ih =>
    obtain ⟨rfl, h⟩ := h
    refine List.nodup_cons.2 ⟨fun hb => ?_, ih h⟩
    have := (h.mem_bounds hb).1
    have := hlen b
    omega

lemma eq_concat (h : Tiles len a bs e) (hlen : ∀ b, 0 < len b) (hb : b ∈ bs) (he : b + len b = e) :
    ∃ init, bs = init ++ [b] ∧ Tiles len a init b := by
  induction bs generalizing a with
  | nil => cases hb
  | cons c bs ih =>
    obtain ⟨rfl, h⟩ := h
    rcases List.mem_cons.1 hb with rfl | hb
    · cases bs with
      | nil => exact ⟨[], rfl, rfl⟩
      | cons d bs =>
        have := (h.mem_bounds List.mem_cons_self).2
        have := h.1
        have := hlen d
        omega
    · obtain ⟨init, rfl, hinit⟩ := ih h hb
      exact ⟨c :: init, rfl, rfl, hinit⟩

lemma dvd (h : Tiles len a bs e) (ha : n ∣ a) (hlen : ∀ b ∈ bs, n ∣ len b) (hb : b ∈ bs) : n ∣ b := by
  induction bs generalizing a with
  | nil => cases hb
  | cons c bs ih =>
    obtain ⟨rfl, h⟩ := h
    rcases List.mem_cons.1 hb with rfl | hb
    · exact ha
    · exact ih h (dvd_add ha (hlen c List.mem_cons_self)) (fun d hd => hlen d (List.mem_cons_of_mem _ hd)) hb

end Tiles

end MyOS.Library
