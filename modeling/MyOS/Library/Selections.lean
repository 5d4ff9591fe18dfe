import Mathlib.Tactic

/-! Numbered selections from a list whose items may arrive in pieces. -/

namespace MyOS.Library

variable {α ρ : Type*}

def selected (sel : α → Bool) (i : ℕ) (xs : List α) : List (α × ℕ) := (xs.zipIdx i).filter fun x => sel x.1

def Harmless [DecidableEq α] (sel : α → Bool) (whole : ρ → α) (cut : ρ → List α) : List ρ → Prop
  | [] => True
  | r :: rs => if cut r = [whole r] then Harmless sel whole cut rs
    else (cut r).filter sel = [whole r].filter sel ∧ ∀ r ∈ rs, sel (whole r) = false ∧ ∀ p ∈ cut r, sel p = false

section Selected

variable {sel : α → Bool} {i j : ℕ} {xs ys : List α} {x : α}

lemma selected_nil : selected sel i [] = [] := rfl

lemma selected_append : selected sel i (xs ++ ys) = selected sel i xs ++ selected sel (i + xs.length) ys := by
  rw [selected, List.zipIdx_append, List.filter_append]
  rfl

lemma selected_cons : selected sel i (x :: xs) = (if sel x then [(x, i)] else []) ++ selected sel (i + 1) xs := by
  rw [selected, List.zipIdx_cons, List.filter_cons]
  split <;> rfl

lemma selected_map_fst : (selected sel i xs).map Prod.fst = xs.filter sel := by
  induction xs generalizing i with
  | nil => rfl
  | cons x xs ih =>
    rw [selected_cons, List.map_append, ih, List.filter_cons]
    split <;> rfl

lemma selected_eq_nil : selected sel i xs = [] ↔ ∀ x ∈ xs, sel x = false := by
  rw [← List.map_eq_nil_iff (f := Prod.fst), selected_map_fst, List.filter_eq_nil_iff]
  simp

lemma le_of_mem_selected {p : α × ℕ} (h : p ∈ selected sel i xs) : i ≤ p.2 ∧ sel p.1 = true ∧ p.1 ∈ xs := by
  obtain ⟨hm, hs⟩ := List.mem_filter.1 h
  have hp := List.mem_zipIdx hm
  exact ⟨hp.1, hs, hp.2.2 ▸ List.getElem_mem _⟩

end Selected

section Pieces

variable {P : α → Prop} {sel : α → Bool} {whole : ρ → α} {cut : ρ → List α} {r : ρ} {rs : List ρ} {ys : List α}
  {i j k : ℕ}

structure Cuts (P : α → Prop) (whole : ρ → α) (cut : ρ → List α) (rs : List ρ) : Prop where
  short : ∀ r ∈ rs, ∀ p ∈ cut r, P p
  first : ∀ r ∈ rs, P (whole r) → ∃ ps, cut r = whole r :: ps
  nonempty : ∀ r ∈ rs, 0 < (cut r).length
  long : ∀ r ∈ rs, cut r ≠ [whole r] → 1 < (cut r).length

lemma Cuts.tail (h : Cuts P whole cut (r :: rs)) : Cuts P whole cut rs :=
  ⟨fun s hs => h.short s (List.mem_cons_of_mem r hs), fun s hs => h.first s (List.mem_cons_of_mem r hs),
    fun s hs => h.nonempty s (List.mem_cons_of_mem r hs), fun s hs => h.long s (List.mem_cons_of_mem r hs)⟩

lemma Cuts.length_le (h : Cuts P whole cut rs) (hs : ∀ r ∈ rs, sel (whole r) = true → P (whole r)) :
    ((rs.map whole).filter sel).length ≤ ((rs.flatMap cut).filter sel).length := by
  induction rs with
  | nil => exact le_rfl
  | cons r rs ih =>
    have hrest := ih h.tail fun s hm => hs s (List.mem_cons_of_mem r hm)
    rw [List.map_cons, List.flatMap_cons, List.filter_append, List.length_append, List.filter_cons]
    split
    · rename_i hsel
      obtain ⟨ps, hps⟩ := h.first r List.mem_cons_self (hs r List.mem_cons_self hsel)
      rw [hps, List.filter_cons_of_pos hsel, List.length_cons, List.length_cons]
      omega
    · omega

lemma Cuts.front (h : Cuts P whole cut rs) (hys : ∀ y ∈ ys, P y)
    (heq : selected sel k ys ++ selected sel j (rs.flatMap cut) = selected sel i (rs.map whole)) :
    selected sel k ys = [] := by
  have hshort : ∀ r ∈ rs, sel (whole r) = true → P (whole r) := by
    intro r hr hsel
    have hm : whole r ∈ (selected sel i (rs.map whole)).map Prod.fst := by
      rw [selected_map_fst]
      exact List.mem_filter.2 ⟨List.mem_map_of_mem hr, hsel⟩
    rw [← heq, List.map_append, selected_map_fst, selected_map_fst, ← List.filter_append] at hm
    rcases List.mem_append.1 (List.mem_filter.1 hm).1 with hp | hp
    · exact hys _ hp
    · obtain ⟨s, hs, hp⟩ := List.mem_flatMap.1 hp
      exact h.short s hs _ hp
  have hle := h.length_le hshort
  have hlen := congrArg (List.length ∘ List.map Prod.fst) heq
  simp only [Function.comp_apply, List.map_append, selected_map_fst, List.length_append] at hlen
  rw [← List.map_eq_nil_iff (f := Prod.fst), selected_map_fst, ← List.length_eq_zero_iff]
  omega

lemma Cuts.nothing (h : Cuts P whole cut rs) (hij : i < j)
    (heq : selected sel j (rs.flatMap cut) = selected sel i (rs.map whole)) :
    ∀ r ∈ rs, sel (whole r) = false ∧ ∀ p ∈ cut r, sel p = false := by
  induction rs generalizing i j with
  | nil => exact fun r hr => absurd hr List.not_mem_nil
  | cons r rs ih =>
    rw [List.map_cons, List.flatMap_cons, selected_append, selected_cons] at heq
    by_cases hsel : sel (whole r) = true
    · -- the item itself would stand at a place in front of all pieces
      rw [if_pos hsel] at heq
      have hm : (whole r, i) ∈ selected sel j (cut r) ++ selected sel (j + (cut r).length) (rs.flatMap cut) :=
        heq ▸ List.mem_cons_self
      rcases List.mem_append.1 hm with hm | hm
      · exact absurd (le_of_mem_selected hm).1 (by dsimp only; omega)
      · exact absurd (le_of_mem_selected hm).1 (by dsimp only; omega)
    · rw [if_neg hsel, List.nil_append] at heq
      have hempty := h.tail.front (h.short r List.mem_cons_self) heq
      rw [hempty, List.nil_append] at heq
      have hpos := h.nonempty r List.mem_cons_self
      exact List.forall_mem_cons.2
        ⟨⟨by simpa using hsel, selected_eq_nil.1 hempty⟩, ih h.tail (by omega) heq⟩

lemma selected_nothing (h : ∀ r ∈ rs, sel (whole r) = false ∧ ∀ p ∈ cut r, sel p = false) :
    selected sel j (rs.flatMap cut) = [] ∧ selected sel i (rs.map whole) = [] := by
  refine ⟨selected_eq_nil.2 fun p hp => ?_, selected_eq_nil.2 fun x hx => ?_⟩
  · obtain ⟨r, hr, hp⟩ := List.mem_flatMap.1 hp
    exact (h r hr).2 p hp
  · obtain ⟨r, hr, rfl⟩ := List.mem_map.1 hx
    exact (h r hr).1

theorem Cuts.selected_eq_iff [DecidableEq α] (h : Cuts P whole cut rs) :
    selected sel i (rs.flatMap cut) = selected sel i (rs.map whole) ↔ Harmless sel whole cut rs := by
  induction rs generalizing i with
  | nil => exact iff_of_true rfl trivial
  | cons r rs ih =>
    rw [List.map_cons, List.flatMap_cons, selected_append, Harmless, ← List.singleton_append, selected_append]
    by_cases hone : cut r = [whole r]
    · rw [if_pos hone, hone, List.append_cancel_left_eq]
      exact ih h.tail
    rw [if_neg hone]
    have hlong := h.long r List.mem_cons_self hone
    have hshort := h.short r List.mem_cons_self
    have hself : P (whole r) → ∃ ps, cut r = whole r :: ps := h.first r List.mem_cons_self
    have hsingle : selected sel i [whole r] = if sel (whole r) then [(whole r, i)] else [] := by
      rw [selected_cons]
      exact List.append_nil _
    constructor
    · intro heq
      rw [hsingle] at heq
      by_cases hsel : sel (whole r) = true
      · rw [if_pos hsel] at heq
        have hP : P (whole r) := by
          have hm : (whole r, i) ∈ selected sel i (cut r) ++ selected sel (i + (cut r).length) (rs.flatMap cut) :=
            heq ▸ List.mem_cons_self
          rcases List.mem_append.1 hm with hm | hm
          · exact hshort _ (le_of_mem_selected hm).2.2
          · obtain ⟨s, hs, hp⟩ := List.mem_flatMap.1 (le_of_mem_selected hm).2.2
            exact h.tail.short s hs _ hp
        obtain ⟨ps, hps⟩ := hself hP
        rw [hps] at heq hlong hshort
        rw [selected_cons, if_pos hsel, List.append_assoc, List.append_cancel_left_eq] at heq
        have hempty := h.tail.front (fun y hy => hshort y (List.mem_cons_of_mem _ hy)) heq
        rw [hempty, List.nil_append] at heq
        refine ⟨?_, h.tail.nothing (by rw [List.length_singleton]; omega) heq⟩
        rw [hps, List.filter_cons_of_pos hsel, List.filter_cons_of_pos hsel]
        refine congrArg (whole r :: ·) (List.filter_eq_nil_iff.2 fun p hp => ?_)
        simpa using selected_eq_nil.1 hempty p hp
      · rw [if_neg hsel, List.nil_append] at heq
        have hempty := h.tail.front hshort heq
        rw [hempty, List.nil_append] at heq
        refine ⟨?_, h.tail.nothing (by rw [List.length_singleton]; omega) heq⟩
        rw [List.filter_cons_of_neg hsel, List.filter_nil, List.filter_eq_nil_iff]
        intro p hp
        simpa using selected_eq_nil.1 hempty p hp
    · rintro ⟨hfilter, hnothing⟩
      obtain ⟨h₁, h₂⟩ := selected_nothing (i := i + [whole r].length) (j := i + (cut r).length) hnothing
      rw [h₁, h₂, List.append_nil, List.append_nil, hsingle]
      by_cases hsel : sel (whole r) = true
      · rw [if_pos hsel]
        rw [List.filter_cons_of_pos hsel, List.filter_nil] at hfilter
        have hm : whole r ∈ (cut r).filter sel := hfilter ▸ List.mem_singleton_self _
        obtain ⟨ps, hps⟩ := hself (hshort _ (List.mem_filter.1 hm).1)
        rw [hps, List.filter_cons_of_pos hsel] at hfilter
        have hrest := (List.cons.inj hfilter).2
        rw [hps, selected_cons, if_pos hsel, selected_eq_nil.2 fun p hp => ?_]
        · rfl
        · simpa using List.filter_eq_nil_iff.1 hrest p hp
      · rw [if_neg hsel]
        rw [List.filter_cons_of_neg hsel, List.filter_nil, List.filter_eq_nil_iff] at hfilter
        exact selected_eq_nil.2 fun p hp => by simpa using hfilter p hp

end Pieces

end MyOS.Library
