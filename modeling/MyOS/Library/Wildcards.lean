import Mathlib.Computability.Language
import Mathlib.Tactic

/-! Patterns with wildcards, and the languages they stand for. -/

namespace MyOS.Library.Wildcards

variable {α : Type*}

inductive Piece (α : Type*)
  | many
  | one
  | exactly (a : α)

def Piece.language : Piece α → Language α
  | .many => {_w | True}
  | .one => {w | ∃ a, w = [a]}
  | .exactly a => {[a]}

def language (ps : List (Piece α)) : Language α := (ps.map Piece.language).prod

variable {ps : List (Piece α)} {w : List α} {a : α}

lemma mem_nil : w ∈ language ([] : List (Piece α)) ↔ w = [] := Language.mem_one w

lemma mem_cons {p : Piece α} : w ∈ language (p :: ps) ↔
    ∃ u ∈ p.language, ∃ v ∈ language ps, u ++ v = w := by
  rw [language, List.map_cons, List.prod_cons, Language.mem_mul, language]

lemma mem_many : w ∈ language (.many :: ps) ↔ ∃ v ∈ language ps, v <:+ w := by
  rw [mem_cons]
  constructor
  · rintro ⟨u, -, v, hv, rfl⟩
    exact ⟨v, hv, List.suffix_append u v⟩
  · rintro ⟨v, hv, u, rfl⟩
    exact ⟨u, trivial, v, hv, rfl⟩

lemma mem_one : w ∈ language (.one :: ps) ↔ ∃ a v, w = a :: v ∧ v ∈ language ps := by
  rw [mem_cons]
  constructor
  · rintro ⟨_, ⟨a, rfl⟩, v, hv, rfl⟩
    exact ⟨a, v, rfl, hv⟩
  · rintro ⟨a, v, rfl, hv⟩
    exact ⟨[a], ⟨a, rfl⟩, v, hv, rfl⟩

lemma mem_exactly : w ∈ language (.exactly a :: ps) ↔ ∃ v, w = a :: v ∧ v ∈ language ps := by
  rw [mem_cons]
  constructor
  · rintro ⟨_, rfl, v, hv, rfl⟩
    exact ⟨v, rfl, hv⟩
  · rintro ⟨v, rfl, hv⟩
    exact ⟨[a], rfl, v, hv, rfl⟩

lemma many_many : language (.many :: .many :: ps) = language (.many :: ps) := by
  ext w
  rw [mem_many, mem_many]
  constructor
  · rintro ⟨v, hv, hvw⟩
    obtain ⟨u, hu, huv⟩ := mem_many.1 hv
    exact ⟨u, hu, huv.trans hvw⟩
  · rintro ⟨v, hv, hvw⟩
    exact ⟨w, mem_many.2 ⟨v, hv, hvw⟩, List.suffix_refl w⟩

end MyOS.Library.Wildcards
