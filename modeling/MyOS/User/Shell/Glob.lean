import MyOS.Library.Wildcards
import MyOS.User.Shell.Lex

/-! `glob_match`, which the shell compares the names in a directory with. -/

namespace MyOS.User.Shell

open Library Wildcards

def star : UInt8 := 42
def question : UInt8 := 63

def skipStars : Text → Text
  | [] => []
  | p :: pat => if p = star then skipStars pat else p :: pat

def matchTails (f : Text → Bool) : Text → Bool
  | [] => f []
  | c :: t => if f (c :: t) then true else matchTails f t

lemma length_skipStars (pat : Text) : (skipStars pat).length ≤ pat.length := by
  induction pat with
  | nil => exact le_rfl
  | cons p pat ih =>
    rw [skipStars]
    split_ifs
    · exact ih.trans (Nat.le_succ _)
    · exact le_rfl

def globMatch : Text → Text → Bool
  | [], s => s.isEmpty
  | p :: pat, s =>
    if p = star then matchTails (globMatch (skipStars pat)) s
    else
      match s with
      | [] => false
      | c :: s => if p ≠ question ∧ p ≠ c then false else globMatch pat s
termination_by pat => pat.length
decreasing_by
  · exact Nat.lt_succ_of_le (length_skipStars pat)
  · exact Nat.lt_succ_self pat.length

def piece (p : UInt8) : Piece UInt8 :=
  if p = star then .many else if p = question then .one else .exactly p

def globLanguage (pat : Text) : Language UInt8 := Wildcards.language (pat.map piece)

section Glob

variable {f : Text → Bool} {p c : UInt8} {pat s : Text}

lemma matchTails_iff : matchTails f s = true ↔ ∃ t, f t = true ∧ t <:+ s := by
  induction s with
  | nil =>
    rw [matchTails]
    constructor
    · exact fun h => ⟨[], h, List.suffix_refl []⟩
    · rintro ⟨t, h, ht⟩
      rwa [List.eq_nil_of_suffix_nil ht] at h
  | cons c s ih =>
    rw [matchTails, Bool.if_true_left, Bool.or_eq_true, decide_eq_true_eq, ih]
    constructor
    · rintro (h | ⟨t, h, ht⟩)
      · exact ⟨c :: s, h, List.suffix_refl _⟩
      · exact ⟨t, h, ht.trans (List.suffix_cons c s)⟩
    · rintro ⟨t, h, ht⟩
      rcases List.suffix_cons_iff.1 ht with rfl | ht
      · exact .inl h
      · exact .inr ⟨t, h, ht⟩

lemma piece_star : piece star = .many := if_pos rfl

lemma language_skipStars : globLanguage (star :: skipStars pat) = globLanguage (star :: pat) := by
  induction pat with
  | nil => rfl
  | cons p pat ih =>
    rw [skipStars]
    split_ifs with hp
    · subst hp
      rw [ih, globLanguage, globLanguage, List.map_cons, List.map_cons, List.map_cons, piece_star, many_many]
    · rfl

lemma mem_star : s ∈ globLanguage (star :: pat) ↔ ∃ t ∈ globLanguage pat, t <:+ s := by
  rw [globLanguage, List.map_cons, piece_star, mem_many, globLanguage]

lemma mem_char (hp : p ≠ star) : s ∈ globLanguage (p :: pat) ↔
    ∃ c t, s = c :: t ∧ (p = question ∨ p = c) ∧ t ∈ globLanguage pat := by
  by_cases hq : p = question
  · rw [globLanguage, List.map_cons, piece, if_neg hp, if_pos hq, Wildcards.mem_one]
    exact ⟨fun ⟨c, t, hs, ht⟩ => ⟨c, t, hs, .inl hq, ht⟩, fun ⟨c, t, hs, _, ht⟩ => ⟨c, t, hs, ht⟩⟩
  · rw [globLanguage, List.map_cons, piece, if_neg hp, if_neg hq, mem_exactly]
    constructor
    · rintro ⟨t, hs, ht⟩
      exact ⟨p, t, hs, .inr rfl, ht⟩
    · rintro ⟨c, t, hs, hc, ht⟩
      exact ⟨t, (hc.resolve_left hq).symm ▸ hs, ht⟩

lemma globMatch_star : globMatch (star :: pat) s = matchTails (globMatch (skipStars pat)) s := by
  cases s <;> rw [globMatch, if_pos rfl]

/-- The language of a pattern with the parts of a text, one part for each byte of the pattern. -/
theorem globMatch_iff_mem (pat s : Text) : globMatch pat s = true ↔ s ∈ globLanguage pat := by
  induction pat, s using globMatch.induct with
  | case1 s =>
    rw [globMatch, List.isEmpty_iff, globLanguage, List.map_nil, mem_nil]
  | case2 pat s ih =>
    -- The call in the loop is on a shorter pattern, and `ih` is about every tail of the string.
    rw [globMatch_star, matchTails_iff, ← language_skipStars, mem_star]
    exact exists_congr fun t => and_congr_left fun _ => ih t
  | case3 p pat hp =>
    rw [globMatch, if_neg hp, mem_char hp]
    refine iff_of_false Bool.false_ne_true ?_
    rintro ⟨c, t, ⟨⟩, _⟩
  | case4 p pat hp c s hc =>
    rw [globMatch, if_neg hp, if_pos hc, mem_char hp]
    refine iff_of_false Bool.false_ne_true ?_
    rintro ⟨d, t, hs, hd, -⟩
    obtain ⟨rfl, rfl⟩ := List.cons.inj hs
    exact hd.elim hc.1 hc.2
  | case5 p pat hp c s hc ih =>
    rw [globMatch, if_neg hp, if_neg hc, mem_char hp, ih]
    constructor
    · intro h
      exact ⟨c, s, rfl, by tauto, h⟩
    · rintro ⟨d, t, hs, -, h⟩
      obtain ⟨rfl, rfl⟩ := List.cons.inj hs
      exact h

end Glob

end MyOS.User.Shell
