import Mathlib.Data.List.TakeWhile
import Mathlib.Tactic

/-! Words: the longest runs of letters between separators. -/

namespace MyOS.Library.Words

variable {α : Type} (sep : α)

def Word (w : List α) : Prop := w ≠ [] ∧ sep ∉ w

def prefixed (ws : List (List α)) : List α := ws.flatMap (sep :: ·)

section Prefixed

variable {sep} {w : List α} {ws ws' : List (List α)}

@[simp] lemma prefixed_nil : prefixed sep ([] : List (List α)) = [] := rfl

@[simp] lemma prefixed_cons : prefixed sep (w :: ws) = sep :: (w ++ prefixed sep ws) := rfl

lemma prefixed_append : prefixed sep (ws ++ ws') = prefixed sep ws ++ prefixed sep ws' :=
  List.flatMap_append

lemma prefixed_concat : prefixed sep (ws ++ [w]) = prefixed sep ws ++ sep :: w := by
  rw [prefixed_append, prefixed_cons, prefixed_nil, List.append_nil]

lemma prefixed_eq_nil : prefixed sep ws = [] ↔ ws = [] := by
  cases ws <;> simp

lemma prefixed_head : ∀ c r, prefixed sep ws = c :: r → c = sep := by
  intro c r h
  cases ws with
  | nil => cases h
  | cons w ws => exact (List.cons.inj h).1.symm

end Prefixed

variable [DecidableEq α]

def wordsIn : ℕ → List α → List (List α)
  | 0, _ => []
  | n + 1, l =>
    match l.dropWhile (· == sep) with
    | [] => []
    | c :: r => (c :: r).takeWhile (· != sep) :: wordsIn n ((c :: r).dropWhile (· != sep))

def words (l : List α) : List (List α) := wordsIn sep l.length l

variable {sep} {l l' w : List α} {ws ws' : List (List α)} {n : ℕ}

omit [DecidableEq α] in
lemma length_dropWhile_le (p : α → Bool) (l : List α) : (l.dropWhile p).length ≤ l.length :=
  (List.dropWhile_suffix p).length_le

lemma head_rest {r : List α} {c : α} (h : l.dropWhile (· != sep) = c :: r) : c = sep := by
  have hne : l.dropWhile (· != sep) ≠ [] := by
    rw [h]
    exact List.cons_ne_nil _ _
  have hhead := List.head_dropWhile_not (· != sep) hne
  simp only [h, List.head_cons] at hhead
  simpa using hhead

lemma head_letter {r : List α} {c : α} (h : l.dropWhile (· == sep) = c :: r) : c ≠ sep := by
  have hne : l.dropWhile (· == sep) ≠ [] := by
    rw [h]
    exact List.cons_ne_nil _ _
  have hhead := List.head_dropWhile_not (· == sep) hne
  simp only [h, List.head_cons] at hhead
  simpa using hhead

lemma length_rest {r : List α} {c : α} (h : l.dropWhile (· == sep) = c :: r) :
    ((c :: r).dropWhile (· != sep)).length < l.length := by
  have hc := head_letter h
  have hle := length_dropWhile_le (· == sep) l
  have hrest := length_dropWhile_le (· != sep) r
  rw [h, List.length_cons] at hle
  rw [List.dropWhile_cons_of_pos (by simpa using hc)]
  omega

lemma wordsIn_eq (hn : l.length ≤ n) : wordsIn sep n l = words sep l := by
  have hsame : ∀ n m (l : List α), l.length ≤ n → l.length ≤ m → wordsIn sep n l = wordsIn sep m l := by
    intro n
    induction n with
    | zero =>
      intro m l hn _
      obtain rfl := List.eq_nil_of_length_eq_zero (Nat.le_zero.1 hn)
      cases m <;> rfl
    | succ n ih =>
      intro m l hn hm
      cases m with
      | zero =>
        obtain rfl := List.eq_nil_of_length_eq_zero (Nat.le_zero.1 hm)
        rfl
      | succ m =>
        rw [wordsIn, wordsIn]
        split
        · rfl
        · rename_i c r h
          have hlt := length_rest h
          rw [ih m _ (by omega) (by omega)]
  exact hsame n _ l hn le_rfl

lemma words_of_empty (h : l.dropWhile (· == sep) = []) : words sep l = [] := by
  cases l with
  | nil => rfl
  | cons c l => rw [words, List.length_cons, wordsIn, h]

lemma words_of_cons {r : List α} {c : α} (h : l.dropWhile (· == sep) = c :: r) :
    words sep l = (c :: r).takeWhile (· != sep) :: words sep ((c :: r).dropWhile (· != sep)) := by
  have hlt := length_rest h
  cases l with
  | nil => cases h
  | cons d l =>
    rw [words, List.length_cons, wordsIn, h]
    rw [List.length_cons] at hlt
    have hrest : wordsIn sep l.length ((c :: r).dropWhile (· != sep)) = words sep ((c :: r).dropWhile (· != sep)) :=
      wordsIn_eq (Nat.le_of_lt_succ hlt)
    rw [← hrest]

lemma words_nil : words sep ([] : List α) = [] := rfl

lemma words_sep : words sep (sep :: l) = words sep l := by
  have hdrop : (sep :: l).dropWhile (· == sep) = l.dropWhile (· == sep) :=
    List.dropWhile_cons_of_pos (by simp)
  cases h : l.dropWhile (· == sep) with
  | nil => rw [words_of_empty h, words_of_empty (hdrop.trans h)]
  | cons c r => rw [words_of_cons h, words_of_cons (hdrop.trans h)]

lemma words_append (hw : Word sep w) (hl : ∀ c r, l = c :: r → c = sep) :
    words sep (w ++ l) = w :: words sep l := by
  obtain ⟨hne, hsep⟩ := hw
  have htake : (w ++ l).takeWhile (· != sep) = w := by
    rw [List.takeWhile_append_of_pos fun a ha => by
      have : a ≠ sep := fun he => hsep (he ▸ ha)
      simpa using this]
    cases l with
    | nil => simp
    | cons c r => rw [hl c r rfl, List.takeWhile_cons_of_neg (by simp), List.append_nil]
  have hdrop : (w ++ l).dropWhile (· != sep) = l := by
    rw [List.dropWhile_append_of_pos fun a ha => by
      have : a ≠ sep := fun he => hsep (he ▸ ha)
      simpa using this]
    cases l with
    | nil => rfl
    | cons c r => rw [hl c r rfl, List.dropWhile_cons_of_neg (by simp)]
  cases w with
  | nil => exact absurd rfl hne
  | cons a w =>
    have ha : a ≠ sep := fun he => hsep (he ▸ List.mem_cons_self)
    have hstart : ((a :: w) ++ l).dropWhile (· == sep) = a :: (w ++ l) :=
      List.dropWhile_cons_of_neg (by simpa using ha)
    rw [words_of_cons hstart, ← List.cons_append, htake, hdrop]

lemma words_prefixed (h : ∀ w ∈ ws, Word sep w) : words sep (prefixed sep ws) = ws := by
  induction ws with
  | nil => rfl
  | cons w ws ih =>
    rw [prefixed_cons, words_sep, words_append (h w List.mem_cons_self) prefixed_head,
      ih fun v hv => h v (List.mem_cons_of_mem _ hv)]

lemma words_append_sep : words sep (l ++ sep :: l') = words sep l ++ words sep l' := by
  induction hn : l.length using Nat.strong_induction_on generalizing l with
  | _ n ih =>
    subst hn
    cases h : l.dropWhile (· == sep) with
    | nil =>
      have hall : ∀ a ∈ l, (a == sep) = true := by
        simpa [List.dropWhile_eq_nil_iff] using h
      have hdrop : (l ++ sep :: l').dropWhile (· == sep) = (sep :: l').dropWhile (· == sep) :=
        List.dropWhile_append_of_pos hall
      rw [words_of_empty h, List.nil_append]
      cases h' : (sep :: l').dropWhile (· == sep) with
      | nil => rw [words_of_empty (hdrop.trans h'), ← words_sep, words_of_empty h']
      | cons c r => rw [words_of_cons (hdrop.trans h'), ← words_sep (l := l'), words_of_cons h']
    | cons c r =>
      have hlt := length_rest h
      have hdrop : (l ++ sep :: l').dropWhile (· == sep) = c :: (r ++ sep :: l') := by
        rw [List.dropWhile_append, h]
        rfl
      have htake : (c :: (r ++ sep :: l')).takeWhile (· != sep) = (c :: r).takeWhile (· != sep) := by
        rw [← List.cons_append, List.takeWhile_append]
        split
        · rw [List.takeWhile_cons_of_neg (by simp), List.append_nil]
          rename_i he
          exact ((List.takeWhile_prefix _).eq_of_length he).symm
        · rfl
      have hrest : (c :: (r ++ sep :: l')).dropWhile (· != sep) =
          (c :: r).dropWhile (· != sep) ++ sep :: l' := by
        rw [← List.cons_append, List.dropWhile_append]
        split
        · rename_i he
          rw [List.isEmpty_iff.1 he, List.dropWhile_cons_of_neg (by simp), List.nil_append]
        · rfl
      rw [words_of_cons h, words_of_cons hdrop, htake, hrest, ih _ hlt rfl, List.cons_append]

lemma word_of_mem (h : w ∈ words sep l) : Word sep w ∧ ∀ a ∈ w, a ∈ l := by
  induction hn : l.length using Nat.strong_induction_on generalizing l with
  | _ n ih =>
    subst hn
    cases hd : l.dropWhile (· == sep) with
    | nil =>
      rw [words_of_empty hd] at h
      cases h
    | cons c r =>
      have hsub : ∀ a ∈ c :: r, a ∈ l := fun a ha => (List.dropWhile_sublist _).subset (hd ▸ ha)
      rw [words_of_cons hd] at h
      rcases List.mem_cons.1 h with rfl | h
      · refine ⟨⟨?_, ?_⟩, fun a ha => hsub a ((List.takeWhile_sublist _).subset ha)⟩
        · have hc := head_letter hd
          rw [List.takeWhile_cons_of_pos (by simpa using hc)]
          exact List.cons_ne_nil _ _
        · intro hm
          simpa using List.mem_takeWhile_imp hm
      · obtain ⟨hw, hall⟩ := ih _ (length_rest hd) h rfl
        exact ⟨hw, fun a ha => hsub a ((List.dropWhile_sublist _).subset (hall a ha))⟩

lemma length_prefixed_words (sep : α) (l : List α) : (prefixed sep (words sep l)).length ≤ l.length + 1 := by
  induction hn : l.length using Nat.strong_induction_on generalizing l with
  | _ n ih =>
    subst hn
    cases hd : l.dropWhile (· == sep) with
    | nil =>
      rw [words_of_empty hd]
      exact Nat.zero_le _
    | cons c r =>
      have hle := length_dropWhile_le (· == sep) l
      have hlt := length_rest hd
      have hsplit := congrArg List.length (List.takeWhile_append_dropWhile (p := (· != sep)) (l := c :: r))
      rw [List.length_append] at hsplit
      rw [hd] at hle
      rw [words_of_cons hd, prefixed_cons, List.length_cons, List.length_append]
      cases hrest : (c :: r).dropWhile (· != sep) with
      | nil =>
        rw [hrest] at hsplit
        rw [words_nil, prefixed_nil]
        simp only [List.length_nil, List.length_cons] at *
        omega
      | cons d rest =>
        obtain rfl := head_rest hrest
        rw [hrest] at hsplit hlt
        have := ih rest.length (by rw [List.length_cons] at hlt; omega) rest rfl
        rw [words_sep]
        simp only [List.length_cons] at *
        omega

end MyOS.Library.Words
