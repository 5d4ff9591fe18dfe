import Mathlib.Data.List.Perm.Basic
import Mathlib.Logic.Equiv.Basic
import Mathlib.Tactic

/-! Insertion with gaps, on sequences of which the first entries are to be sorted. -/

namespace MyOS.Library.ShellSort

variable {α : Type*} (gt : α → α → Bool)

def swapAt (f : ℕ → α) (i j : ℕ) : ℕ → α := f ∘ Equiv.swap i j

def sink {gap : ℕ} (hg : 0 < gap) (f : ℕ → α) (j : ℕ) : ℕ → α :=
  if gap ≤ j ∧ gt (f (j - gap)) (f j) = true then sink hg (swapAt f (j - gap) j) (j - gap) else f
termination_by j

def pass {gap : ℕ} (hg : 0 < gap) (n : ℕ) (f : ℕ → α) (i : ℕ) : ℕ → α :=
  if i < n then pass hg n (sink gt hg f i) (i + 1) else f
termination_by n - i

def sort (n : ℕ) (f : ℕ → α) (gap : ℕ) : ℕ → α :=
  if hg : 0 < gap then sort n (pass gt hg n f gap) (gap / 2) else f
termination_by gap

def firsts (n : ℕ) (f : ℕ → α) : List α := (List.range n).map f

variable {gt} {f : ℕ → α} {n i j gap : ℕ}

lemma range_swap_perm (hi : i < n) (hj : j < n) : ((List.range n).map (Equiv.swap i j)).Perm (List.range n) := by
  rw [List.perm_ext_iff_of_nodup (List.nodup_range.map (Equiv.injective _)) List.nodup_range]
  intro k
  rw [List.mem_map, List.mem_range]
  have hlt : ∀ k < n, Equiv.swap i j k < n := by
    intro k hk
    rw [Equiv.swap_apply_def]
    split_ifs
    · exact hj
    · exact hi
    · exact hk
  constructor
  · rintro ⟨l, hl, rfl⟩
    exact hlt l (List.mem_range.1 hl)
  · intro hk
    exact ⟨Equiv.swap i j k, List.mem_range.2 (hlt k hk), Equiv.swap_apply_self i j k⟩

lemma firsts_swapAt (hi : i < n) (hj : j < n) : (firsts n (swapAt f i j)).Perm (firsts n f) := by
  have h := (range_swap_perm hi hj).map f
  rwa [List.map_map] at h

lemma firsts_sink (hg : 0 < gap) (hj : j < n) : (firsts n (sink gt hg f j)).Perm (firsts n f) := by
  induction f, j using sink.induct gt hg with
  | case1 f j h ih =>
    rw [sink, if_pos h]
    apply (ih (by omega)).trans
    exact firsts_swapAt (by omega) hj
  | case2 f j h => rw [sink, if_neg h]

lemma firsts_pass (hg : 0 < gap) (f : ℕ → α) (i : ℕ) : (firsts n (pass gt hg n f i)).Perm (firsts n f) := by
  induction f, i using pass.induct gt hg n with
  | case1 f i h ih =>
    rw [pass, if_pos h]
    exact ih.trans (firsts_sink hg h)
  | case2 f i h => rw [pass, if_neg h]

lemma firsts_sort (f : ℕ → α) (gap : ℕ) : (firsts n (sort gt n f gap)).Perm (firsts n f) := by
  induction f, gap using sort.induct gt n with
  | case1 f gap hg ih =>
    rw [sort, dif_pos hg]
    exact ih.trans (firsts_pass hg f gap)
  | case2 f gap hg => rw [sort, dif_neg hg]

lemma sink_of_forall {P : α → Prop} {hg : 0 < gap} (hP : ∀ k, P (f k)) (k : ℕ) : P (sink gt hg f j k) := by
  induction f, j using sink.induct gt hg with
  | case1 f j h ih =>
    rw [sink, if_pos h]
    exact ih fun k => hP _
  | case2 f j h =>
    rw [sink, if_neg h]
    exact hP k

lemma pass_of_forall {P : α → Prop} {hg : 0 < gap} (hP : ∀ k, P (f k)) (k : ℕ) : P (pass gt hg n f i k) := by
  induction f, i using pass.induct gt hg n with
  | case1 f i h ih =>
    rw [pass, if_pos h]
    exact ih (sink_of_forall hP)
  | case2 f i h =>
    rw [pass, if_neg h]
    exact hP k

def SortedTo (gt : α → α → Bool) (f : ℕ → α) (n : ℕ) : Prop := ∀ a b, a < b → b < n → gt (f a) (f b) = false

def SinkingAt (gt : α → α → Bool) (f : ℕ → α) (n j : ℕ) : Prop :=
  ∀ a b, a < b → b < n → b ≠ j → gt (f a) (f b) = false

structure TotalPreorder (gt : α → α → Bool) (P : α → Prop) : Prop where
  total : ∀ a b, P a → P b → gt a b = true → gt b a = false
  trans : ∀ a b c, P a → P b → P c → gt a b = false → gt b c = false → gt a c = false

namespace TotalPreorder

variable {P : α → Prop} (hgt : TotalPreorder gt P)

include hgt

lemma sinkingAt_swap (hP : ∀ k, P (f k)) (h : SinkingAt gt f n j) (h1 : 1 ≤ j) (hj : j < n)
    (hc : gt (f (j - 1)) (f j) = true) : SinkingAt gt (swapAt f (j - 1) j) n (j - 1) := by
  intro a b hab hb hbj
  have hle : gt (f j) (f (j - 1)) = false := hgt.total _ _ (hP _) (hP _) hc
  simp only [swapAt, Function.comp_apply]
  by_cases hbj' : b = j
  · subst hbj'
    rw [Equiv.swap_apply_right]
    by_cases ha : a = b - 1
    · rwa [ha, Equiv.swap_apply_left]
    · rw [Equiv.swap_apply_of_ne_of_ne ha hab.ne]
      exact h a (b - 1) (by omega) (by omega) (by omega)
  · rw [Equiv.swap_apply_of_ne_of_ne hbj hbj']
    by_cases ha : a = j - 1
    · rw [ha, Equiv.swap_apply_left]
      exact h j b (by omega) hb hbj'
    · by_cases ha' : a = j
      · rw [ha', Equiv.swap_apply_right]
        exact h (j - 1) b (by omega) hb hbj'
      · rw [Equiv.swap_apply_of_ne_of_ne ha ha']
        exact h a b hab hb hbj'

lemma sink_sorted (hP : ∀ k, P (f k)) (h : SinkingAt gt f n j) (hj : j < n) :
    SortedTo gt (sink gt one_pos f j) n := by
  induction f, j using sink.induct gt one_pos with
  | case1 f j hc ih =>
    rw [sink, if_pos hc]
    exact ih (fun k => hP _) (hgt.sinkingAt_swap hP h hc.1 hj hc.2) (by omega)
  | case2 f j hc =>
    rw [sink, if_neg hc]
    intro a b hab hb
    by_cases hbj : b = j
    · subst hbj
      have hstop : gt (f (b - 1)) (f b) = false := by
        rw [not_and, Bool.not_eq_true] at hc
        exact hc (by omega)
      by_cases ha : a = b - 1
      · rwa [ha]
      · apply hgt.trans _ (f (b - 1)) _ (hP _) (hP _) (hP _) _ hstop
        exact h a (b - 1) (by omega) (by omega) (by omega)
    · exact h a b hab hb hbj

lemma pass_sorted (hP : ∀ k, P (f k)) (h : SortedTo gt f i) : SortedTo gt (pass gt one_pos n f i) (max i n) := by
  induction f, i using pass.induct gt one_pos n with
  | case1 f i hi ih =>
    rw [pass, if_pos hi, max_eq_right hi.le]
    have hs : SortedTo gt (sink gt one_pos f i) (i + 1) := by
      apply hgt.sink_sorted hP _ (Nat.lt_succ_self i)
      intro a b hab hb hbi
      exact h a b hab (by omega)
    have hr := ih (sink_of_forall hP) hs
    rwa [max_eq_right (show i + 1 ≤ n from hi)] at hr
  | case2 f i hi =>
    rw [pass, if_neg hi, max_eq_left (not_lt.1 hi)]
    exact h

lemma sort_sorted (hP : ∀ k, P (f k)) (h : 0 < gap ∨ SortedTo gt f n) : SortedTo gt (sort gt n f gap) n := by
  induction f, gap using sort.induct gt n with
  | case1 f gap hg ih =>
    rw [sort, dif_pos hg]
    apply ih (pass_of_forall hP)
    by_cases h1 : gap = 1
    · subst h1
      right
      have hone : SortedTo gt f 1 := fun a b hab hb => absurd hab (by omega)
      have hs := hgt.pass_sorted (n := n) hP hone
      exact fun a b hab hb => hs a b hab (lt_max_of_lt_right hb)
    · left
      omega
  | case2 f gap hg =>
    rw [sort, dif_neg hg]
    exact h.resolve_left hg

theorem firsts_sort_sorted (hP : ∀ k, P (f k)) (hn : 0 < gap ∨ n ≤ 1) :
    (firsts n (sort gt n f gap)).Pairwise fun a b => gt a b = false := by
  have hs : SortedTo gt (sort gt n f gap) n := by
    apply hgt.sort_sorted hP
    apply hn.imp_right
    exact fun hn a b hab hb => absurd hab (by omega)
  rw [firsts, List.pairwise_map]
  apply List.pairwise_lt_range.imp_of_mem
  intro a b _ hb hab
  exact hs a b hab (List.mem_range.1 hb)

end TotalPreorder

end MyOS.Library.ShellSort
