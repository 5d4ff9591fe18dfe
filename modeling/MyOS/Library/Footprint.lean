import Mathlib

/-! Operations on a memory that read and write a few places only, one after another. -/

namespace MyOS.Library

variable {K V β ι : Type}

/-- From the memory `m`, and from any that is equal to it on `F`, the operation does the same, and only there. -/
structure LocalAt (F : Set K) (m : K → V) (f : (K → V) → (K → V) × List β) : Prop where
  report : ∀ n, (∀ k ∈ F, n k = m k) → (f n).2 = (f m).2
  inside : ∀ n, (∀ k ∈ F, n k = m k) → ∀ k ∈ F, (f n).1 k = (f m).1 k
  outside : ∀ n, (∀ k ∈ F, n k = m k) → ∀ k ∉ F, (f n).1 k = n k

def runAll (f : ι → (K → V) → (K → V) × List β) (l : List ι) (m : K → V) : (K → V) × List β :=
  l.foldl (fun s i => ((f i s.1).1, s.2 ++ (f i s.1).2)) (m, [])

variable {F : ι → Set K} {G : Set K} {f : ι → (K → V) → (K → V) × List β}
  {g : (K → V) → (K → V) × List β} {l : List ι} {m n : K → V} {i : ι} {k : K}

namespace LocalAt

lemma congr (h : LocalAt G m g) (hn : ∀ k ∈ G, n k = m k) : LocalAt G n g := by
  have hback : ∀ o : K → V, (∀ k ∈ G, o k = n k) → ∀ k ∈ G, o k = m k :=
    fun o ho k hk => (ho k hk).trans (hn k hk)
  constructor
  · intro o ho
    rw [h.report o (hback o ho), h.report n hn]
  · intro o ho k hk
    rw [h.inside o (hback o ho) k hk, h.inside n hn k hk]
  · intro o ho k hk
    exact h.outside o (hback o ho) k hk

lemma of_id (h : ∀ n, (∀ k ∈ G, n k = m k) → (g n).1 = n ∧ (g n).2 = (g m).2) : LocalAt G m g := by
  constructor
  · exact fun n hn => (h n hn).2
  · intro n hn k hk
    rw [(h n hn).1, (h m fun _ _ => rfl).1]
    exact hn k hk
  · intro n hn k _
    rw [(h n hn).1]

end LocalAt

@[simp]
lemma runAll_nil : runAll f [] m = (m, []) :=
  rfl

lemma runAll_concat : runAll f (l ++ [i]) m =
    ((f i (runAll f l m).1).1, (runAll f l m).2 ++ (f i (runAll f l m).1).2) := by
  simp [runAll, List.foldl_append]

lemma runAll_local (hl : l.Nodup) (hf : ∀ i ∈ l, LocalAt (F i) m (f i))
    (hd : ∀ i ∈ l, ∀ j ∈ l, i ≠ j → Disjoint (F i) (F j)) :
    (runAll f l m).2 = l.flatMap (fun i => (f i m).2) ∧
    (∀ i ∈ l, ∀ k ∈ F i, (runAll f l m).1 k = (f i m).1 k) ∧
    ∀ k, (∀ i ∈ l, k ∉ F i) → (runAll f l m).1 k = m k := by
  induction l using List.reverseRecOn with
  | nil => simp
  | append_singleton l j ih =>
    have hmem : ∀ i ∈ l, i ∈ l ++ [j] := fun i hi => List.mem_append_left _ hi
    have hj : j ∈ l ++ [j] := List.mem_append_right _ (List.mem_singleton_self j)
    obtain ⟨hl, -, hjl⟩ := List.nodup_append.1 hl
    have hne : ∀ i ∈ l, i ≠ j := fun i hi => hjl i hi j (List.mem_singleton_self j)
    obtain ⟨hreport, hinside, houtside⟩ := ih hl (fun i hi => hf i (hmem i hi))
      fun i hi k hk => hd i (hmem i hi) k (hmem k hk)
    -- the last operation finds its places as they were at first
    have hsame : ∀ k ∈ F j, (runAll f l m).1 k = m k := by
      intro k hk
      refine houtside k fun i hi hki => ?_
      exact Set.disjoint_left.1 (hd i (hmem i hi) j hj (hne i hi)) hki hk
    have hlast := hf j hj
    rw [runAll_concat]
    refine ⟨?_, fun i hi k hk => ?_, fun k hk => ?_⟩
    · rw [hreport, hlast.report _ hsame, List.flatMap_append, List.flatMap_singleton]
    · obtain hi | hi := List.mem_append.1 hi
      · have hkj : k ∉ F j := fun hkj => Set.disjoint_left.1 (hd i (hmem i hi) j hj (hne i hi)) hk hkj
        rw [hlast.outside _ hsame k hkj]
        exact hinside i hi k hk
      · obtain rfl := List.mem_singleton.1 hi
        exact hlast.inside _ hsame k hk
    · rw [hlast.outside _ hsame k (hk j hj)]
      exact houtside k fun i hi => hk i (hmem i hi)

end MyOS.Library
