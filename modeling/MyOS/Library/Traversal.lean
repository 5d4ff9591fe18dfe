import Mathlib.Logic.Relation
import Mathlib.Tactic

/-! Visiting the items of a node and of the nodes that its items lead to, when these have greater numbers. -/

namespace MyOS.Library.Traversal

open Relation

variable {α : Type} (items : ℕ → List α) (next : α → Option ℕ)

def visit : ℕ → ℕ → List α
  | 0, _ => []
  | n + 1, b => (items b).flatMap fun a => a :: (next a).elim [] (visit n)

def Leads (b c : ℕ) : Prop := ∃ a ∈ items b, next a = some c

structure Rising (bound : ℕ) : Prop where
  lt : ∀ b, ∀ a ∈ items b, ∀ c ∈ next a, b < c
  bounded : ∀ b, ∀ a ∈ items b, ∀ c ∈ next a, c < bound
  owner : ∀ b c, ∀ a ∈ items b, a ∈ items c → b = c

/-- On the nodes `R`, which all their items stay in, every node has one item that leads to it. -/
structure Branching (R : ℕ → Prop) : Prop where
  closed : ∀ b c, R b → Leads items next b c → R c
  unique : ∀ b c d, R b → R c → ∀ a ∈ items b, ∀ a' ∈ items c, next a = some d → next a' = some d → a = a'

variable {items next} {R : ℕ → Prop} {bound n k r r' b c d e : ℕ} {a : α}

lemma Rising.le (h : Rising items next bound) (hbc : ReflTransGen (Leads items next) b c) : b ≤ c := by
  induction hbc with
  | refl => exact le_rfl
  | tail _ hcd ih =>
    obtain ⟨a, ha, hnext⟩ := hcd
    exact ih.trans (h.lt _ a ha _ hnext).le

lemma exists_of_mem_visit (ha : a ∈ visit items next n b) :
    ∃ c, ReflTransGen (Leads items next) b c ∧ a ∈ items c := by
  induction n generalizing b with
  | zero => cases ha
  | succ n ih =>
    rw [visit, List.mem_flatMap] at ha
    obtain ⟨e, he, ha⟩ := ha
    rcases List.mem_cons.1 ha with rfl | ha
    · exact ⟨b, .refl, he⟩
    cases hnext : next e with
    | none => simp [hnext] at ha
    | some d =>
      rw [hnext] at ha
      obtain ⟨c, hdc, hc⟩ := ih ha
      exact ⟨c, .head ⟨e, he, hnext⟩ hdc, hc⟩

lemma mem_visit (h : Rising items next bound) (hn : bound ≤ n + b) (hb : b < bound) :
    a ∈ visit items next n b ↔ ∃ c, ReflTransGen (Leads items next) b c ∧ a ∈ items c := by
  refine ⟨exists_of_mem_visit, ?_⟩
  induction n generalizing b with
  | zero => omega
  | succ n ih =>
    rintro ⟨c, hbc, ha⟩
    rw [visit, List.mem_flatMap]
    rcases ReflTransGen.cases_head hbc with rfl | ⟨d, ⟨e, he, hnext⟩, hdc⟩
    · exact ⟨a, ha, List.mem_cons_self⟩
    · have hlt := h.lt b e he d hnext
      refine ⟨e, he, List.mem_cons_of_mem e ?_⟩
      rw [hnext]
      exact ih (by omega) (h.bounded b e he d hnext) ⟨c, hdc, ha⟩

lemma Branching.reaches (hR : Branching items next R) (hb : R b)
    (hbc : ReflTransGen (Leads items next) b c) : R c := by
  induction hbc with
  | refl => exact hb
  | tail _ hcd ih => exact hR.closed _ _ ih hcd

lemma Branching.total (hR : Branching items next R) (h : Rising items next bound) (hc : R c) (hd : R d)
    (hce : ReflTransGen (Leads items next) c e) (hde : ReflTransGen (Leads items next) d e) :
    ReflTransGen (Leads items next) c d ∨ ReflTransGen (Leads items next) d c := by
  induction hce generalizing d with
  | refl => exact .inr hde
  | @tail x y hcx hxy ih =>
    rcases ReflTransGen.cases_tail hde with rfl | ⟨z, hdz, hzy⟩
    · exact .inl (hcx.tail hxy)
    · obtain ⟨a, ha, hy⟩ := hxy
      obtain ⟨a', ha', hy'⟩ := hzy
      obtain rfl := hR.unique x z y (hR.reaches hc hcx) (hR.reaches hd hdz) a ha a' ha' hy hy'
      obtain rfl := h.owner x z a ha ha'
      exact ih hd hdz

lemma Branching.apart (hR : Branching items next R) (h : Rising items next bound) (hr : R r)
    {a' : α} (ha : a ∈ items r) (ha' : a' ∈ items r) (hne : a ≠ a') (hc : next a = some c)
    (hd : next a' = some d) (hce : ReflTransGen (Leads items next) c e) :
    ¬ ReflTransGen (Leads items next) d e := by
  -- an item that leads from below `c` to `d` would be `a'`, which is above `c`
  have hup {a a' : α} {c d : ℕ} (ha : a ∈ items r) (ha' : a' ∈ items r) (hne : a ≠ a')
      (hc : next a = some c) (hd : next a' = some d) : ¬ ReflTransGen (Leads items next) c d := by
    intro hcd
    have hRc : R c := hR.closed r c hr ⟨a, ha, hc⟩
    rcases ReflTransGen.cases_tail hcd with rfl | ⟨x, hcx, b, hb, hbd⟩
    · exact hne (hR.unique r r d hr hr a ha a' ha' hc hd)
    · obtain rfl := hR.unique r x d hr (hR.reaches hRc hcx) a' ha' b hb hd hbd
      obtain rfl := h.owner r x a' ha' hb
      exact absurd (h.lt r a ha c hc) (by have := h.le hcx; omega)
  intro hde
  rcases hR.total h (hR.closed r c hr ⟨a, ha, hc⟩) (hR.closed r d hr ⟨a', ha', hd⟩) hce hde with hcd | hdc
  · exact hup ha ha' hne hc hd hcd
  · exact hup ha' ha hne.symm hd hc hdc

lemma Branching.nodup_visit (hR : Branching items next R) (h : Rising items next bound)
    (hitems : ∀ b, (items b).Nodup) (hr : R r) : (visit items next n r).Nodup := by
  induction n generalizing r with
  | zero => exact List.nodup_nil
  | succ n ih =>
    -- an item of `r` is not found below `r`
    have hself {a b : α} {c : ℕ} (ha : a ∈ items r) (hb : b ∈ items r) (hc : next b = some c) :
        a ∉ visit items next n c := by
      intro hmem
      obtain ⟨x, hcx, hx⟩ := exists_of_mem_visit hmem
      obtain rfl := h.owner r x a ha hx
      exact absurd (h.lt r b hb c hc) (by have := h.le hcx; omega)
    rw [visit, List.nodup_flatMap]
    refine ⟨fun a ha => ?_, (hitems r).imp_of_mem fun {a b} ha hb hne x hxa hxb => ?_⟩
    · cases hc : next a with
      | none => exact List.nodup_singleton a
      | some c => exact List.nodup_cons.2 ⟨hself ha ha hc, ih (hR.closed r c hr ⟨a, ha, hc⟩)⟩
    · rcases List.mem_cons.1 hxa with rfl | hxa <;> rcases List.mem_cons.1 hxb with rfl | hxb
      · exact hne rfl
      · cases hd : next b with
        | none => simp [hd] at hxb
        | some d => exact hself ha hb hd (by simpa [hd] using hxb)
      · cases hc : next a with
        | none => simp [hc] at hxa
        | some c => exact hself hb ha hc (by simpa [hc] using hxa)
      · cases hc : next a with
        | none => simp [hc] at hxa
        | some c =>
          cases hd : next b with
          | none => simp [hd] at hxb
          | some d =>
            obtain ⟨e, hce, he⟩ := exists_of_mem_visit (by simpa [hc] using hxa : x ∈ visit items next n c)
            obtain ⟨e', hde, he'⟩ := exists_of_mem_visit (by simpa [hd] using hxb : x ∈ visit items next n d)
            obtain rfl := h.owner e e' x he he'
            exact hR.apart h hr ha hb hne hc hd hce hde

lemma Branching.disjoint_roots (hR : Branching items next R) (h : Rising items next bound) (hr : R r)
    (hr' : R r') (hne : r ≠ r') (hroot : ∀ b, R b → ¬ Leads items next b r)
    (hroot' : ∀ b, R b → ¬ Leads items next b r') :
    (visit items next n r).Disjoint (visit items next k r') := by
  have hup {r r' : ℕ} (hr : R r) (hne : r ≠ r') (hroot' : ∀ b, R b → ¬ Leads items next b r') :
      ¬ ReflTransGen (Leads items next) r r' := by
    intro hrr
    rcases ReflTransGen.cases_tail hrr with rfl | ⟨x, hx, hlead⟩
    · exact hne rfl
    · exact hroot' x (hR.reaches hr hx) hlead
  intro x hx hx'
  obtain ⟨e, hre, he⟩ := exists_of_mem_visit hx
  obtain ⟨e', hre', he'⟩ := exists_of_mem_visit hx'
  obtain rfl := h.owner e e' x he he'
  rcases hR.total h hr hr' hre hre' with hrr | hrr
  · exact hup hr hne hroot' hrr
  · exact hup hr' hne.symm hroot hrr

end MyOS.Library.Traversal
