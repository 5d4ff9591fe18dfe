import Mathlib.Tactic

/-! Counts in lists from which one member goes, and in lists of pairs with unique keys. -/

namespace MyOS.Library.AssocLists

variable {α β : Type}

lemma count_cons_eq [DecidableEq α] (a b : α) (l : List α) :
    (a :: l).count b = l.count b + [a].count b := by
  simp only [List.count_cons, List.count_nil, zero_add]

lemma count_erase_add [DecidableEq α] {l : List α} {a : α} (h : a ∈ l) (b : α) :
    (l.erase a).count b + [a].count b = l.count b := by
  rw [(List.perm_cons_erase h).count_eq b, ← count_cons_eq]

lemma count_map_erase_add [DecidableEq α] [DecidableEq β] {l : List α} {a : α} (h : a ∈ l)
    (f : α → β) (b : β) : ((l.erase a).map f).count b + [f a].count b = (l.map f).count b := by
  rw [((List.perm_cons_erase h).map f).count_eq b, List.map_cons, ← count_cons_eq]

section Keys

variable {l : List (α × β)} {k : α}

lemma notMem_keys (h : k ∉ l.map Prod.fst) : ∀ a ∈ l, a.1 ≠ k := by
  rintro a ha rfl
  exact h (List.mem_map_of_mem ha)

lemma eq_of_keys (hl : (l.map Prod.fst).Nodup) {v w : β} (hv : (k, v) ∈ l) (hw : (k, w) ∈ l) :
    v = w :=
  congrArg Prod.snd (List.inj_on_of_nodup_map hl hv hw rfl)

lemma eq_of_values (hl : (l.map Prod.snd).Nodup) {a b : α} {v : β} (ha : (a, v) ∈ l)
    (hb : (b, v) ∈ l) : a = b :=
  congrArg Prod.fst (List.inj_on_of_nodup_map hl ha hb rfl)

variable [DecidableEq α]

lemma filter_ne_eq_self (h : ∀ a ∈ l, a.1 ≠ k) : l.filter (fun a => a.1 ≠ k) = l :=
  List.filter_eq_self.2 fun a ha => decide_eq_true (h a ha)

lemma count_filter_add [DecidableEq β] (hl : (l.map Prod.fst).Nodup) {v : β} (h : (k, v) ∈ l)
    (b : β) : ((l.filter fun a => a.1 ≠ k).map Prod.snd).count b + [v].count b =
      (l.map Prod.snd).count b := by
  induction l with
  | nil => simp at h
  | cons a l ih =>
    obtain ⟨ha, hl'⟩ := List.nodup_cons.1 hl
    rcases List.mem_cons.1 h with rfl | h
    · rw [List.filter_cons_of_neg (by simp), filter_ne_eq_self (notMem_keys ha), List.map_cons,
        ← count_cons_eq]
    · have hne : a.1 ≠ k := by
        rintro rfl
        exact ha (List.mem_map.2 ⟨_, h, rfl⟩)
      have hrest := ih hl' h
      have hhead := count_cons_eq a.2 b
      rw [List.filter_cons_of_pos (by simpa using hne), List.map_cons, List.map_cons, hhead,
        hhead (l.map Prod.snd)]
      omega

lemma mem_of_lookup {v : β} (h : l.lookup k = some v) : (k, v) ∈ l := by
  obtain ⟨l₁, l₂, rfl, -⟩ := List.lookup_eq_some_iff.1 h
  exact List.mem_append_right _ List.mem_cons_self

lemma notMem_of_lookup (h : l.lookup k = none) : k ∉ l.map Prod.fst := by
  intro hm
  obtain ⟨a, ha, rfl⟩ := List.mem_map.1 hm
  simpa using List.lookup_eq_none_iff.1 h a ha

end Keys

end MyOS.Library.AssocLists
