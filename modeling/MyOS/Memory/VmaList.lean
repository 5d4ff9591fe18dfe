import MyOS.Memory.AddressSpace

/-! The list of VMAs: it is sorted and its areas are apart, and every edit of it keeps that. -/

namespace MyOS.Memory

def Vma.Contains (v : Vma) (addr : ℕ) : Prop := v.start ≤ addr ∧ addr < v.stop

instance (v : Vma) (addr : ℕ) : Decidable (v.Contains addr) := inferInstanceAs (Decidable (_ ∧ _))

structure Vma.Shape (v : Vma) : Prop where
  nonempty : v.start < v.stop
  alignedStart : pageSize ∣ v.start
  alignedStop : pageSize ∣ v.stop
  low : userSpaceStart ≤ v.start
  high : v.stop ≤ userSpaceEnd

structure VmaList (vmas : List Vma) : Prop where
  apart : vmas.Pairwise fun v w => v.stop ≤ w.start
  shape : ∀ v ∈ vmas, v.Shape

lemma vmaList_nil : VmaList [] := ⟨.nil, by simp⟩

lemma vmaList_cons {v : Vma} {vs : List Vma} :
    VmaList (v :: vs) ↔ v.Shape ∧ (∀ w ∈ vs, v.stop ≤ w.start) ∧ VmaList vs := by
  constructor
  · intro h
    obtain ⟨h₁, h₂⟩ := List.pairwise_cons.1 h.apart
    exact ⟨h.shape v List.mem_cons_self, h₁, h₂, fun w hw => h.shape w (List.mem_cons_of_mem _ hw)⟩
  · rintro ⟨hv, hfar, h⟩
    exact ⟨List.pairwise_cons.2 ⟨hfar, h.apart⟩, List.forall_mem_cons.2 ⟨hv, h.shape⟩⟩

lemma vmaList_append {vs ws : List Vma} :
    VmaList (vs ++ ws) ↔ VmaList vs ∧ VmaList ws ∧ ∀ v ∈ vs, ∀ w ∈ ws, v.stop ≤ w.start := by
  constructor
  · intro h
    obtain ⟨h₁, h₂, h₃⟩ := List.pairwise_append.1 h.apart
    exact ⟨⟨h₁, fun v hv => h.shape v (List.mem_append_left _ hv)⟩,
      ⟨h₂, fun v hv => h.shape v (List.mem_append_right _ hv)⟩, h₃⟩
  · rintro ⟨h₁, h₂, h₃⟩
    refine ⟨List.pairwise_append.2 ⟨h₁.apart, h₂.apart, h₃⟩, fun v hv => ?_⟩
    exact (List.mem_append.1 hv).elim (h₁.shape v) (h₂.shape v)

section Insert

variable {vs : List Vma} {nv w : Vma}

lemma mem_insertVma : w ∈ insertVma vs nv ↔ w = nv ∨ w ∈ vs := by
  induction vs with
  | nil => simp [insertVma]
  | cons v vs ih =>
    rw [insertVma]
    split
    · exact List.mem_cons
    · rw [List.mem_cons, ih, List.mem_cons]
      exact or_left_comm

lemma rangeFree_iff {start stop : ℕ} :
    rangeFree vs start stop = true ↔ ∀ v ∈ vs, v.stop ≤ start ∨ stop ≤ v.start := by
  simp only [rangeFree, List.all_eq_true, Bool.not_eq_true', Bool.and_eq_false_iff,
    decide_eq_false_iff_not, not_lt]

lemma VmaList.insert (h : VmaList vs) (hnv : nv.Shape)
    (hfree : ∀ v ∈ vs, v.stop ≤ nv.start ∨ nv.stop ≤ v.start) : VmaList (insertVma vs nv) := by
  have hne := hnv.nonempty
  induction vs with
  | nil => exact vmaList_cons.2 ⟨hnv, by simp, vmaList_nil⟩
  | cons v vs ih =>
    obtain ⟨hv, hfar, hvs⟩ := vmaList_cons.1 h
    have hvne := hv.nonempty
    have hside := hfree v List.mem_cons_self
    rw [insertVma]
    split
    · refine vmaList_cons.2 ⟨hnv, fun w hw => ?_, h⟩
      rcases List.mem_cons.1 hw with rfl | hw
      · omega
      · have := hfar w hw
        omega
    · refine vmaList_cons.2 ⟨hv, fun w hw => ?_, ih hvs fun w hw =>
        hfree w (List.mem_cons_of_mem _ hw)⟩
      rcases mem_insertVma.1 hw with rfl | hw
      · omega
      · exact hfar w hw

end Insert

section Cut

variable {v : Vma} {cutStart cutEnd : ℕ} {split : Bool}

def cutParts (v : Vma) (cutStart cutEnd : ℕ) (split : Bool) : List Vma :=
  (cutVma v cutStart cutEnd split).1.toList ++ (cutVma v cutStart cutEnd split).2.toList

lemma cutParts_eq : cutParts v cutStart cutEnd split =
    if cutStart = v.start ∧ cutEnd = v.stop then []
    else if cutStart = v.start then [{ v with start := cutEnd }]
    else if cutEnd = v.stop then [{ v with stop := cutStart }]
    else if split then [{ v with stop := cutStart }, { v with start := cutEnd }]
    else [v] := by
  rw [cutParts, cutVma]
  split_ifs <;> rfl

lemma vmaList_cutParts (split : Bool) (hv : v.Shape) (hs : pageSize ∣ cutStart) (he : pageSize ∣ cutEnd)
    (hlo : v.start ≤ cutStart) (hlt : cutStart < cutEnd) (hhi : cutEnd ≤ v.stop) :
    VmaList (cutParts v cutStart cutEnd split) := by
  have hupper : v.start < cutStart → Vma.Shape { v with stop := cutStart } := fun h =>
    ⟨h, hv.alignedStart, hs, hv.low, (hlt.le.trans hhi).trans hv.high⟩
  have hlower : cutEnd < v.stop → Vma.Shape { v with start := cutEnd } := fun h =>
    ⟨h, he, hv.alignedStop, (hv.low.trans hlo).trans hlt.le, hv.high⟩
  rw [cutParts_eq]
  split_ifs
  · exact vmaList_nil
  · exact vmaList_cons.2 ⟨hlower (by omega), by simp, vmaList_nil⟩
  · exact vmaList_cons.2 ⟨hupper (by omega), by simp, vmaList_nil⟩
  · refine vmaList_cons.2 ⟨hupper (by omega), ?_, vmaList_cons.2
      ⟨hlower (by omega), by simp, vmaList_nil⟩⟩
    simpa using hlt.le
  · exact vmaList_cons.2 ⟨hv, by simp, vmaList_nil⟩

lemma cutParts_inside (split : Bool) (hlo : v.start ≤ cutStart) (hlt : cutStart < cutEnd) (hhi : cutEnd ≤ v.stop)
    {w : Vma} (hw : w ∈ cutParts v cutStart cutEnd split) : v.start ≤ w.start ∧ w.stop ≤ v.stop := by
  rw [cutParts_eq] at hw
  split_ifs at hw <;>
    simp only [List.mem_cons, List.not_mem_nil, or_false] at hw
  · subst hw
    exact ⟨hlo.trans hlt.le, le_rfl⟩
  · subst hw
    exact ⟨le_rfl, hlt.le.trans hhi⟩
  · rcases hw with rfl | rfl
    · exact ⟨le_rfl, hlt.le.trans hhi⟩
    · exact ⟨hlo.trans hlt.le, le_rfl⟩
  · subst hw
    exact ⟨le_rfl, le_rfl⟩

lemma cutParts_covers {a : ℕ} (ha : v.Contains a) (hout : a < cutStart ∨ cutEnd ≤ a) :
    ∃ w ∈ cutParts v cutStart cutEnd split, w.Contains a := by
  obtain ⟨h₁, h₂⟩ := ha
  rw [cutParts_eq]
  split_ifs
  · omega
  · exact ⟨_, List.mem_singleton_self _, by simp only; omega, h₂⟩
  · exact ⟨_, List.mem_singleton_self _, h₁, by simp only; omega⟩
  · rcases hout with hlow | hhigh
    · exact ⟨_, List.mem_cons_self, h₁, hlow⟩
    · exact ⟨_, List.mem_cons_of_mem _ List.mem_cons_self, hhigh, h₂⟩
  · exact ⟨v, List.mem_singleton_self _, h₁, h₂⟩

end Cut

section FreeArea

variable {len : ℕ} {vs : List Vma}

def reach (len candidate : ℕ) : ℕ := (candidate + len + pageSize) % 2 ^ 64

lemma freeAreaPass_moves (hlen : len < 2 ^ 64) (hvs : ∀ v ∈ vs, v.start < 2 ^ 64) {c c' : ℕ}
    {moved moved' : Bool} (h : freeAreaPass len vs c moved = some (c', moved')) :
    (c' = c ∧ moved' = moved) ∨
      (reach len c' < reach len c ∧ ∃ v ∈ vs, v.start = reach len c') := by
  induction vs generalizing c moved with
  | nil =>
    cases h
    exact .inl ⟨rfl, rfl⟩
  | cons v vs ih =>
    have hrest := fun w hw => hvs w (List.mem_cons_of_mem v hw)
    rw [freeAreaPass] at h
    split at h
    · rename_i hc
      split at h
      · cases h
      · have hv := hvs v List.mem_cons_self
        have hnew : reach len ((v.start + 2 * 2 ^ 64 - len - pageSize) % 2 ^ 64) = v.start := by
          simp only [reach, pageSize] at *
          omega
        have hlt : v.start < reach len c := hc.2
        rcases ih hrest h with ⟨hsame, -⟩ | ⟨hless, w, hw, hws⟩
        · rw [hsame, hnew]
          exact .inr ⟨hlt, v, List.mem_cons_self, rfl⟩
        · rw [hnew] at hless
          exact .inr ⟨hless.trans hlt, w, List.mem_cons_of_mem _ hw, hws⟩
    · rcases ih hrest h with hsame | ⟨hless, w, hw, hws⟩
      · exact .inl hsame
      · exact .inr ⟨hless, w, List.mem_cons_of_mem _ hw, hws⟩

def startsBelow (vs : List Vma) (bound : ℕ) : Finset ℕ :=
  (vs.map Vma.start).toFinset.filter (· < bound)

lemma startsBelow_card (bound : ℕ) : (startsBelow vs bound).card ≤ vs.length := by
  calc (startsBelow vs bound).card ≤ (vs.map Vma.start).toFinset.card := Finset.card_filter_le _ _
    _ ≤ (vs.map Vma.start).length := List.toFinset_card_le _
    _ = vs.length := List.length_map _

lemma startsBelow_card_lt {bound bound' : ℕ} (h : bound' < bound ∧ ∃ v ∈ vs, v.start = bound') :
    (startsBelow vs bound').card < (startsBelow vs bound).card := by
  obtain ⟨hless, v, hv, hvc⟩ := h
  refine Finset.card_lt_card (Finset.ssubset_iff_of_subset (fun a ha => ?_) |>.2 ⟨bound', ?_, ?_⟩)
  · simp only [startsBelow, Finset.mem_filter] at ha ⊢
    exact ⟨ha.1, ha.2.trans hless⟩
  · simp only [startsBelow, Finset.mem_filter, List.mem_toFinset, List.mem_map]
    exact ⟨⟨v, hv, hvc⟩, hless⟩
  · simp [startsBelow]

end FreeArea

section Heap

lemma findHeap_eq {vs before after : List Vma} {heap : Vma}
    (h : findHeap vs = some (before, heap, after)) : vs = before ++ heap :: after := by
  induction vs generalizing before with
  | nil => cases h
  | cons v vs ih =>
    rw [findHeap] at h
    split at h
    · rename_i hf
      cases h
      rw [ih hf, List.cons_append]
    · split at h
      · cases h
        rfl
      · cases h

lemma VmaList.setStop {before after : List Vma} {v : Vma} {stop : ℕ}
    (h : VmaList (before ++ v :: after)) (hne : v.start < stop) (hal : pageSize ∣ stop)
    (hhigh : stop ≤ userSpaceEnd) (hnext : ∀ w ∈ after.head?, stop ≤ w.start) :
    VmaList (before ++ { v with stop := stop } :: after) := by
  obtain ⟨hbefore, hrest, hfar⟩ := vmaList_append.1 h
  obtain ⟨hv, hafter, ha⟩ := vmaList_cons.1 hrest
  refine vmaList_append.2 ⟨hbefore, vmaList_cons.2
    ⟨⟨hne, hv.alignedStart, hal, hv.low, hhigh⟩, fun w hw => ?_, ha⟩, fun u hu w hw => ?_⟩
  · -- the areas behind the next one begin after its end
    cases after with
    | nil => cases hw
    | cons n after =>
      have hn : stop ≤ n.start := hnext n rfl
      rcases List.mem_cons.1 hw with rfl | hw
      · exact hn
      · obtain ⟨hns, hnfar, -⟩ := vmaList_cons.1 ha
        exact (hn.trans hns.nonempty.le).trans (hnfar w hw)
  · rcases List.mem_cons.1 hw with rfl | hw
    · exact hfar u hu v List.mem_cons_self
    · exact hfar u hu w (List.mem_cons_of_mem _ hw)

end Heap

section Stack

lemma growStack_cases {addr : ℕ} {prev : Option Vma} {vs vs' : List Vma} {u : Vma}
    (h : growStack addr prev vs = some (u, vs')) :
    ∃ before v after, vs = before ++ v :: after ∧ vs' = before ++ u :: after ∧
      u = { v with start := alignDown addr pageSize } ∧ addr < v.start ∧
      userStackTop - userStackMax ≤ addr ∧
      ∀ p ∈ (prev.toList ++ before).getLast?, p.stop + pageSize ≤ alignDown addr pageSize := by
  induction vs generalizing prev vs' with
  | nil => cases h
  | cons v vs ih =>
    rw [growStack] at h
    split at h
    · split at h
      · cases h
      · rename_i hr
        cases h
        obtain ⟨before, w, after, rfl, rfl, hu, h₁, h₂, h₃⟩ := ih hr
        refine ⟨v :: before, w, after, rfl, rfl, hu, h₁, h₂, fun p hp => h₃ p ?_⟩
        have hsome : (some v).toList ++ before = v :: before := rfl
        rw [hsome]
        rwa [List.getLast?_append_of_ne_nil _ (List.cons_ne_nil _ _)] at hp
    · rename_i hc
      push Not at hc
      split at h
      · cases h
      · rename_i hlim
        simp only at h
        split at h
        · cases h
        · rename_i hp
          cases h
          refine ⟨[], v, vs, rfl, rfl, rfl, hc.2, not_lt.1 hlim, fun p hm => ?_⟩
          cases prev with
          | none => cases hm
          | some q =>
            obtain rfl : q = p := by simpa using hm
            simpa using hp

lemma VmaList.setStart {before after : List Vma} {v : Vma} {start : ℕ}
    (h : VmaList (before ++ v :: after)) (hle : start ≤ v.start) (hal : pageSize ∣ start)
    (hlow : userSpaceStart ≤ start) (hprev : ∀ w ∈ before.getLast?, w.stop ≤ start) :
    VmaList (before ++ { v with start := start } :: after) := by
  obtain ⟨hbefore, hrest, hfar⟩ := vmaList_append.1 h
  obtain ⟨hv, hafter, ha⟩ := vmaList_cons.1 hrest
  refine vmaList_append.2 ⟨hbefore, vmaList_cons.2
    ⟨⟨hle.trans_lt hv.nonempty, hal, hv.alignedStop, hlow, hv.high⟩, hafter, ha⟩,
    fun u hu w hw => ?_⟩
  rcases List.mem_cons.1 hw with rfl | hw
  · -- the areas in front of the previous one end before its start
    rcases List.eq_nil_or_concat before with rfl | ⟨front, p, rfl⟩
    · cases hu
    · have hp : p.stop ≤ start := hprev p (by simp)
      rw [List.concat_eq_append] at hu hbefore
      rcases List.mem_append.1 hu with hu | hu
      · obtain ⟨-, hps, hpfar⟩ := vmaList_append.1 hbefore
        have hshape := hps.shape p List.mem_cons_self
        exact ((hpfar u hu p List.mem_cons_self).trans hshape.nonempty.le).trans hp
      · obtain rfl : u = p := by simpa using hu
        exact hp
  · exact hfar u hu w (List.mem_cons_of_mem _ hw)

end Stack

end MyOS.Memory
