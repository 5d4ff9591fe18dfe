import MyOS.Memory.VmaList

/-! What unmapping leaves of an address space's mappings and VMAs. -/

namespace MyOS.Memory

open Library.Radix

lemma page_eq_iff {va wa : ℕ} (hal : pageSize ∣ va) :
    va / pageSize = wa / pageSize ↔ va ≤ wa ∧ wa < va + pageSize := by
  obtain ⟨k, rfl⟩ := hal
  simp only [pageSize]
  omega

structure SameAreas (mm mm' : Mm) : Prop where
  vmas : mm'.vmas = mm.vmas
  brkStart : mm'.brkStart = mm.brkStart
  brk : mm'.brk = mm.brk
  active : mm'.active = mm.active

lemma SameAreas.refl (mm : Mm) : SameAreas mm mm := ⟨rfl, rfl, rfl, rfl⟩

lemma SameAreas.trans {a b c : Mm} (h : SameAreas a b) (k : SameAreas b c) : SameAreas a c :=
  ⟨k.vmas.trans h.vmas, k.brkStart.trans h.brkStart, k.brk.trans h.brk, k.active.trans h.active⟩

section Flush

variable (mm : Mm) (va : ℕ)

@[simp] lemma flushPage_pml4 : (mm.flushPage va).pml4 = mm.pml4 := by rw [Mm.flushPage]; split <;> rfl
@[simp] lemma flushAll_pml4 : mm.flushAll.pml4 = mm.pml4 := by rw [Mm.flushAll]; split <;> rfl

lemma sameAreas_flushPage : SameAreas mm (mm.flushPage va) := by
  rw [Mm.flushPage]
  split <;> exact ⟨rfl, rfl, rfl, rfl⟩

lemma sameAreas_flushAll : SameAreas mm mm.flushAll := by
  rw [Mm.flushAll]
  split <;> exact ⟨rfl, rfl, rfl, rfl⟩

end Flush

section Unmap

variable {m m' : Machine} {mm mm' : Mm}

lemma vmmUnmapPage_get {va wa : ℕ} (hal : pageSize ∣ va) (hv : va < 2 ^ 47) (hw : wa < 2 ^ 47) :
    (mm.vmmUnmapPage va).2.pml4.get wa =
      if va ≤ wa ∧ wa < va + pageSize then none else mm.pml4.get wa := by
  rw [if_congr (page_eq_iff hal).symm rfl rfl, Mm.vmmUnmapPage]
  cases hg : mm.pml4.get va with
  | none =>
    simp only
    split
    · rename_i hp
      rw [Pml4.get, ← hp]
      exact hg
    · rfl
  | some pte =>
    simp only [flushPage_pml4]
    exact Pml4.get_put (hasPath_of_lookup hg) hv hw

lemma vmmUnmapPage_areas (va : ℕ) : SameAreas mm (mm.vmmUnmapPage va).2 := by
  rw [Mm.vmmUnmapPage]
  split
  · exact .refl mm
  · rename_i pte _
    have hput : SameAreas mm { mm with pml4 := mm.pml4.put va none } := ⟨rfl, rfl, rfl, rfl⟩
    exact hput.trans (sameAreas_flushPage _ va)
structure Unmapped (mm mm' : Mm) (start stop : ℕ) : Prop where
  areas : SameAreas mm mm'
  get : ∀ wa < 2 ^ 47, mm'.pml4.get wa =
    if start ≤ wa ∧ wa < stop then none else mm.pml4.get wa

lemma unmapPages_unmapped {n va : ℕ} (h : unmapPages n m mm va = .ok (m', mm'))
    (hal : pageSize ∣ va) (hb : va + n * pageSize ≤ 2 ^ 47) :
    Unmapped mm mm' va (va + n * pageSize) := by
  induction n generalizing m mm va with
  | zero =>
    cases h
    refine ⟨.refl _, fun wa _ => ?_⟩
    rw [if_neg (by omega)]
  | succ n ih =>
    have hpos : 0 < pageSize := by decide
    have hv : va < 2 ^ 47 := by
      rw [Nat.add_mul] at hb
      omega
    have hnext : va + pageSize + n * pageSize = va + (n + 1) * pageSize := by
      rw [Nat.add_mul]
      omega
    have hal' : pageSize ∣ va + pageSize := (Nat.dvd_add_left dvd_rfl).2 hal
    have hget : ∀ wa < 2 ^ 47, (mm.vmmUnmapPage va).2.pml4.get wa =
        if va ≤ wa ∧ wa < va + pageSize then none else mm.pml4.get wa :=
      fun wa hw => vmmUnmapPage_get hal hv hw
    have hareas : SameAreas mm (mm.vmmUnmapPage va).2 := vmmUnmapPage_areas va
    have hcompose : ∀ {m₁ mm₁}, (mm.vmmUnmapPage va).2 = mm₁ →
        unmapPages n m₁ mm₁ (va + pageSize) = .ok (m', mm') →
        Unmapped mm mm' va (va + (n + 1) * pageSize) := by
      intro m₁ mm₁ he hr
      subst he
      have hrest := ih hr hal' (hnext ▸ hb)
      refine ⟨hareas.trans hrest.areas, fun wa hw => ?_⟩
      rw [hrest.get wa hw, hget wa hw, hnext]
      have hn : n * pageSize + pageSize = (n + 1) * pageSize := by rw [Nat.add_mul, one_mul]
      split_ifs <;> first | rfl | omega
    rw [unmapPages] at h
    split at h
    · rename_i hu
      exact hcompose (congrArg Prod.snd hu) h
    · rename_i hu
      split at h
      · exact hcompose (congrArg Prod.snd hu) h
      · split at h
        · cases h
        · exact hcompose (congrArg Prod.snd hu) h

lemma pagesIn_mul {start stop : ℕ} (hs : pageSize ∣ start) (he : pageSize ∣ stop)
    (hle : start ≤ stop) : start + pagesIn start stop * pageSize = stop := by
  obtain ⟨a, rfl⟩ := hs
  obtain ⟨b, rfl⟩ := he
  simp only [pagesIn, pageSize] at *
  omega

lemma unmapRange_unmapped {start stop : ℕ} (h : unmapRange m mm start stop = .ok (m', mm'))
    (hs : pageSize ∣ start) (he : pageSize ∣ stop) (hle : start ≤ stop) (hb : stop ≤ 2 ^ 47) :
    Unmapped mm mm' start stop := by
  have hend := pagesIn_mul hs he hle
  obtain ⟨m₁, mm₁, s, t, freed, hu, hp, hr⟩ := unmapRange_ok.1 h
  have hun := unmapPages_unmapped hu hs (hend.trans_le hb)
  rw [hend] at hun
  have hget := Pmm.pruneTables_get hp
  have hareas : SameAreas mm₁ { mm₁ with pml4 := t } := ⟨rfl, rfl, rfl, rfl⟩
  cases hr
  split
  · refine ⟨hun.areas.trans (hareas.trans (sameAreas_flushAll _)), fun wa hw => ?_⟩
    rw [flushAll_pml4, hget]
    exact hun.get wa hw
  · refine ⟨hun.areas.trans hareas, fun wa hw => ?_⟩
    rw [hget]
    exact hun.get wa hw

end Unmap

section Loop

/-- The outcome of the loop of `mm_unmap` on `[addr, stop)`: `vs'` and `upper` are left of the
areas `vs`. -/
structure Cut (addr stop : ℕ) (vs vs' : List Vma) (upper : Option Vma) (mm mm' : Mm) : Prop where
  list : VmaList vs'
  shape : ∀ u ∈ upper, u.Shape
  apart : ∀ u ∈ upper, ∀ w ∈ vs', w.stop ≤ u.start ∨ u.stop ≤ w.start
  inside : ∀ w ∈ vs' ++ upper.toList, ∃ v ∈ vs, v.start ≤ w.start ∧ w.stop ≤ v.stop
  covers : ∀ a, ¬ (addr ≤ a ∧ a < stop) → (∃ v ∈ vs, v.Contains a) →
    ∃ w ∈ vs' ++ upper.toList, w.Contains a
  areas : SameAreas mm mm'
  get : ∀ a < 2 ^ 47, mm'.pml4.get a =
    if (∃ v ∈ vs, v.Contains a) ∧ addr ≤ a ∧ a < stop then none else mm.pml4.get a

variable {addr stop : ℕ} {v : Vma} {vs vs' kept : List Vma} {up upper : Option Vma}
  {mm mm₁ mm' : Mm}

lemma Cut.cons (kept : List Vma) (up : Option Vma) (h : Cut addr stop vs vs' upper mm₁ mm') (hl : VmaList (v :: vs))
    (hparts : VmaList (kept ++ up.toList))
    (hin : ∀ w ∈ kept ++ up.toList, v.start ≤ w.start ∧ w.stop ≤ v.stop)
    (hcov : ∀ a, ¬ (addr ≤ a ∧ a < stop) → v.Contains a → ∃ w ∈ kept ++ up.toList, w.Contains a)
    (hareas : SameAreas mm mm₁)
    (hget : ∀ a < 2 ^ 47, mm₁.pml4.get a =
      if v.Contains a ∧ addr ≤ a ∧ a < stop then none else mm.pml4.get a)
    (hup : up = none ∨ upper = none) :
    Cut addr stop (v :: vs) (kept ++ vs') (up.or upper) mm mm' := by
  obtain ⟨hv, hfar, hvs⟩ := vmaList_cons.1 hl
  obtain ⟨hkept, hupper, hku⟩ := vmaList_append.1 hparts
  -- whatever is left of `v` lies below whatever is left of the others
  have hbelow : ∀ w ∈ kept ++ up.toList, ∀ x ∈ vs' ++ upper.toList, w.stop ≤ x.start := by
    intro w hw x hx
    obtain ⟨y, hy, hyx, -⟩ := h.inside x hx
    exact ((hin w hw).2.trans (hfar y hy)).trans hyx
  have hmem : ∀ w, w ∈ (kept ++ vs') ++ (up.or upper).toList ↔
      w ∈ kept ++ up.toList ∨ w ∈ vs' ++ upper.toList := by
    intro w
    rcases hup with rfl | rfl
    · simp
    · cases up <;> simp [or_assoc, or_comm, or_left_comm]
  refine ⟨vmaList_append.2 ⟨hkept, h.list, fun w hw x hx =>
      hbelow w (List.mem_append_left _ hw) x (List.mem_append_left _ hx)⟩, fun u hu => ?_,
    fun u hu w hw => ?_, fun w hw => ?_, fun a ha hex => ?_, hareas.trans h.areas, fun a ha => ?_⟩
  · rcases Option.or_eq_some_iff.1 hu with hu | ⟨-, hu⟩
    · exact hupper.shape u (by simp [hu])
    · exact h.shape u hu
  · rcases Option.or_eq_some_iff.1 hu with hu | ⟨-, hu⟩
    · have hut : u ∈ up.toList := by simp [hu]
      rcases List.mem_append.1 hw with hw | hw
      · exact .inl (hku w hw u hut)
      · exact .inr (hbelow u (List.mem_append_right _ hut) w (List.mem_append_left _ hw))
    · rcases List.mem_append.1 hw with hw | hw
      · exact .inl (hbelow w (List.mem_append_left _ hw) u
          (List.mem_append_right _ (by simp [hu])))
      · exact h.apart u hu w hw
  · rcases (hmem w).1 hw with hw | hw
    · exact ⟨v, List.mem_cons_self, hin w hw⟩
    · obtain ⟨y, hy, hyw⟩ := h.inside w hw
      exact ⟨y, List.mem_cons_of_mem _ hy, hyw⟩
  · obtain ⟨x, hx, hxa⟩ := hex
    rcases List.mem_cons.1 hx with rfl | hx
    · obtain ⟨w, hw, hwa⟩ := hcov a ha hxa
      exact ⟨w, (hmem w).2 (.inl hw), hwa⟩
    · obtain ⟨w, hw, hwa⟩ := h.covers a ha ⟨x, hx, hxa⟩
      exact ⟨w, (hmem w).2 (.inr hw), hwa⟩
  · rw [h.get a ha, hget a ha]
    simp only [List.exists_mem_cons_iff]
    by_cases h₁ : v.Contains a
    · by_cases h₂ : addr ≤ a ∧ a < stop
      · simp [h₁, h₂]
      · simp [h₂]
    · simp only [h₁, false_or, false_and, if_false]

lemma cutVma_noSplit {cutStart cutEnd : ℕ} : (cutVma v cutStart cutEnd false).2 = none := by
  simp only [cutVma, Bool.false_eq_true, if_false]
  split_ifs <;> rfl

lemma cutVma_none {cutStart cutEnd : ℕ} {split : Bool}
    (h : cutVma v cutStart cutEnd split = (none, upper)) :
    cutVma v cutStart cutEnd split = (none, none) := by
  rw [cutVma] at h ⊢
  split_ifs at h ⊢ <;> first | rfl | cases h

lemma unmapLoop_noSplit {m m' : Machine}
    (h : unmapLoop addr stop vs false m mm = .ok (vs', upper, m', mm')) : upper = none := by
  induction vs generalizing m mm vs' upper with
  | nil =>
    cases h
    rfl
  | cons v vs ih =>
    rw [unmapLoop] at h
    split at h
    · split at h
      · cases h
      · rename_i hr
        cases h
        exact ih hr
    · simp only at h
      split at h
      · cases h
      · split at h
        · split at h
          · cases h
          · exact ih h
        · split at h
          · cases h
          · rename_i hr
            cases h
            exact ih hr
        · rename_i hc
          have := congrArg Prod.snd hc
          rw [cutVma_noSplit] at this
          cases this

lemma unmapLoop_cut {m m' : Machine} {split : Bool} (hs : pageSize ∣ addr) (he : pageSize ∣ stop)
    (hlt : addr < stop) (hl : VmaList vs) (h : unmapLoop addr stop vs split m mm = .ok (vs', upper, m', mm')) :
    Cut addr stop vs vs' upper mm mm' := by
  induction vs generalizing m mm vs' upper split with
  | nil =>
    cases h
    exact ⟨vmaList_nil, by simp, by simp, by simp, by simp, .refl _, by simp⟩
  | cons v vs ih =>
    obtain ⟨hv, -, hvs⟩ := vmaList_cons.1 hl
    rw [unmapLoop] at h
    split at h
    · rename_i hout
      split at h
      · cases h
      · rename_i hr
        cases h
        have hsingle : VmaList ([v] ++ (none : Option Vma).toList) :=
          vmaList_cons.2 ⟨hv, by simp, vmaList_nil⟩
        refine (ih hvs hr).cons [v] none hl hsingle (by simp)
          (fun a _ ha => ⟨v, by simp, ha⟩) (.refl _) (fun a _ => ?_) (.inl rfl)
        rw [if_neg (by simp only [Vma.Contains]; omega)]
    · rename_i hover
      push Not at hover
      have hlo : v.start ≤ max addr v.start := le_max_right _ _
      have hhi : min stop v.stop ≤ v.stop := min_le_right _ _
      have hmax : pageSize ∣ max addr v.start := max_rec' (pageSize ∣ ·) hs hv.alignedStart
      have hmin : pageSize ∣ min stop v.stop := min_rec' (pageSize ∣ ·) he hv.alignedStop
      have hends : userSpaceEnd ≤ 2 ^ 47 := by decide
      have hne := hv.nonempty
      have hhigh := hv.high
      simp only at h
      split at h
      · cases h
      rename_i m₁ mm₁ hu
      have hlt' : max addr v.start < min stop v.stop := by
        simp only [max_lt_iff, lt_min_iff]
        omega
      · have hun := unmapRange_unmapped hu hmax hmin hlt'.le (by omega)
        have hget : ∀ a < 2 ^ 47, mm₁.pml4.get a =
            if v.Contains a ∧ addr ≤ a ∧ a < stop then none else mm.pml4.get a := by
          intro a ha
          rw [hun.get a ha]
          refine if_congr ?_ rfl rfl
          simp only [Vma.Contains]
          omega
        have hparts := vmaList_cutParts split hv hmax hmin hlo hlt' hhi
        have hin := fun w => cutParts_inside split hlo hlt' hhi (w := w)
        have hcov : ∀ a, ¬ (addr ≤ a ∧ a < stop) → v.Contains a →
            ∃ w ∈ cutParts v (max addr v.start) (min stop v.stop) split, w.Contains a :=
          fun a ha hva => cutParts_covers hva (by have := hva.1; have := hva.2; omega)
        rw [cutParts] at hparts hin hcov
        split at h
        · rename_i hc
          split at h
          · cases h
          · rw [cutVma_none hc] at hparts hin hcov
            exact (ih hvs h).cons [] none hl hparts hin hcov hun.areas hget
              (.inl rfl)
        · rename_i hc
          split at h
          · cases h
          · rename_i hr
            cases h
            rw [hc] at hparts hin hcov
            exact (ih hvs hr).cons [_] none hl hparts hin hcov hun.areas hget
              (.inl rfl)
        · rename_i hc
          split at h
          · cases h
          · rename_i hr
            cases h
            rw [hc] at hparts hin hcov
            exact (ih hvs hr).cons [_] (some _) hl hparts hin hcov hun.areas hget
              (.inr (unmapLoop_noSplit hr))

end Loop

end MyOS.Memory

/-! What `copy_user_tables` makes of the mappings of the parent and of the child. -/

namespace MyOS.Memory

open Library.Radix

lemma Pte.shared_frame (pte : Pte) : pte.shared.frame = pte.frame := by
  rw [Pte.shared]
  split <;> rfl

lemma Pte.shared_writable (pte : Pte) : pte.shared.writable = false := by
  rw [Pte.shared]
  split
  · rfl
  · rename_i h
    simpa using h

lemma Pte.shared_of_readonly {pte : Pte} (h : pte.writable = false) : pte.shared = pte := by
  rw [Pte.shared, if_neg (by simp [h])]

lemma Pte.shared_shared (pte : Pte) : pte.shared.shared = pte.shared :=
  Pte.shared_of_readonly pte.shared_writable

def userKeys : ℕ := ptes ^ 4

lemma agree_key {k l : ℕ} (hk : k < userKeys) (hl : l < userKeys) : Agree ptes 3 k l ↔ k = l :=
  ⟨fun h => h.eq hk hl, fun h => h ▸ Agree.refl _ _⟩

section Entry

variable {s s' : Pmm} {parent parent' child child' : Pml4} {key : ℕ} {ok : Bool}

lemma copyEntry_none (h : lookup ptes 3 parent key = none) :
    copyEntry s parent child key = .ok (true, s, parent, child) := by
  rw [copyEntry, h]

structure Shared (parent parent' child child' : Pml4) (key : ℕ) (pte : Pte) (ok : Bool) : Prop where
  parent : ∀ l < userKeys, lookup ptes 3 parent' l =
    if key = l then some pte.shared else lookup ptes 3 parent l
  child : ∀ l < userKeys, lookup ptes 3 child' l =
    if ok = true ∧ key = l then some pte.shared else lookup ptes 3 child l

lemma lookup_protect {pte : Pte} (hpte : lookup ptes 3 parent key = some pte) (hk : key < userKeys)
    {l : ℕ} (hl : l < userKeys) :
    lookup ptes 3 (if pte.writable then setLeaf ptes 3 parent key (some pte.shared) else parent) l =
      if key = l then some pte.shared else lookup ptes 3 parent l := by
  split
  · rw [lookup_setLeaf (hasPath_of_lookup hpte), if_congr (agree_key hk hl) rfl rfl]
  · rename_i hw
    split
    · rename_i he
      rw [Pte.shared_of_readonly (by simpa using hw), ← he, hpte]
    · rfl

lemma copyEntry_some {pte : Pte} (hpte : lookup ptes 3 parent key = some pte) (hk : key < userKeys)
    (h : copyEntry s parent child key = .ok (ok, s', parent', child')) :
    Shared parent parent' child child' key pte ok := by
  rw [copyEntry, hpte] at h
  have hpar := fun l hl => lookup_protect hpte hk (l := l) hl
  have hwalk := Pmm.walkCreate_lookup 3 (s.shareFrame pte.frame) child key
  have hpath := Pmm.walkCreate_hasPath 3 (s.shareFrame pte.frame) child key
  rcases hr : (s.shareFrame pte.frame).walkCreate 3 child key with ⟨walked, s₁, child₁⟩
  rw [hr] at hwalk hpath
  simp only [hr] at h
  split at h
  · rename_i hw
    cases h
    refine ⟨hpar, fun l hl => ?_⟩
    rw [lookup_setLeaf (hpath hw), if_congr (agree_key hk hl) rfl rfl, hwalk]
    simp only [true_and]
  · split at h
    · cases h
    · cases h
      exact ⟨hpar, fun l hl => by simpa using hwalk l⟩

end Entry

section Entries

variable {s s' : Pmm} {parent parent' child child' : Pml4} {ks : List ℕ} {ok : Bool}

lemma copyEntries_lookup (hks : ∀ k ∈ ks, k < userKeys)
    (h : copyEntries ks s parent child = .ok (ok, s', parent', child')) :
    ∀ l < userKeys,
      (lookup ptes 3 parent' l = lookup ptes 3 parent l ∨
        lookup ptes 3 parent' l = (lookup ptes 3 parent l).map Pte.shared) ∧
      (lookup ptes 3 child' l = lookup ptes 3 child l ∨
        lookup ptes 3 child' l = (lookup ptes 3 parent l).map Pte.shared) := by
  induction ks generalizing s parent child with
  | nil =>
    cases h
    exact fun l _ => ⟨.inl rfl, .inl rfl⟩
  | cons key ks ih =>
    have hk := hks key List.mem_cons_self
    have hrest := fun k hk => hks k (List.mem_cons_of_mem key hk)
    rw [copyEntries] at h
    cases hpte : lookup ptes 3 parent key with
    | none =>
      rw [copyEntry_none hpte] at h
      exact ih hrest h
    | some pte =>
      split at h
      · cases h
      all_goals
        rename_i hc
        have hsh := copyEntry_some hpte hk hc
      · cases h
        intro l hl
        rw [hsh.parent l hl, hsh.child l hl]
        by_cases hkl : key = l
        · subst hkl
          simp [hpte]
        · simp [hkl]
      · intro l hl
        have hi := ih hrest h l hl
        rw [hsh.parent l hl, hsh.child l hl] at hi
        by_cases hkl : key = l
        · subst hkl
          simp only [hpte, if_true, and_self, Option.map_some, Pte.shared_shared] at hi ⊢
          exact ⟨.inr (hi.1.elim id id), .inr (hi.2.elim id id)⟩
        · simpa only [hkl, if_false, and_false] using hi

end Entries

lemma width_le (j : ℕ) : width j ≤ ptes := by
  rw [width]
  split <;> decide

lemma mem_userKeys {t : Pml4} {k : ℕ} (h : k ∈ keys ptes width 3 t) :
    k < userKeys ∧ (lookup ptes 3 t k).isSome = true := by
  obtain ⟨hs, -, hlt⟩ := (mem_keys width_le).1 h
  exact ⟨hlt, hs⟩

lemma page_lt {va : ℕ} (hv : va < 2 ^ 47) : va / pageSize < userKeys := by
  simp only [pageSize, userKeys, ptes]
  omega

section Tables

variable {s s' : Pmm} {parent parent' child child' : Pml4} {ok : Bool}

lemma copyUserTables_get (h : copyUserTables s parent child = .ok (ok, s', parent', child')) {va : ℕ}
    (hv : va < 2 ^ 47) :
    (parent'.get va = parent.get va ∨ parent'.get va = (parent.get va).map Pte.shared) ∧
      (child'.get va = child.get va ∨ child'.get va = (parent.get va).map Pte.shared) :=
  copyEntries_lookup (fun _ hk => (mem_userKeys hk).1) h _ (page_lt hv)

end Tables

end MyOS.Memory
