import MyOS.Memory.VmaRuns

/-! `mm_unmap` takes its range out of an address space and nothing else, unless the range lies inside
one area and there is no VMA for the part above. -/

namespace MyOS.Memory

def Covers (vmas : List Vma) (prot flags addr : ℕ) : Prop :=
  ∃ v ∈ vmas, v.Contains addr ∧ v.prot = prot ∧ v.flags = flags

structure UnmapsExactly (mm mm' : Mm) (addr stop : ℕ) : Prop where
  clear : ∀ v ∈ mm'.vmas, v.stop ≤ addr ∨ stop ≤ v.start
  areas : ∀ a, ¬ (addr ≤ a ∧ a < stop) → ∀ prot flags,
    Covers mm'.vmas prot flags a ↔ Covers mm.vmas prot flags a
  absent : ∀ a < 2 ^ 47, addr ≤ a ∧ a < stop → mm'.pml4.get a = none
  kept : ∀ a < 2 ^ 47, ¬ (addr ≤ a ∧ a < stop) → mm'.pml4.get a = mm.pml4.get a

def Vma.Around (v : Vma) (addr stop : ℕ) : Prop := v.start < addr ∧ stop < v.stop

instance (v : Vma) (addr stop : ℕ) : Decidable (v.Around addr stop) :=
  inferInstanceAs (Decidable (_ ∧ _))

section Parts

variable {addr stop cutStart cutEnd a prot flags : ℕ} {split : Bool} {v w : Vma} {vs vs' : List Vma}
  {upper : Option Vma}

lemma covers_append {ws : List Vma} :
    Covers (vs ++ ws) prot flags a ↔ Covers vs prot flags a ∨ Covers ws prot flags a := by
  simp only [Covers, List.mem_append, or_and_right, exists_or]

lemma covers_cutParts (hlo : v.start ≤ cutStart) (hlt : cutStart < cutEnd) (hhi : cutEnd ≤ v.stop)
    (hout : a < cutStart ∨ cutEnd ≤ a) :
    Covers (cutParts v cutStart cutEnd split) prot flags a ↔ Covers [v] prot flags a := by
  rw [cutParts_eq]
  split_ifs <;>
    simp only [Covers, Vma.Contains, List.mem_cons, List.not_mem_nil, or_false, exists_eq_left,
      false_and, exists_false, exists_eq_or_imp, false_iff] <;>
    omega

def partsLeft (addr stop : ℕ) (split : Bool) (v : Vma) : List Vma :=
  if stop ≤ v.start ∨ v.stop ≤ addr then [v]
  else cutParts v (max addr v.start) (min stop v.stop) split

lemma covers_partsLeft (hv : v.start < v.stop) (hlt : addr < stop) (hout : ¬ (addr ≤ a ∧ a < stop)) :
    Covers (partsLeft addr stop split v) prot flags a ↔ Covers [v] prot flags a := by
  rw [partsLeft]
  split
  · rfl
  · exact covers_cutParts (le_max_right _ _) (by omega) (min_le_right _ _) (by omega)

lemma covers_flatMap (h : VmaList vs) (hlt : addr < stop) (hout : ¬ (addr ≤ a ∧ a < stop)) :
    Covers (vs.flatMap (partsLeft addr stop split)) prot flags a ↔ Covers vs prot flags a := by
  induction vs with
  | nil => rfl
  | cons v vs ih =>
    obtain ⟨hv, -, hvs⟩ := vmaList_cons.1 h
    rw [List.flatMap_cons, covers_append, covers_partsLeft hv.nonempty hlt hout, ih hvs,
      ← covers_append]
    rfl

lemma partsLeft_around (h : v.Around addr stop) (hlt : addr < stop) :
    partsLeft addr stop false v = [v] := by
  obtain ⟨hlow, hhigh⟩ := h
  rw [partsLeft, if_neg (by omega), cutParts_eq, if_neg (by omega), if_neg (by omega),
    if_neg (by omega), if_neg Bool.false_ne_true]

lemma partsLeft_clear (hroom : split = true ∨ ¬ v.Around addr stop)
    (hw : w ∈ partsLeft addr stop split v) : w.stop ≤ addr ∨ stop ≤ w.start := by
  rw [Vma.Around] at hroom
  rw [partsLeft] at hw
  split at hw
  · obtain rfl := List.mem_singleton.1 hw
    omega
  · rw [cutParts_eq] at hw
    split_ifs at hw with h₁ h₂ h₃ h₄ <;>
      simp only [List.mem_cons, List.not_mem_nil, or_false] at hw
    · subst hw
      simp only
      omega
    · subst hw
      simp only
      omega
    · rcases hw with rfl | rfl <;> simp only <;> omega
    · exact absurd ⟨by omega, by omega⟩ (hroom.resolve_left h₄)

lemma flatMap_partsLeft (h : ∀ v ∈ vs, stop ≤ v.start) :
    vs.flatMap (partsLeft addr stop split) = vs := by
  induction vs with
  | nil => rfl
  | cons v vs ih =>
    rw [List.flatMap_cons, partsLeft, if_pos (.inl (h v List.mem_cons_self)),
      ih fun w hw => h w (List.mem_cons_of_mem _ hw)]
    rfl

lemma cutVma_split {u : Vma} (h : cutVma v cutStart cutEnd split = (some w, some u)) :
    split = true ∧ cutEnd ≠ v.stop := by
  rw [cutVma] at h
  split_ifs at h with h₁ h₂ h₃ h₄ <;> first | exact ⟨h₄, h₃⟩ | cases h

end Parts

section Loop

variable {m m' : Machine} {mm mm' : Mm} {addr stop : ℕ} {split : Bool} {w : Vma} {vs vs' : List Vma}
  {upper : Option Vma}

lemma unmapLoop_mem (hl : VmaList vs)
    (h : unmapLoop addr stop vs split m mm = .ok (vs', upper, m', mm')) :
    w ∈ vs' ++ upper.toList ↔ w ∈ vs.flatMap (partsLeft addr stop split) := by
  induction vs generalizing m mm vs' upper split with
  | nil =>
    cases h
    rfl
  | cons v vs ih =>
    obtain ⟨hv, hfar, hvs⟩ := vmaList_cons.1 hl
    rw [List.flatMap_cons, partsLeft]
    rw [unmapLoop] at h
    split at h
    · rename_i hout
      split at h
      · cases h
      · rename_i hr
        cases h
        rw [if_pos hout, List.cons_append, List.mem_cons, ih hvs hr]
        exact List.mem_cons.symm
    · rename_i hover
      rw [if_neg hover, cutParts]
      simp only at h
      split at h
      · cases h
      split at h
      · rename_i hc
        split at h
        · cases h
        · rw [cutVma_none hc]
          exact ih hvs h
      · rename_i hc
        split at h
        · cases h
        · rename_i hr
          cases h
          rw [hc, List.cons_append, List.mem_cons, ih hvs hr, List.mem_append]
          simp
      · rename_i u hc
        split at h
        · cases h
        · rename_i hr
          cases h
          obtain ⟨rfl, hend⟩ := cutVma_split hc
          -- the range ends inside this area, so the others lie above it
          have habove : ∀ w ∈ vs, stop ≤ w.start := fun w hw => by
            have := hfar w hw
            omega
          have hrest := ih hvs hr
          rw [unmapLoop_noSplit hr, flatMap_partsLeft habove] at hrest
          rw [hc, flatMap_partsLeft habove]
          simp only [Option.toList_none, List.append_nil] at hrest
          simp [← hrest, or_comm]

lemma mmUnmap_ok {len : ℕ} (h : mmUnmap m mm addr len = .ok (true, m', mm')) :
    pageSize ∣ addr ∧ addr < addr + alignUp len pageSize ∧ addr + alignUp len pageSize < 2 ^ 64 ∧
    ∃ vs upper m₁ mm₁, unmapLoop addr (addr + alignUp len pageSize) mm.vmas m.kmemCacheAlloc.1
      m.kmemCacheAlloc.2 mm = .ok (vs, upper, m₁, mm₁) ∧ mm'.pml4 = mm₁.pml4 ∧
      ∀ w, w ∈ mm'.vmas ↔ w ∈ vs ++ upper.toList := by
  have hsmall := alignUp_lt len
  rw [mmUnmap] at h
  simp only at h
  generalize alignUp len pageSize = len at h hsmall ⊢
  split at h
  · cases h
  rename_i hok
  push Not at hok
  obtain ⟨hal, hlen, hwrap⟩ := hok
  have hstop : (addr + len) % 2 ^ 64 = addr + len := by omega
  rw [hstop] at h
  refine ⟨Nat.dvd_of_mod_eq_zero hal, by omega, by omega, ?_⟩
  split at h
  · cases h
  · rename_i vs u m₁ mm₁ hu
    cases h
    exact ⟨vs, some u, _, mm₁, hu, rfl, fun w => by
      rw [mem_insertVma, List.mem_append, or_comm]
      simp⟩
  · rename_i vs m₁ mm₁ hu
    split at h
    · cases h
    · cases h
      exact ⟨vs, none, _, mm₁, hu, rfl, fun w => by simp⟩

end Loop

lemma VmaInvariant.sound {mm : Mm} (h : VmaInvariant mm) : Sound mm where
  list :=
    { apart := (h.sorted.and h.disjoint).imp_of_mem fun {v w} hv hw hvw => by
        obtain ⟨hlt, hdisj⟩ := hvw
        have hw := h.nonempty w hw
        by_contra hover
        exact hdisj w.start ⟨⟨hlt.le, not_le.1 hover⟩, le_rfl, hw⟩
      shape := fun v hv => ⟨h.nonempty v hv, (h.aligned v hv).1, (h.aligned v hv).2,
        (h.inside v hv).1, (h.inside v hv).2⟩ }
  covered := h.mapped

theorem unmapsExactly_iff {m m' : Machine} {mm mm' : Mm} {addr len : ℕ} (hinv : VmaInvariant mm)
    (h : mmUnmap m mm addr len = .ok (true, m', mm')) :
    UnmapsExactly mm mm' addr (addr + alignUp len pageSize) ↔
      m.kmemCacheAlloc.1 = true ∨ ∀ v ∈ mm.vmas, ¬ v.Around addr (addr + alignUp len pageSize) := by
  have hs := hinv.sound
  obtain ⟨hal, hlt, -, vs, upper, m₁, mm₁, hu, hpml4, hvmas⟩ := mmUnmap_ok h
  have hend : pageSize ∣ addr + alignUp len pageSize := (Nat.dvd_add_right hal).2 (dvd_alignUp len)
  have hget := (unmapLoop_cut hal hend hlt hs.list hu).get
  generalize addr + alignUp len pageSize = stop at *
  generalize m.kmemCacheAlloc.1 = split at *
  have hmem : ∀ w, w ∈ mm'.vmas ↔ w ∈ mm.vmas.flatMap (partsLeft addr stop split) := fun w =>
    (hvmas w).trans (unmapLoop_mem hs.list hu)
  have hcovers : ∀ prot flags a, Covers mm'.vmas prot flags a ↔
      Covers (mm.vmas.flatMap (partsLeft addr stop split)) prot flags a := fun prot flags a =>
    exists_congr fun w => and_congr_left' (hmem w)
  constructor
  · intro hex
    by_contra hno
    push Not at hno
    obtain ⟨hsplit, v, hv, haround⟩ := hno
    have hleft : v ∈ mm'.vmas := by
      rw [hmem, List.mem_flatMap, Bool.eq_false_of_not_eq_true hsplit]
      exact ⟨v, hv, partsLeft_around haround hlt ▸ List.mem_singleton_self v⟩
    have := hex.clear v hleft
    rw [Vma.Around] at haround
    omega
  · intro hroom
    refine ⟨fun w hw => ?_, fun a ha prot flags => ?_, fun a ha hin => ?_, fun a ha hout => ?_⟩
    · obtain ⟨v, hv, hwv⟩ := List.mem_flatMap.1 ((hmem w).1 hw)
      exact partsLeft_clear (hroom.imp_right fun h => h v hv) hwv
    · exact (hcovers prot flags a).trans (covers_flatMap hs.list hlt ha)
    · rw [hpml4, hget a ha]
      split
      · rfl
      · rename_i hno
        -- a page that no area covered was not mapped
        rw [← Option.not_isSome_iff_eq_none]
        exact fun hsome => hno ⟨hs.covered a ha hsome, hin⟩
    · rw [hpml4, hget a ha, if_neg fun hin => hout hin.2]

def threePages : Mm where
  pml4 := emptyTable 0
  vmas := [⟨0x400000, 0x403000, protRead, vmaAnon⟩]

lemma threePages_invariant : VmaInvariant threePages where
  sorted := List.pairwise_singleton _ _
  nonempty := by decide
  aligned := by decide
  inside := by decide
  disjoint := List.pairwise_singleton _ _
  mapped va _ hs := by
    rw [show threePages.pml4.get va = none from lookup_emptyTable] at hs
    cases hs

lemma threePages_unmap (caches : List CacheEvent) (hc : caches = [] ∨ caches = [.refuse]) :
    ∃ m' mm', mmUnmap (smallBoot.world.before caches) threePages 0x401000 0x1000 = .ok (true, m', mm') := by
  have hruns : (mmUnmap (smallBoot.world.before caches) threePages 0x401000 0x1000).toOption.map Prod.fst =
      some true := by
    rcases hc with rfl | rfl <;> decide +kernel
  rcases h : mmUnmap (smallBoot.world.before caches) threePages 0x401000 0x1000 with p | ⟨b, m', mm'⟩
  · rw [h] at hruns
    cases hruns
  · rw [h] at hruns
    cases hruns
    exact ⟨m', mm', rfl⟩

theorem unmapsExactly_iff_threePages : ∃ m' mm',
    mmUnmap (smallBoot.world.before []) threePages 0x401000 0x1000 = .ok (true, m', mm') ∧
      UnmapsExactly threePages mm' 0x401000 0x402000 := by
  obtain ⟨m', mm', h⟩ := threePages_unmap [] (.inl rfl)
  exact ⟨m', mm', h, (unmapsExactly_iff threePages_invariant h).2 (.inl rfl)⟩

theorem not_unmapsExactly_refused : ∃ m' mm',
    VmaInvariant threePages ∧
      mmUnmap (smallBoot.world.before [.refuse]) threePages 0x401000 0x1000 = .ok (true, m', mm') ∧
      ¬ UnmapsExactly threePages mm' 0x401000 0x402000 := by
  obtain ⟨m', mm', h⟩ := threePages_unmap [.refuse] (.inr rfl)
  obtain ⟨-, -, -, vs, upper, m₁, mm₁, hu, -, hvmas⟩ := mmUnmap_ok h
  refine ⟨m', mm', threePages_invariant, h, fun hex => ?_⟩
  have hleft : ⟨0x400000, 0x403000, protRead, vmaAnon⟩ ∈ mm'.vmas := by
    rw [hvmas, unmapLoop_mem threePages_invariant.sound.list hu]
    decide
  exact absurd (hex.clear _ hleft) (by decide)

end MyOS.Memory
