import MyOS.Memory.PruneTables
import MyOS.Memory.Sbrk

/-! Every call on an address space keeps the ledger, the bytes of the pages of the others and its own
bytes. No call panics. -/

namespace MyOS.Memory

open Library.Dyadic Library.Radix

def Mm.byte (m : Machine) (mm : Mm) (va : ℕ) : UInt8 :=
  (mm.pml4.get va).elim 0 fun pte => m.pmm.mem (pte.target va)

def Mm.Coherent (mm : Mm) : Prop :=
  ∀ va pte, isUserAddress va = true → mm.tlb (va / pageSize) = some pte →
    mm.active = true ∧ mm.pml4.get va = some pte

/-- The ledger of one address space, next to the tables `tabs` and the entries `refs` of others. -/
def SpaceLedger (tabs refs : ℕ → ℕ) (m : Machine) (t : Pml4) : Prop :=
  TreeLedger False m.kernel tabs refs m.pmm 4 t

structure Kept (tabs refs : ℕ → ℕ) (m m' : Machine) : Prop where
  ledger : FrameLedger False m'.pmm m'.kernel tabs refs
  bytes : SameBytes tabs refs m.pmm m'.pmm

structure Released (tabs refs : ℕ → ℕ) (m m' : Machine) (mm mm' : Mm) : Prop where
  ledger : SpaceLedger tabs refs m' mm'.pml4
  counts : frameCount 4 mm'.pml4 ≤ frameCount 4 mm.pml4
  bytes : SameBytes tabs (refs + frameCount 4 mm'.pml4) m.pmm m'.pmm
  active : mm'.active = mm.active
  coherent : mm.Coherent → mm'.Coherent

/-- A call has led from `mm` to `mm'`: whatever it mapped is new or was its own, and its bytes are
the same but for those of `[lo, hi)`. -/
structure Served (lo hi : ℕ) (tabs refs : ℕ → ℕ) (m m' : Machine) (mm mm' : Mm) :
    Prop where
  ledger : SpaceLedger tabs refs m' mm'.pml4
  counts : ∀ f, frameCount 4 mm'.pml4 f ≤ max (frameCount 4 mm.pml4 f) (1 - refs f)
  bytes : SameBytes tabs refs m.pmm m'.pmm
  active : mm'.active = mm.active
  coherent : mm.Coherent → mm'.Coherent
  entry : ∀ va < 2 ^ 47, ∀ pte, mm'.pml4.get va = some pte → pte.writable = true →
    mm.pml4.get va = some pte ∨ refs pte.frame + frameCount 4 mm'.pml4 pte.frame = 1
  byte : ∀ va < 2 ^ 47, mm'.byte m' va = if lo ≤ va ∧ va < hi then 0 else mm.byte m va

def Serves {α : Type} (tabs refs : ℕ → ℕ) (m : Machine) (mm : Mm)
    (r : Except Panic (α × Machine × Mm)) : Prop :=
  ∃ a m' mm', r = .ok (a, m', mm') ∧ Served 0 0 tabs refs m m' mm mm'

section Counts

variable {t t' : Pml4} {va wa : ℕ} {pte pte' : Pte}

lemma tableCount_put {v : Option Pte} (hp : HasPath ptes 3 t (va / pageSize)) (hva : va < 2 ^ 47) :
    tableCount 4 (t.put va v) = tableCount 4 t :=
  tableCount_setLeaf hp (fits_page hva)

lemma frameCount_get (hva : va < 2 ^ 47) (h : t.get va = some pte) : 0 < frameCount 4 t pte.frame :=
  frameCount_pos h (fits_page hva)

lemma frameCount_le (h : ∀ va < 2 ^ 47, ∀ pte, t'.get va = some pte →
    ∃ old, t.get va = some old ∧ old.frame = pte.frame) : frameCount 4 t' ≤ frameCount 4 t := by
  intro f
  refine sum_le_sum width_le fun k hlt hk => ?_
  have hlt : k * pageSize < 2 ^ 47 := by
    have hdig : k / 512 ^ 3 % 512 < 256 := hk 3 le_rfl
    have hk' : k < 512 ^ 4 := hlt
    simp only [pageSize]
    omega
  have hdiv : k * pageSize / pageSize = k := Nat.mul_div_cancel k (by decide)
  have hget := h (k * pageSize) hlt
  rw [Pml4.get, Pml4.get, hdiv] at hget
  cases hc : lookup ptes 3 t' k with
  | none => exact Nat.zero_le _
  | some pte =>
    obtain ⟨old, hold, hframe⟩ := hget pte hc
    rw [hold, Option.elim_some, Option.elim_some, hframe]

lemma frameCount_congr (h : ∀ va, t'.get va = t.get va) : frameCount 4 t' = frameCount 4 t :=
  le_antisymm (frameCount_le fun va _ pte hg => ⟨pte, h va ▸ hg, rfl⟩)
    (frameCount_le fun va _ pte hg => ⟨pte, (h va).trans hg, rfl⟩)

lemma page_eq_of_frameCount (hva : va < 2 ^ 47) (hwa : wa < 2 ^ 47) (h : t.get va = some pte)
    (h' : t.get wa = some pte') (hframe : pte.frame = pte'.frame) (hone : frameCount 4 t pte.frame ≤ 1) :
    va / pageSize = wa / pageSize := by
  by_contra hne
  have htwo := le_sum_of_two (f := fun q : Pte => if pte.frame = q.frame then 1 else 0) (g := fun _ => 0)
    (t := t) (fits_page hva) (fits_page hwa) ((agree_page hva hwa).not.2 hne)
  rw [Pml4.get] at h h'
  rw [h, h', Option.elim_some, Option.elim_some, if_pos rfl, if_pos hframe] at htwo
  exact absurd (htwo.trans hone) (by decide)

end Counts

lemma lt_of_isUserAddress {va : ℕ} (h : isUserAddress va = true) : va < 2 ^ 47 :=
  (of_decide_eq_true h).trans_le (by decide)

section Coherence

variable {mm mm' : Mm} {va : ℕ} {v : Option Pte} {t : Pml4}

lemma Mm.Coherent.congr (h : mm.Coherent) (ht : mm'.tlb = mm.tlb) (ha : mm'.active = mm.active)
    (hg : ∀ va < 2 ^ 47, ∀ pte, mm.pml4.get va = some pte → mm'.pml4.get va = some pte) : mm'.Coherent := by
  intro va pte hu hs
  rw [ht] at hs
  obtain ⟨hact, hget⟩ := h va pte hu hs
  have hlt := lt_of_isUserAddress hu
  exact ⟨ha.trans hact, hg va hlt pte hget⟩

lemma Mm.Coherent.flushAll (h : mm.Coherent) : (Mm.flushAll { mm with pml4 := t }).Coherent := by
  intro va pte hu hs
  rw [Mm.flushAll] at hs ⊢
  split at hs
  · cases hs
  · rename_i hact
    exact absurd (h va pte hu hs).1 hact

lemma Mm.Coherent.flushPage (h : mm.Coherent) (hp : HasPath ptes 3 mm.pml4 (va / pageSize))
    (hva : va < 2 ^ 47) : (Mm.flushPage { mm with pml4 := mm.pml4.put va v } va).Coherent := by
  intro wa pte hu hs
  have hlt := lt_of_isUserAddress hu
  rw [flushPage_pml4]
  rw [Mm.flushPage] at hs ⊢
  split at hs
  · rename_i hact
    simp only [Function.update_apply] at hs
    split at hs
    · cases hs
    rename_i hne
    rw [if_pos hact, Pml4.get_put hp hva hlt, if_neg (Ne.symm hne)]
    exact h wa pte hu hs
  · rename_i hact
    exact absurd (h wa pte hu hs).1 hact

end Coherence

section Relations

variable {tabs refs more more' : ℕ → ℕ} {lo hi : ℕ} {m m₁ m' : Machine} {mm mm₁ mm' : Mm}
  {s t : Pmm}

lemma SameBytes.mono {tabs' refs' : ℕ → ℕ} (h : SameBytes tabs' refs' s t)
    (hle : ∀ f, 0 < tabs f + refs f → 0 < tabs' f + refs' f) : SameBytes tabs refs s t :=
  fun a ha => h a (hle _ ha)

lemma SameBytes.of_add (h : SameBytes (tabs + more) (refs + more') s t) : SameBytes tabs refs s t :=
  h.mono fun f hf => by
    rw [Pi.add_apply, Pi.add_apply]
    omega

lemma Kept.refl (h : FrameLedger False m.pmm m.kernel tabs refs) : Kept tabs refs m m := ⟨h, .refl⟩

lemma Kept.trans (h : Kept tabs refs m m₁) (k : Kept tabs refs m₁ m') :
    Kept tabs refs m m' :=
  ⟨k.ledger, h.bytes.trans k.bytes fun _ hf => hf⟩

lemma Kept.released (h : Kept (tabs + tableCount 4 mm.pml4) (refs + frameCount 4 mm.pml4) m m')
    (ht : mm'.pml4 = mm.pml4) (ha : mm'.active = mm.active) (hl : mm'.tlb = mm.tlb) :
    Released tabs refs m m' mm mm' where
  ledger := by
    rw [ht]
    exact h.ledger
  counts := by rw [ht]
  bytes := by
    rw [ht]
    exact h.bytes.mono fun f hf => by
      rw [Pi.add_apply]
      omega
  active := ha
  coherent hc := hc.congr hl ha fun _ _ _ hg => ht ▸ hg

lemma Released.refl (h : SpaceLedger tabs refs m mm.pml4) : Released tabs refs m m mm mm :=
  (Kept.refl h).released rfl rfl rfl

lemma Released.trans (h : Released tabs refs m m₁ mm mm₁) (k : Released tabs refs m₁ m' mm₁ mm') :
    Released tabs refs m m' mm mm' where
  ledger := k.ledger
  counts := k.counts.trans h.counts
  bytes := by
    refine SameBytes.trans (h.bytes.mono fun f hf => ?_) k.bytes fun _ hf => hf
    have hle : frameCount 4 mm'.pml4 f ≤ frameCount 4 mm₁.pml4 f := k.counts f
    simp only [Pi.add_apply] at hf ⊢
    omega
  active := k.active.trans h.active
  coherent hc := k.coherent (h.coherent hc)

lemma mem_target {pte : Pte} {va : ℕ} (h : SameBytes tabs refs s t) (hp : 0 < tabs pte.frame + refs pte.frame) :
    t.mem (pte.target va) = s.mem (pte.target va) := by
  refine h _ ?_
  have hdiv : pte.target va / pageSize = pte.frame := by
    simp only [Pte.target, pageToPhys, pageSize]
    omega
  rwa [hdiv]

lemma Released.served (h : Released tabs refs m m' mm mm')
    (hget : ∀ va < 2 ^ 47, mm'.pml4.get va = if lo ≤ va ∧ va < hi then none else mm.pml4.get va) :
    Served lo hi tabs refs m m' mm mm' where
  ledger := h.ledger
  counts f := le_max_of_le_left (h.counts f)
  bytes := h.bytes.mono fun f hf => by
    rw [Pi.add_apply]
    omega
  active := h.active
  coherent := h.coherent
  entry va hva pte hg _ := by
    rw [hget va hva] at hg
    split at hg
    · cases hg
    · exact .inl hg
  byte va hva := by
    have hmem : ∀ pte, mm'.pml4.get va = some pte → m'.pmm.mem (pte.target va) = m.pmm.mem (pte.target va) := by
      intro pte hg
      refine mem_target h.bytes ?_
      have := frameCount_get hva hg
      rw [Pi.add_apply]
      omega
    have hva' := hget va hva
    rw [Mm.byte, Mm.byte]
    split at hva'
    · rw [hva', if_pos ‹_›, Option.elim_none]
    · rw [if_neg ‹_›]
      cases hg : mm'.pml4.get va with
      | none => rw [← hva', hg, Option.elim_none, Option.elim_none]
      | some pte => rw [← hva', hg, Option.elim_some, Option.elim_some, hmem pte hg]

lemma Served.empty (h : Served 0 0 tabs refs m m' mm mm') (hle : hi ≤ lo) : Served lo hi tabs refs m m' mm mm' :=
  { h with byte := fun va hva => by rw [h.byte va hva, if_neg (by omega), if_neg (by omega)] }

lemma Released.unchanged (h : Released tabs refs m m' mm mm')
    (hget : ∀ va < 2 ^ 47, mm'.pml4.get va = mm.pml4.get va) : Served 0 0 tabs refs m m' mm mm' :=
  h.served fun va hva => by rw [if_neg (by omega), hget va hva]

lemma Served.trans (h : Served 0 0 tabs refs m m₁ mm mm₁) (k : Served lo hi tabs refs m₁ m' mm₁ mm') :
    Served lo hi tabs refs m m' mm mm' where
  ledger := k.ledger
  counts f := (k.counts f).trans (max_le (h.counts f) (le_max_right _ _))
  bytes := h.bytes.trans k.bytes fun _ hf => hf
  active := k.active.trans h.active
  coherent hc := k.coherent (h.coherent hc)
  entry va hva pte hg hw := by
    rcases k.entry va hva pte hg hw with hold | hone
    · rcases h.entry va hva pte hold hw with hold' | hone
      · exact .inl hold'
      · have hpos := frameCount_get hva hg
        have hpos' := frameCount_get hva hold
        have hle := k.counts pte.frame
        exact .inr (by omega)
    · exact .inr hone
  byte va hva := by
    rw [k.byte va hva, h.byte va hva, if_neg (show ¬ (0 ≤ va ∧ va < 0) by omega)]

variable {α : Type} {a : α} {r : Except Panic (α × Machine × Mm)}

lemma Served.ok (h : Served 0 0 tabs refs m m' mm mm') (a : α) :
    Serves tabs refs m mm (.ok (a, m', mm')) :=
  ⟨a, m', mm', rfl, h⟩

lemma Served.serves (h : Served 0 0 tabs refs m m₁ mm mm₁) (k : Serves tabs refs m₁ mm₁ r) :
    Serves tabs refs m mm r := by
  obtain ⟨a, m', mm', hr, hs⟩ := k
  exact ⟨a, m', mm', hr, h.trans hs⟩

lemma Kept.serves (h : Kept (tabs + tableCount 4 mm.pml4) (refs + frameCount 4 mm.pml4) m m') (a : α)
    (ht : mm'.pml4 = mm.pml4) (ha : mm'.active = mm.active) (hl : mm'.tlb = mm.tlb) :
    Serves tabs refs m mm (.ok (a, m', mm')) :=
  ((h.released ht ha hl).unchanged fun va _ => by rw [ht]).ok a

lemma Serves.same (h : SpaceLedger tabs refs m mm.pml4) (a : α) :
    Serves tabs refs m mm (.ok (a, m, mm)) :=
  (Kept.refl h).serves a rfl rfl rfl

end Relations

section Caches

variable {tabs refs : ℕ → ℕ} {m : Machine} {mm : Mm}

lemma kmemCacheAlloc_kept (h : FrameLedger False m.pmm m.kernel tabs refs) :
    Kept tabs refs m m.kmemCacheAlloc.2 := by
  rw [Machine.kmemCacheAlloc]
  split
  · exact .refl h
  · exact ⟨h, .refl⟩
  · split
    · rename_i s hs
      obtain rfl := h.allocPages_none hs
      exact ⟨h, .refl⟩
    · rename_i p s hs
      obtain ⟨hl, -, -, -, hmem⟩ := h.allocPages hs
      exact ⟨hl, hl.sameBytes hmem⟩
  · exact ⟨h, .refl⟩

lemma kmemCacheFree_kept (h : FrameLedger False m.pmm m.kernel tabs refs) :
    ∃ m', m.kmemCacheFree = .ok m' ∧ Kept tabs refs m m' := by
  rw [Machine.kmemCacheFree]
  split
  · exact ⟨m, rfl, .refl h⟩
  · split
    · rename_i hb
      obtain ⟨s, hs, hl, hm⟩ := h.freePages hb
      rw [hs]
      exact ⟨_, rfl, hl, .of_eq hm⟩
    · exact ⟨_, rfl, h, .refl⟩
  · exact ⟨_, rfl, h, .refl⟩

lemma kmemCacheFrees_kept (n : ℕ) (h : FrameLedger False m.pmm m.kernel tabs refs) :
    ∃ m', m.kmemCacheFrees n = .ok m' ∧ Kept tabs refs m m' := by
  induction n generalizing m with
  | zero => exact ⟨m, rfl, .refl h⟩
  | succ n ih =>
    obtain ⟨m₁, hm₁, hk₁⟩ := kmemCacheFree_kept h
    obtain ⟨m₂, hm₂, hk₂⟩ := ih hk₁.ledger
    rw [Machine.kmemCacheFrees, hm₁]
    exact ⟨m₂, hm₂, hk₁.trans hk₂⟩

def blank : Mm := { pml4 := emptyTable 0 }

lemma mmCreate_runs (h : FrameLedger False m.pmm m.kernel tabs refs) :
    (∃ m', mmCreate m = .ok (none, m') ∧ Kept tabs refs m m') ∨
      ∃ p m', mmCreate m = .ok (some { pml4 := emptyTable p }, m') ∧
        Served 0 0 tabs refs m m' blank { pml4 := emptyTable p } := by
  have hk := kmemCacheAlloc_kept h
  rw [mmCreate]
  rcases hr : m.kmemCacheAlloc with ⟨_ | _, m₁⟩ <;> rw [hr] at hk
  · exact .inl ⟨m₁, rfl, hk⟩
  · simp only at hk ⊢
    rcases ha : m₁.pmm.pmmAllocPage { zero := true } with ⟨_ | p, s⟩
    · obtain rfl := hk.ledger.pmmAllocPage_none ha
      obtain ⟨m₂, hm₂, hk₂⟩ := kmemCacheFree_kept hk.ledger
      exact .inl ⟨m₂, by simp only [hm₂], hk.trans hk₂⟩
    · obtain ⟨hl, hbytes⟩ := hk.ledger.pmmAllocPage ha
      have hget : ∀ va, Pml4.get (emptyTable p) va = none := fun va => lookup_emptyTable
      have hframes : frameCount 4 (emptyTable p : Pml4) = 0 := frameCount_emptyTable p
      have hbytes := hk.bytes.trans hbytes fun _ hf => hf
      refine .inr ⟨p, _, rfl, Released.unchanged ⟨?_, ?_, ?_, rfl, fun _ _ _ _ hs => ?_⟩ fun va _ => ?_⟩
      · rw [SpaceLedger, TreeLedger, tableCount_emptyTable, frameCount_emptyTable, add_zero]
        exact hl
      · rw [hframes]
        exact zero_le
      · rwa [hframes, add_zero]
      · cases hs
      · exact (hget va).trans lookup_emptyTable.symm

lemma mmDestroy_kept (h : SpaceLedger tabs refs m mm.pml4) (hact : mm.active = false) :
    ∃ m', mmDestroy m mm = .ok m' ∧ Kept tabs refs m m' := by
  obtain ⟨m₁, hm₁, hk₁⟩ := kmemCacheFrees_kept mm.vmas.length h
  obtain ⟨s, hs, hl, hmem⟩ := destroyTables_ledger mm.pml4 hk₁.ledger
  obtain ⟨m₂, hm₂, hk₂⟩ := kmemCacheFree_kept (m := { m₁ with pmm := s }) hl
  rw [mmDestroy, hm₁]
  simp only [hact, Bool.false_eq_true, if_false, hs]
  exact ⟨m₂, hm₂, hk₂.ledger, (hk₁.bytes.of_add.trans (.of_eq hmem) fun _ hf => hf).trans hk₂.bytes fun _ hf => hf⟩

lemma mmDestroy_active {m' : Machine} (h : mmDestroy m mm = .ok m') : mm.active = false := by
  rw [mmDestroy] at h
  split at h
  · cases h
  · split at h
    · cases h
    · rename_i hact
      simpa using hact

lemma mmMap_serves (addr len prot flags : ℕ) (h : SpaceLedger tabs refs m mm.pml4) :
    Serves tabs refs m mm (mmMap m mm addr len prot flags) := by
  have hk := kmemCacheAlloc_kept h
  rw [mmMap]
  simp only
  generalize alignUp len pageSize = len
  split
  · exact .same h 0
  rcases hr : m.kmemCacheAlloc with ⟨_ | _, m₁⟩ <;> rw [hr] at hk
  · exact hk.serves 0 rfl rfl rfl
  · simp only at hk ⊢
    generalize (if addr = 0 then findFreeArea mm.vmas len else addr) = addr
    split
    · obtain ⟨m₂, hm₂, hk₂⟩ := kmemCacheFree_kept hk.ledger
      rw [hm₂]
      exact (hk.trans hk₂).serves 0 rfl rfl rfl
    · exact hk.serves _ rfl rfl rfl

end Caches

section Unmap

variable {tabs refs : ℕ → ℕ} {m : Machine} {mm : Mm} {start stop addr : ℕ}

lemma vmmUnmapPage_count {pte : Pte} {va : ℕ} (hva : va < 2 ^ 47) (hg : mm.pml4.get va = some pte) :
    tableCount 4 (mm.pml4.put va none) = tableCount 4 mm.pml4 ∧
      frameCount 4 (mm.pml4.put va none) + Pi.single pte.frame 1 = frameCount 4 mm.pml4 := by
  have hpath : HasPath ptes 3 mm.pml4 (va / pageSize) := hasPath_of_lookup hg
  have hlook : lookup ptes 3 mm.pml4 (va / pageSize) = some pte := hg
  have hcount := frameCount_setLeaf (v := none) hpath (fits_page hva)
  rw [hlook] at hcount
  exact ⟨tableCount_setLeaf hpath (fits_page hva), hcount.trans (add_zero _)⟩

lemma unmapPages_runs {n va : ℕ} (h : SpaceLedger tabs refs m mm.pml4)
    (hb : va + n * pageSize ≤ 2 ^ 47) :
    ∃ m' mm', unmapPages n m mm va = .ok (m', mm') ∧ Released tabs refs m m' mm mm' := by
  induction n generalizing m mm va with
  | zero => exact ⟨m, mm, rfl, .refl h⟩
  | succ n ih =>
    have hpos : 0 < pageSize := by decide
    have hva : va < 2 ^ 47 := by
      rw [Nat.add_mul] at hb
      omega
    have hb' : va + pageSize + n * pageSize ≤ 2 ^ 47 := by
      rw [Nat.add_mul] at hb
      omega
    rw [unmapPages, Mm.vmmUnmapPage]
    cases hg : mm.pml4.get va with
    | none => exact ih h hb'
    | some pte =>
      obtain ⟨htab, hframe⟩ := vmmUnmapPage_count hva hg
      rw [SpaceLedger, TreeLedger, ← htab, ← hframe, ← add_assoc] at h
      have hne : pte.frame ≠ 0 := h.ne_zero (by rw [add_single_self]; omega)
      obtain ⟨s, hs, hl, hmem⟩ := h.dropMapping
      have hpath : HasPath ptes 3 mm.pml4 (va / pageSize) := hasPath_of_lookup hg
      have hstep : Released tabs refs m { m with pmm := s } mm
          (Mm.flushPage { mm with pml4 := mm.pml4.put va none } va) := by
        refine ⟨?_, ?_, .of_eq hmem, (sameAreas_flushPage _ va).active, fun hc => hc.flushPage hpath hva⟩
        · rw [flushPage_pml4]
          exact hl
        · rw [flushPage_pml4, ← hframe]
          exact le_self_add
      simp only [hne, if_false, hs]
      obtain ⟨m₂, mm₂, hr, hk⟩ := ih hstep.ledger hb'
      exact ⟨m₂, mm₂, hr, hstep.trans hk⟩

lemma pagesIn_le (hb : stop ≤ userSpaceEnd) (hle : start ≤ stop) :
    start + pagesIn start stop * pageSize ≤ 2 ^ 47 := by
  simp only [pagesIn, pageSize, userSpaceEnd] at *
  omega

lemma pruneTables_released (start stop : ℕ) (h : SpaceLedger tabs refs m mm.pml4) :
    ∃ s t freed, m.pmm.pruneTables mm.pml4 start stop = .ok (s, t, freed) ∧
      Released tabs refs m { m with pmm := s } mm
        (if freed then ({ mm with pml4 := t } : Mm).flushAll else { mm with pml4 := t }) := by
  have hrounds : min stop userSpaceEnd ≤ start / 2 ^ 21 * 2 ^ 21 +
      ((min stop userSpaceEnd - start / 2 ^ 21 * 2 ^ 21) / 2 ^ 21 + 1) * 2 ^ 21 := by omega
  obtain ⟨fs, s, t, freed, hr, -, hl, -, -⟩ := pruneLoop_pruned _ hrounds
    ((min_le_right stop userSpaceEnd).trans (by decide)) (Nat.mul_mod_left _ _) h false
  have hp : m.pmm.pruneTables mm.pml4 start stop = .ok (s, t, freed) := hr 0
  have hmem : s.mem = m.pmm.mem := pruneLoop_mem hp
  have hget := Pmm.pruneTables_get hp
  have hframes := frameCount_congr hget
  rw [← hframes] at hl
  refine ⟨s, t, freed, hp, ?_⟩
  split
  · refine ⟨?_, ?_, .of_eq hmem, (sameAreas_flushAll _).active, Mm.Coherent.flushAll⟩ <;> rw [flushAll_pml4]
    · exact hl
    · exact hframes.le
  · exact ⟨hl, hframes.le, .of_eq hmem, rfl, fun hc => hc.congr rfl rfl fun va _ _ hg => (hget va).trans hg⟩

lemma unmapRange_runs (h : SpaceLedger tabs refs m mm.pml4) (hle : start ≤ stop)
    (hb : stop ≤ userSpaceEnd) :
    ∃ m' mm', unmapRange m mm start stop = .ok (m', mm') ∧ Released tabs refs m m' mm mm' := by
  obtain ⟨m₁, mm₁, hpages, hk⟩ := unmapPages_runs h (pagesIn_le hb hle)
  obtain ⟨s, t, freed, hprune, hk₂⟩ := pruneTables_released start stop hk.ledger
  exact ⟨_, _, unmapRange_ok.2 ⟨_, _, _, _, _, hpages, hprune, rfl⟩, hk.trans hk₂⟩

lemma unmapLoop_runs {vs : List Vma} (split : Bool) (hlt : addr < stop) (hl : VmaList vs)
    (h : SpaceLedger tabs refs m mm.pml4) :
    ∃ vs' upper m' mm', unmapLoop addr stop vs split m mm = .ok (vs', upper, m', mm') ∧
      Released tabs refs m m' mm mm' := by
  induction vs generalizing m mm split with
  | nil => exact ⟨[], none, m, mm, rfl, .refl h⟩
  | cons v vs ih =>
    obtain ⟨hv, -, hvs⟩ := vmaList_cons.1 hl
    have hne := hv.nonempty
    have hhigh := hv.high
    rw [unmapLoop]
    split
    · obtain ⟨vs', upper, m', mm', hr, hk⟩ := ih split hvs h
      rw [hr]
      exact ⟨_, upper, m', mm', rfl, hk⟩
    · rename_i hover
      push Not at hover
      have hcut : max addr v.start ≤ min stop v.stop := by omega
      have hend : min stop v.stop ≤ userSpaceEnd := by omega
      obtain ⟨m₁, mm₁, hu, hk⟩ := unmapRange_runs h hcut hend
      simp only [hu]
      split
      · obtain ⟨m₂, hm₂, hk₂⟩ := kmemCacheFree_kept hk.ledger
        have hk₂ := hk.trans (hk₂.released rfl rfl rfl)
        obtain ⟨vs', upper, m', mm', hr, hk₃⟩ := ih split hvs hk₂.ledger
        rw [hm₂]
        exact ⟨vs', upper, m', mm', hr, hk₂.trans hk₃⟩
      · obtain ⟨vs', upper, m', mm', hr, hk₂⟩ := ih split hvs hk.ledger
        rw [hr]
        exact ⟨_, upper, m', mm', rfl, hk.trans hk₂⟩
      · obtain ⟨vs', upper, m', mm', hr, hk₂⟩ := ih false hvs hk.ledger
        rw [hr]
        exact ⟨_, _, m', mm', rfl, hk.trans hk₂⟩

/-- The end of the range that `mm_unmap` clears; it refuses the address `addr` unless it is aligned. -/
def unmapEnd (addr len : ℕ) : ℕ := if addr % pageSize = 0 then (addr + alignUp len pageSize) % 2 ^ 64 else addr

/-- The range that `mm_sbrk` clears: the end of the heap when it shrinks. -/
def sbrkCut (mm : Mm) (inc : ℤ) : ℕ × ℕ :=
  let brk := newBrk mm.brk inc
  match findHeap mm.vmas with
  | none => (0, 0)
  | some (_, heap, _) =>
    if (0 < inc ∧ brk < mm.brk) ∨ (inc < 0 ∧ brk < mm.brkStart) ∨ mmapTop < brk then (0, 0)
    else (max (alignUp brk pageSize) (heap.start + pageSize), heap.stop)

lemma mmUnmap_runs (addr len : ℕ) (hs : Sound mm) (h : SpaceLedger tabs refs m mm.pml4) :
    ∃ ok m' mm', mmUnmap m mm addr len = .ok (ok, m', mm') ∧
      Served addr (unmapEnd addr len) tabs refs m m' mm mm' := by
  have hk := kmemCacheAlloc_kept h
  rw [mmUnmap]
  simp only
  split
  · rename_i hbad
    refine ⟨false, m, mm, rfl, ((Released.refl h).unchanged fun _ _ => rfl).empty ?_⟩
    rw [unmapEnd]
    split
    · have hmod := Nat.mod_le addr (2 ^ 64)
      rcases hbad with hne | hz | hlt
      · exact absurd ‹_› hne
      · rwa [hz, add_zero]
      · exact hlt.le
    · exact le_rfl
  rename_i hok
  obtain ⟨hdvd, hend, hlt⟩ := unmap_range hok
  rw [unmapEnd, if_pos (Nat.mod_eq_zero_of_dvd hdvd)]
  generalize (addr + alignUp len pageSize) % 2 ^ 64 = stop at hend hlt
  rcases hr : m.kmemCacheAlloc with ⟨split, m₁⟩
  rw [hr] at hk
  have hk : Released tabs refs m m₁ mm mm := hk.released rfl rfl rfl
  obtain ⟨vs, upper, m₂, mm₂, hu, hk₂⟩ := unmapLoop_runs split hlt hs.list hk.ledger
  have hcut := unmapLoop_cut hdvd hend hlt hs.list hu
  have hk₂ := hk.trans hk₂
  have hget : ∀ va < 2 ^ 47, mm₂.pml4.get va = if addr ≤ va ∧ va < stop then none else mm.pml4.get va := by
    intro va hva
    rw [hcut.get va hva]
    by_cases hin : addr ≤ va ∧ va < stop
    · rw [if_pos hin]
      split
      · rfl
      · rename_i hno
        rw [← Option.not_isSome_iff_eq_none]
        exact fun hsome => hno ⟨hs.covered va hva hsome, hin⟩
    · rw [if_neg hin, if_neg fun hc => hin hc.2]
  have hareas : ∀ {m' mm'}, Kept (tabs + tableCount 4 mm₂.pml4) (refs + frameCount 4 mm₂.pml4) m₂ m' →
      mm'.pml4 = mm₂.pml4 → mm'.active = mm₂.active → mm'.tlb = mm₂.tlb →
      Served addr stop tabs refs m m' mm mm' := by
    intro m' mm' hm ht ha hb
    exact (hk₂.trans (hm.released ht ha hb)).served fun va hva => by rw [ht, hget va hva]
  simp only [hu]
  cases upper with
  | some u => exact ⟨true, m₂, _, rfl, hareas (.refl hk₂.ledger) rfl rfl rfl⟩
  | none =>
    cases split with
    | false => exact ⟨true, m₂, _, rfl, hareas (.refl hk₂.ledger) rfl rfl rfl⟩
    | true =>
      obtain ⟨m₃, hm₃, hk₃⟩ := kmemCacheFree_kept hk₂.ledger
      simp only [if_true, hm₃]
      exact ⟨true, m₃, _, rfl, hareas hk₃ rfl rfl rfl⟩

lemma mmSbrk_runs (inc : ℤ) (hs : Sound mm) (h : SpaceLedger tabs refs m mm.pml4) :
    ∃ r m' mm', mmSbrk m mm inc = .ok (r, m', mm') ∧
      Served (sbrkCut mm inc).1 (sbrkCut mm inc).2 tabs refs m m' mm mm' := by
  have hsame : ∀ {mm' : Mm} {lo hi : ℕ}, mm'.pml4 = mm.pml4 → mm'.active = mm.active → mm'.tlb = mm.tlb →
      hi ≤ lo → Served lo hi tabs refs m m mm mm' := fun ht ha hb =>
    (((Kept.refl h).released ht ha hb).unchanged fun va _ => by rw [ht]).empty
  rw [mmSbrk, sbrkCut]
  simp only
  rcases hheap : findHeap mm.vmas with _ | ⟨before, heap, after⟩ <;> simp only
  · exact ⟨none, m, mm, rfl, hsame rfl rfl rfl le_rfl⟩
  have hlist := hs.list
  rw [findHeap_eq hheap] at hlist
  have hv := hlist.shape heap (by simp)
  have hend : userSpaceEnd ≤ 2 ^ 47 := by decide
  by_cases hbad : (0 < inc ∧ newBrk mm.brk inc < mm.brk) ∨ (inc < 0 ∧ newBrk mm.brk inc < mm.brkStart) ∨
    mmapTop < newBrk mm.brk inc
  · simp only [if_pos hbad]
    exact ⟨none, m, mm, rfl, hsame rfl rfl rfl le_rfl⟩
  simp only [if_neg hbad]
  have halign : pageSize ∣ max (alignUp (newBrk mm.brk inc) pageSize) (heap.start + pageSize) :=
    max_rec' (pageSize ∣ ·) (dvd_alignUp _) ((Nat.dvd_add_left dvd_rfl).2 hv.alignedStart)
  generalize max (alignUp (newBrk mm.brk inc) pageSize) (heap.start + pageSize) = newEnd at halign
  split
  · rename_i hgrow
    split
    · exact ⟨none, m, mm, rfl, hsame rfl rfl rfl hgrow.le⟩
    · exact ⟨_, m, _, rfl, hsame rfl rfl rfl hgrow.le⟩
  split
  · rename_i hshrink
    obtain ⟨m₁, mm₁, hu, hk⟩ := unmapRange_runs h hshrink.le hv.high
    have hun := unmapRange_unmapped hu halign hv.alignedStop hshrink.le (hv.high.trans hend)
    simp only [hu]
    refine ⟨_, m₁, _, rfl,
      Released.served (hk.trans (Kept.released (.refl hk.ledger) ?_ ?_ ?_)) hun.get⟩ <;> rfl
  · rename_i hstay
    exact ⟨_, m, _, rfl, hsame rfl rfl rfl (not_lt.1 hstay)⟩

end Unmap

end MyOS.Memory
