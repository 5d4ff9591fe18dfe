import MyOS.Memory.VmaRuns

/-! The heap of a program: one area from `brk_start` to the page-rounded break, which only
`mm_sbrk` moves. -/

namespace MyOS.Memory

open Library Library.Radix

def heapFlags : ℕ := vmaHeap ||| vmaAnon

def heapAreas (vmas : List Vma) : List Vma := vmas.filter fun v => v.has vmaHeap

def heapEnd (brkStart brk : ℕ) : ℕ := max (alignUp brk pageSize) (brkStart + pageSize)

def heapArea (brkStart brk : ℕ) : Vma :=
  { start := brkStart, stop := heapEnd brkStart brk, prot := protRead ||| protWrite,
    flags := heapFlags }

structure HasHeap (mm : Mm) : Prop where
  area : heapAreas mm.vmas = [heapArea mm.brkStart mm.brk]
  low : mm.brkStart ≤ mm.brk
  high : mm.brk ≤ mmapTop

section Areas

variable {vs vs' before after : List Vma} {nv heap : Vma}

lemma heapArea_has (brkStart brk : ℕ) : (heapArea brkStart brk).has vmaHeap = true := by
  have hbit : heapFlags &&& vmaHeap ≠ 0 := by decide
  exact bne_iff_ne.2 hbit

lemma heapAreas_append : heapAreas (vs ++ vs') = heapAreas vs ++ heapAreas vs' :=
  List.filter_append ..

lemma heapAreas_cons_of_has {v : Vma} (h : v.has vmaHeap = true) :
    heapAreas (v :: vs) = v :: heapAreas vs :=
  List.filter_cons_of_pos (by simpa using h)

lemma heapAreas_cons_of_not {v : Vma} (h : v.has vmaHeap = false) :
    heapAreas (v :: vs) = heapAreas vs :=
  List.filter_cons_of_neg (by simp [h])

lemma heapAreas_eq_nil : heapAreas vs = [] ↔ ∀ v ∈ vs, v.has vmaHeap = false := by
  simp [heapAreas, List.filter_eq_nil_iff]

lemma heapAreas_insertVma (h : nv.has vmaHeap = false) : heapAreas (insertVma vs nv) = heapAreas vs := by
  induction vs with
  | nil => exact heapAreas_cons_of_not h
  | cons v vs ih =>
    rw [insertVma]
    split
    · exact heapAreas_cons_of_not h
    · cases hv : v.has vmaHeap with
      | true => rw [heapAreas_cons_of_has hv, heapAreas_cons_of_has hv, ih]
      | false => rw [heapAreas_cons_of_not hv, heapAreas_cons_of_not hv, ih]

lemma heapAreas_insertVma_heap (hnone : heapAreas vs = []) (h : nv.has vmaHeap = true) :
    heapAreas (insertVma vs nv) = [nv] := by
  induction vs with
  | nil => exact heapAreas_cons_of_has h
  | cons v vs ih =>
    have hv := heapAreas_eq_nil.1 hnone v List.mem_cons_self
    rw [heapAreas_cons_of_not hv] at hnone
    rw [insertVma]
    split
    · rw [heapAreas_cons_of_has h, heapAreas_cons_of_not hv, hnone]
    · exact (heapAreas_cons_of_not hv).trans (ih hnone)

lemma findHeap_none (h : findHeap vs = none) : heapAreas vs = [] := by
  induction vs with
  | nil => rfl
  | cons v vs ih =>
    rw [findHeap] at h
    split at h
    · cases h
    · rename_i hr
      split at h
      · cases h
      · rename_i hv
        exact (heapAreas_cons_of_not (Bool.eq_false_of_not_eq_true hv)).trans (ih hr)

lemma findHeap_has (h : findHeap vs = some (before, heap, after)) : heap.has vmaHeap = true := by
  induction vs generalizing before with
  | nil => cases h
  | cons v vs ih =>
    rw [findHeap] at h
    split at h
    · rename_i hr
      cases h
      exact ih hr
    · split at h
      · rename_i hv
        cases h
        exact hv
      · cases h

lemma heapAreas_split {v : Vma} (h : heapAreas (before ++ heap :: after) = [v])
    (hh : heap.has vmaHeap = true) : heap = v ∧ heapAreas before = [] ∧ heapAreas after = [] := by
  rw [heapAreas_append, heapAreas_cons_of_has hh] at h
  obtain ⟨hb, hv⟩ | ⟨b, -, hn⟩ := List.append_eq_cons_iff.1 h
  · obtain ⟨rfl, ha⟩ := List.cons.inj hv
    exact ⟨rfl, hb, ha⟩
  · exact absurd hn (by simp)

end Areas

def byteAt (m : Machine) (mm : Mm) (va : ℕ) : Option UInt8 :=
  (mm.pml4.get va).map fun pte => m.pmm.mem (pte.target va)

structure HeapMoved (mm mm' : Mm) (before after : List Vma) (heap : Vma) : Prop where
  was : mm.vmas = before ++ heap :: after
  now : mm'.vmas = before ++ { heap with stop := heapEnd mm'.brkStart mm'.brk } :: after
  isHeap : heap.has vmaHeap = true
  only : heapAreas (before ++ after) = []
  start : heap.start = mm'.brkStart
  covers : mm'.brk ≤ heapEnd mm'.brkStart mm'.brk
  absent : ∀ va, heap.start ≤ va → va < max heap.stop (heapEnd mm'.brkStart mm'.brk) →
    (mm'.pml4.get va).isSome = true → va < heapEnd mm'.brkStart mm'.brk

/-- What a call of `mm_sbrk` does; `none` is `(uint64_t)-1`. -/
structure MovesBreak (m m' : Machine) (mm mm' : Mm) (inc : ℤ) (r : Option ℕ) : Prop where
  refused : r = none → m' = m ∧ mm' = mm
  returned : ∀ old ∈ r, old = mm.brk ∧ (mm'.brk : ℤ) = mm.brk + inc ∧
    mm.brkStart ≤ mm'.brk ∧ mm'.brk ≤ mmapTop
  brkStart : mm'.brkStart = mm.brkStart
  areas : ∃ before after heap, HeapMoved mm mm' before after heap
  bytes : ∀ va, va < mm.brk → va < mm'.brk → byteAt m' mm' va = byteAt m mm va

section Memory

variable {s t : Pmm}

lemma coalesce_mem (n : ℕ) (s : Pmm) (z : ZoneId) (p o : ℕ) : (s.coalesce n z p o).mem = s.mem := by
  induction n generalizing s p o with
  | zero => rfl
  | succ n ih =>
    rw [Pmm.coalesce]
    split
    · exact ih _ _ _
    · rfl

lemma freePages_mem {p o : ℕ} (h : s.freePages p o = .ok t) : t.mem = s.mem := by
  rw [Pmm.freePages] at h
  split_ifs at h
  cases h
  exact coalesce_mem _ _ _ _ _

lemma dropMapping_mem {p : ℕ} (h : s.dropMapping p = .ok t) : t.mem = s.mem := by
  rw [Pmm.dropMapping] at h
  have hput : ∀ {u : Pmm}, u.putPage p = .ok t → t.mem = u.mem := by
    intro u hu
    rw [Pmm.putPage] at hu
    split_ifs at hu
    · exact (freePages_mem hu).trans rfl
    · rw [← Except.ok.inj hu]
      rfl
  rw [hput h]
  split <;> rfl

lemma prunePageTable_mem {l2 l2' : Tree Pte 2} {i : ℕ} {freed : Bool}
    (h : s.prunePageTable l2 i = .ok (t, l2', freed)) : t.mem = s.mem := by
  rw [Pmm.prunePageTable] at h
  split at h
  · cases h
    rfl
  · split at h
    · split at h
      · cases h
      · rename_i hf
        cases h
        exact freePages_mem hf
    · cases h
      rfl

lemma pruneStep_mem {l4 l4' : Pml4} {va next : ℕ} {freed : Bool}
    (h : s.pruneStep l4 va = .ok (t, l4', next, freed)) : t.mem = s.mem := by
  rw [Pmm.pruneStep] at h
  simp only at h
  split at h
  · cases h
    rfl
  split at h
  · cases h
    rfl
  split at h
  · cases h
  rename_i hp
  have h₁ := prunePageTable_mem hp
  split at h
  · split at h
    · cases h
    rename_i hf₂
    have h₂ := (freePages_mem hf₂).trans h₁
    split at h
    · split at h
      · cases h
      · rename_i hf₃
        cases h
        exact (freePages_mem hf₃).trans h₂
    · cases h
      exact h₂
  · cases h
    exact h₁

lemma pruneLoop_mem {n : ℕ} {l4 l4' : Pml4} {va stop : ℕ} {freed freed' : Bool}
    (h : s.pruneLoop n l4 va stop freed = .ok (t, l4', freed')) : t.mem = s.mem := by
  induction n generalizing s l4 va freed with
  | zero =>
    cases h
    rfl
  | succ n ih =>
    rw [Pmm.pruneLoop] at h
    split at h
    · split at h
      · cases h
      · rename_i hs
        exact (ih h).trans (pruneStep_mem hs)
    · cases h
      rfl

variable {m m' : Machine} {mm mm' : Mm}

lemma unmapPages_mem {n va : ℕ} (h : unmapPages n m mm va = .ok (m', mm')) :
    m'.pmm.mem = m.pmm.mem := by
  induction n generalizing m mm va with
  | zero =>
    cases h
    rfl
  | succ n ih =>
    rw [unmapPages] at h
    split at h
    · exact ih h
    · split at h
      · exact ih h
      · split at h
        · cases h
        · rename_i hd
          exact (ih h).trans (dropMapping_mem hd)

lemma unmapRange_mem {start stop : ℕ} (h : unmapRange m mm start stop = .ok (m', mm')) :
    m'.pmm.mem = m.pmm.mem := by
  obtain ⟨m₁, mm₁, s, t, freed, hu, hp, hr⟩ := unmapRange_ok.1 h
  cases hr
  exact (pruneLoop_mem hp).trans (unmapPages_mem hu)

end Memory

section Sbrk

variable {m m' : Machine} {mm mm' : Mm} {inc : ℤ} {r : Option ℕ}

lemma newBrk_eq {brk : ℕ} (hinc : -2 ^ 63 ≤ inc ∧ inc < 2 ^ 63) (hbrk : brk ≤ mmapTop)
    (hnew : newBrk brk inc ≤ mmapTop) : (newBrk brk inc : ℤ) = brk + inc := by
  have htop : mmapTop < 2 ^ 47 := by decide
  rw [newBrk] at hnew ⊢
  omega

lemma le_heapEnd {brkStart brk : ℕ} (h : brk ≤ mmapTop) : brk ≤ heapEnd brkStart brk := by
  have htop : mmapTop + 2 ^ 12 - 1 < 2 ^ 64 := by decide
  exact ((alignUp_spec (k := 12) (by decide) (by omega)).2).trans (le_max_left _ _)

lemma heapEnd_le {brkStart brk bound : ℕ} (hb : pageSize ∣ bound) (hlt : bound < 2 ^ 63)
    (hbrk : brk ≤ bound) (hstart : brkStart + pageSize ≤ bound) : heapEnd brkStart brk ≤ bound :=
  max_le (alignUp_le hbrk hb hlt) hstart

lemma dvd_heapEnd {brkStart brk : ℕ} (h : pageSize ∣ brkStart) : pageSize ∣ heapEnd brkStart brk :=
  max_rec' (pageSize ∣ ·) (dvd_alignUp _) ((Nat.dvd_add_left dvd_rfl).2 h)

lemma movesBreak_some {before after : List Vma} {heap : Vma} {brk : ℕ} (hs : Sound mm)
    (hh : HasHeap mm) (hlist : mm.vmas = before ++ heap :: after) (hhas : heap.has vmaHeap = true)
    (hbrk : (brk : ℤ) = mm.brk + inc) (hlow : mm.brkStart ≤ brk) (hhigh : brk ≤ mmapTop)
    (hmem : m'.pmm.mem = m.pmm.mem) (hun : Unmapped mm mm' (heapEnd mm.brkStart brk) heap.stop) :
    let mm₁ := { mm' with
      vmas := before ++ { heap with stop := heapEnd mm.brkStart brk } :: after, brk := brk }
    MovesBreak m m' mm mm₁ inc (some mm.brk) ∧ HasHeap mm₁ := by
  have harea := hh.area
  rw [hlist] at harea
  obtain ⟨hheap, hb, ha⟩ := heapAreas_split harea hhas
  have hshape := hs.list.shape heap (by simp [hlist])
  have hstart : heap.start = mm.brkStart := congrArg Vma.start hheap
  have hstop : heap.stop = heapEnd mm.brkStart mm.brk := congrArg Vma.stop hheap
  have hsame := hun.areas.brkStart
  have htop : mmapTop < 2 ^ 47 ∧ userSpaceEnd ≤ 2 ^ 47 := by decide
  have hfirst : mm.brkStart + pageSize ≤ 2 ^ 47 :=
    ((le_max_right _ _).trans hstop.ge).trans (hshape.high.trans htop.2)
  have hend : heapEnd mm.brkStart brk ≤ 2 ^ 47 :=
    heapEnd_le (by decide) (by decide) (hhigh.trans htop.1.le) hfirst
  intro mm₁
  have hmoved : HeapMoved mm mm₁ before after heap := by
    refine ⟨hlist, ?_, hhas, ?_, hstart.trans hsame.symm, le_heapEnd hhigh, fun va _ hva hg => ?_⟩
    · rw [show mm₁.brkStart = mm.brkStart from hsame]
    · rw [heapAreas_append, hb, ha, List.append_nil]
    · rw [show heapEnd mm₁.brkStart mm₁.brk = heapEnd mm.brkStart brk by rw [← hsame]] at hva ⊢
      have hup := hshape.high
      rw [show mm₁.pml4.get va = _ from hun.get va (by omega)] at hg
      split at hg
      · cases hg
      · omega
  refine ⟨⟨by simp, ?_, hsame, ⟨before, after, heap, hmoved⟩, fun va hva hva' => ?_⟩, ?_, ?_, hhigh⟩
  · rintro old ⟨⟩
    exact ⟨rfl, hbrk, hlow, hhigh⟩
  · have hin : va < heapEnd mm.brkStart brk := hva'.trans_le (le_heapEnd hhigh)
    rw [byteAt, byteAt, show mm₁.pml4.get va = _ from hun.get va (by omega), if_neg (by omega), hmem]
  · have hnow : ({ heap with stop := heapEnd mm₁.brkStart mm₁.brk } : Vma).has vmaHeap = true := hhas
    rw [hmoved.now, heapAreas_append, hb, heapAreas_cons_of_has hnow, ha, hheap,
      show mm₁.brkStart = mm.brkStart from hsame]
    rfl
  · exact (show mm₁.brkStart = mm.brkStart from hsame).trans_le hlow

lemma mmSbrk_movesBreak (hs : Sound mm) (hh : HasHeap mm) (hinc : -2 ^ 63 ≤ inc ∧ inc < 2 ^ 63)
    (h : mmSbrk m mm inc = .ok (r, m', mm')) : MovesBreak m m' mm mm' inc r ∧ HasHeap mm' := by
  rw [mmSbrk] at h
  simp only at h
  rcases hf : findHeap mm.vmas with _ | ⟨before, heap, after⟩
  · -- there is a heap area
    have hnone := findHeap_none hf
    rw [hh.area] at hnone
    cases hnone
  have hlist := findHeap_eq hf
  have harea := hh.area
  have hhas := findHeap_has hf
  rw [hlist] at harea
  obtain ⟨hheap, hb, ha⟩ := heapAreas_split harea hhas
  have hshape := hs.list.shape heap (by simp [hlist])
  have hstart : heap.start = mm.brkStart := congrArg Vma.start hheap
  have hstop : heap.stop = heapEnd mm.brkStart mm.brk := congrArg Vma.stop hheap
  have hrefused : MovesBreak m m mm mm inc none ∧ HasHeap mm := by
    refine ⟨⟨fun _ => ⟨rfl, rfl⟩, by simp, rfl, ⟨before, after, heap, hlist, ?_, hhas, ?_, hstart,
      le_heapEnd hh.high, fun va _ hva _ => ?_⟩, fun _ _ _ => rfl⟩, hh⟩
    · rw [← hstop]
      exact hlist
    · rw [heapAreas_append, hb, ha, List.append_nil]
    · rw [← hstop, max_self] at *
      exact hva
  simp only [hf] at h
  split at h
  · cases h
    exact hrefused
  rename_i hok
  push Not at hok
  obtain ⟨-, hdown, htop⟩ := hok
  have hbrk := newBrk_eq hinc hh.high htop
  have hlow : mm.brkStart ≤ newBrk mm.brk inc := by
    rcases lt_or_ge inc 0 with hneg | hpos
    · exact hdown hneg
    · have := hh.low
      omega
  generalize newBrk mm.brk inc = brk at *
  rw [show max (alignUp brk pageSize) (heap.start + pageSize) = heapEnd mm.brkStart brk by
    rw [hstart]; rfl] at h
  have hkept : heap.stop ≤ heapEnd mm.brkStart brk →
      Unmapped mm mm (heapEnd mm.brkStart brk) heap.stop := fun hle =>
    ⟨.refl mm, fun wa _ => (if_neg (by omega)).symm⟩
  split at h
  · rename_i hgrow
    split at h
    · cases h
      exact hrefused
    · cases h
      exact movesBreak_some hs hh hlist hhas hbrk hlow htop rfl (hkept hgrow.le)
  · rename_i hgrow
    split at h
    · rename_i hshrink
      split at h
      · cases h
      rename_i hu
      cases h
      have hend : pageSize ∣ heapEnd mm.brkStart brk :=
        dvd_heapEnd (hstart ▸ hshape.alignedStart)
      have hbound : userSpaceEnd ≤ 2 ^ 47 := by decide
      have hun := unmapRange_unmapped hu hend hshape.alignedStop (le_of_lt hshrink)
        (hshape.high.trans hbound)
      rw [hun.areas.brk]
      exact movesBreak_some hs hh hlist hhas hbrk hlow htop (unmapRange_mem hu) hun
    · rename_i hshrink
      cases h
      have heq : heapEnd mm.brkStart brk = heap.stop := le_antisymm (not_lt.1 hgrow) (not_lt.1 hshrink)
      have hmem : m.pmm.mem = m.pmm.mem := rfl
      have hsome := movesBreak_some hs hh hlist hhas hbrk hlow htop hmem (hkept heq.ge)
      rw [heq] at hsome
      simpa only [← hlist] using hsome

end Sbrk

end MyOS.Memory
