import MyOS.Memory.Sbrk

/-! The heap of every program, from `load_image` on, whatever is mapped, unmapped, faulted in or
forked around it. -/

namespace MyOS.Memory

open Library Library.Radix

structure SameHeap (mm mm' : Mm) : Prop where
  area : heapAreas mm'.vmas = heapAreas mm.vmas
  brkStart : mm'.brkStart = mm.brkStart
  brk : mm'.brk = mm.brk

def NoHeapStack (mm : Mm) : Prop := ∀ v ∈ heapAreas mm.vmas, v.has vmaStack = false

section Relations

variable {mm mm₁ mm' : Mm}

lemma SameHeap.refl (mm : Mm) : SameHeap mm mm := ⟨rfl, rfl, rfl⟩

lemma SameHeap.trans (h : SameHeap mm mm₁) (k : SameHeap mm₁ mm') : SameHeap mm mm' :=
  ⟨k.area.trans h.area, k.brkStart.trans h.brkStart, k.brk.trans h.brk⟩

lemma SameAreas.sameHeap (h : SameAreas mm mm') : SameHeap mm mm' :=
  ⟨congrArg heapAreas h.vmas, h.brkStart, h.brk⟩

lemma SameHeap.hasHeap (h : SameHeap mm mm') (hh : HasHeap mm) : HasHeap mm' where
  area := by rw [h.area, h.brkStart, h.brk, hh.area]
  low := by rw [h.brkStart, h.brk]; exact hh.low
  high := h.brk.trans_le hh.high

lemma SameHeap.noHeapStack (h : SameHeap mm mm') (hn : NoHeapStack mm) : NoHeapStack mm' := by
  rw [NoHeapStack, h.area]
  exact hn

lemma HasHeap.noHeapStack (h : HasHeap mm) : NoHeapStack mm := by
  rw [NoHeapStack, h.area]
  have hbit : heapFlags &&& vmaStack = 0 := by decide
  intro v hv
  obtain rfl := List.mem_singleton.1 hv
  exact bne_eq_false_iff_eq.2 hbit

end Relations

section Calls

variable {m m' : Machine} {mm mm' : Mm}

lemma mmMap_cases {addr len prot flags r : ℕ} (h : mmMap m mm addr len prot flags = .ok (r, m', mm')) :
    (r = 0 ∧ mm' = mm) ∨ ∃ start stop, r = start ∧ (addr ≠ 0 → start = addr) ∧
      stop = (start + alignUp len pageSize) % 2 ^ 64 ∧
      mm' = { mm with vmas := insertVma mm.vmas ⟨start, stop, prot, flags⟩ } := by
  rw [mmMap] at h
  simp only at h
  split at h
  · cases h
    exact .inl ⟨rfl, rfl⟩
  split at h
  · cases h
    exact .inl ⟨rfl, rfl⟩
  have hstart : addr ≠ 0 →
      (if addr = 0 then findFreeArea mm.vmas (alignUp len pageSize) else addr) = addr :=
    fun ha => if_neg ha
  generalize (if addr = 0 then findFreeArea mm.vmas (alignUp len pageSize) else addr) = start
    at h hstart
  split at h
  · split at h
    · cases h
    · cases h
      exact .inl ⟨rfl, rfl⟩
  · cases h
    exact .inr ⟨_, _, rfl, hstart, rfl, rfl⟩

lemma mmMap_sameHeap {addr len prot flags r : ℕ} (hf : flags &&& vmaHeap = 0)
    (h : mmMap m mm addr len prot flags = .ok (r, m', mm')) : SameHeap mm mm' := by
  obtain ⟨-, rfl⟩ | ⟨start, stop, -, -, -, rfl⟩ := mmMap_cases h
  · exact .refl _
  · exact ⟨heapAreas_insertVma (bne_eq_false_iff_eq.2 hf), rfl, rfl⟩

lemma growStack_stack {addr : ℕ} {prev : Option Vma} {vs vs' : List Vma} {u : Vma}
    (h : growStack addr prev vs = some (u, vs')) : u.has vmaStack = true := by
  induction vs generalizing prev vs' with
  | nil => cases h
  | cons v vs ih =>
    rw [growStack] at h
    split at h
    · split at h
      · cases h
      · rename_i hr
        cases h
        exact ih hr
    · rename_i hc
      push Not at hc
      split at h
      · cases h
      · simp only at h
        split at h
        · cases h
        · cases h
          exact Bool.eq_true_of_not_eq_false hc.1

lemma vmaFor_sameHeap {addr : ℕ} {v : Vma} (hn : NoHeapStack mm) (h : vmaFor mm addr = some (v, mm')) :
    SameHeap mm mm' := by
  rw [vmaFor] at h
  split at h
  · cases h
    exact .refl _
  · split at h
    · cases h
    rename_i hg
    cases h
    have hstack := growStack_stack hg
    obtain ⟨before, u, after, heq, rfl, rfl, -⟩ := growStack_cases hg
    refine ⟨?_, rfl, rfl⟩
    have hu : u.has vmaHeap = false := by
      by_contra hh
      have hmem : u ∈ heapAreas mm.vmas :=
        List.mem_filter.2 ⟨by simp [heq], Bool.eq_true_of_not_eq_false hh⟩
      exact Bool.false_ne_true ((hn u hmem).symm.trans hstack)
    rw [heq, heapAreas_append, heapAreas_append, heapAreas_cons_of_not hu]
    exact congrArg (heapAreas before ++ ·) (heapAreas_cons_of_not hu)

lemma faultPage_areas {v : Vma} {page : ℕ} {write ok : Bool}
    (h : faultPage m mm v page write = .ok (ok, m', mm')) : SameAreas mm mm' := by
  rw [faultPage] at h
  rcases m.pmm.walkCreate 3 mm.pml4 (page / pageSize) with ⟨walked, s, t⟩
  have hput : ∀ t : Pml4, SameAreas mm { mm with pml4 := t } := fun _ => ⟨rfl, rfl, rfl, rfl⟩
  simp only at h
  split at h
  · cases h
    exact hput _
  split at h
  · split at h <;>
    · cases h
      exact hput _
  · split at h
    · rw [breakCow] at h
      split at h
      · cases h
        exact (hput _).trans (sameAreas_flushPage _ _)
      · split at h
        · cases h
          exact hput _
        · split at h
          · cases h
          · cases h
            exact (hput _).trans (sameAreas_flushPage _ _)
    · cases h
      exact hput _

lemma mmHandleFault_sameHeap {addr err : ℕ} {ok : Bool} (hn : NoHeapStack mm)
    (h : mmHandleFault m mm addr err = .ok (ok, m', mm')) : SameHeap mm mm' := by
  rw [mmHandleFault] at h
  split at h
  · cases h
    exact .refl _
  split at h
  · cases h
    exact .refl _
  rename_i hf
  have hsame := vmaFor_sameHeap hn hf
  split at h
  · cases h
    exact hsame
  · exact hsame.trans (faultPage_areas h).sameHeap

lemma prefaultPages_sameHeap {n page : ℕ} {write ok : Bool} (hn : NoHeapStack mm)
    (h : prefaultPages write n m mm page = .ok (ok, m', mm')) : SameHeap mm mm' := by
  induction n generalizing m mm page with
  | zero =>
    cases h
    exact .refl _
  | succ n ih =>
    rw [prefaultPages] at h
    split at h
    · cases h
      exact .refl _
    rename_i hf
    have hsame := vmaFor_sameHeap hn hf
    split at h
    · cases h
      exact hsame
    split at h
    · cases h
    · rename_i hp
      cases h
      exact hsame.trans (faultPage_areas hp).sameHeap
    · rename_i hp
      have hstep := hsame.trans (faultPage_areas hp).sameHeap
      exact hstep.trans (ih (hstep.noHeapStack hn) h)

lemma mmPrefault_sameHeap {addr len : ℕ} {write ok : Bool} (hn : NoHeapStack mm)
    (h : mmPrefault m mm addr len write = .ok (ok, m', mm')) : SameHeap mm mm' := by
  rw [mmPrefault] at h
  simp only at h
  split at h
  · cases h
    exact .refl _
  split at h
  · cases h
    exact .refl _
  · exact prefaultPages_sameHeap hn h

def OutsideHeap (mm : Mm) (addr len : ℕ) : Prop :=
  ∀ v ∈ heapAreas mm.vmas, addr + alignUp len pageSize ≤ v.start ∨ v.stop ≤ addr

lemma cutVma_flags {v w : Vma} {cutStart cutEnd : ℕ} {split : Bool}
    (hw : w ∈ (cutVma v cutStart cutEnd split).1 ∨ w ∈ (cutVma v cutStart cutEnd split).2) :
    w.flags = v.flags := by
  rw [cutVma] at hw
  split_ifs at hw <;> simp only [Option.mem_def, Option.some.injEq, reduceCtorEq, or_false] at hw
  · rw [← hw]
  · rw [← hw]
  · rcases hw with rfl | rfl <;> rfl
  · rw [← hw]

lemma unmapLoop_heapAreas {addr stop : ℕ} {vs vs' : List Vma} {upper : Option Vma} {split : Bool}
    (hout : ∀ v ∈ heapAreas vs, stop ≤ v.start ∨ v.stop ≤ addr)
    (h : unmapLoop addr stop vs split m mm = .ok (vs', upper, m', mm')) :
    heapAreas vs' = heapAreas vs ∧ ∀ u ∈ upper, u.has vmaHeap = false := by
  induction vs generalizing m mm vs' upper split with
  | nil =>
    cases h
    exact ⟨rfl, by simp⟩
  | cons v vs ih =>
    have hrest : ∀ w ∈ heapAreas vs, stop ≤ w.start ∨ w.stop ≤ addr := fun w hw =>
      hout w (List.mem_filter.2 ⟨List.mem_cons_of_mem _ (List.mem_filter.1 hw).1,
        (List.mem_filter.1 hw).2⟩)
    rw [unmapLoop] at h
    split at h
    · split at h
      · cases h
      · rename_i hr
        cases h
        obtain ⟨hvs, hu⟩ := ih hrest hr
        refine ⟨?_, hu⟩
        rw [heapAreas, heapAreas, List.filter_cons, List.filter_cons]
        rw [heapAreas, heapAreas] at hvs
        rw [hvs]
    · rename_i hin
      -- the area is cut, so it is no heap area
      have hv : v.has vmaHeap = false := by
        by_contra hh
        have hmem : v ∈ heapAreas (v :: vs) :=
          List.mem_filter.2 ⟨List.mem_cons_self, Bool.eq_true_of_not_eq_false hh⟩
        exact hin (hout v hmem)
      rw [heapAreas_cons_of_not hv]
      have hpart : ∀ {w : Vma}, w.flags = v.flags → w.has vmaHeap = false := fun hw => by
        rw [Vma.has, hw]
        exact hv
      simp only at h
      split at h
      · cases h
      split at h
      · split at h
        · cases h
        · exact ih hrest h
      · rename_i hc
        split at h
        · cases h
        · rename_i hr
          cases h
          obtain ⟨hvs, hu⟩ := ih hrest hr
          have hw := hpart (cutVma_flags (.inl (congrArg Prod.fst hc)))
          exact ⟨(heapAreas_cons_of_not hw).trans hvs, hu⟩
      · rename_i hc
        split at h
        · cases h
        · rename_i hr
          cases h
          obtain ⟨hvs, -⟩ := ih hrest hr
          have hw := hpart (cutVma_flags (.inl (congrArg Prod.fst hc)))
          refine ⟨(heapAreas_cons_of_not hw).trans hvs, fun u hu => ?_⟩
          cases hu
          exact hpart (cutVma_flags (.inr (congrArg Prod.snd hc)))

lemma mmUnmap_sameHeap {addr len : ℕ} {ok : Bool} (hs : Sound mm) (hout : OutsideHeap mm addr len)
    (h : mmUnmap m mm addr len = .ok (ok, m', mm')) : SameHeap mm mm' := by
  rw [mmUnmap] at h
  have hsmall := alignUp_lt len
  have hdvd := dvd_alignUp len
  rw [OutsideHeap] at hout
  simp only at h
  generalize alignUp len pageSize = len at h hsmall hdvd hout
  split at h
  · cases h
    exact .refl _
  rename_i hok
  push Not at hok
  obtain ⟨hal, hlen, hwrap⟩ := hok
  rw [show (addr + len) % 2 ^ 64 = addr + len by omega] at h
  have hal' : pageSize ∣ addr := Nat.dvd_of_mod_eq_zero hal
  have hend : pageSize ∣ addr + len := (Nat.dvd_add_right hal').2 hdvd
  have hlt : addr < addr + len := by omega
  split at h
  · cases h
  · rename_i hu
    cases h
    obtain ⟨hvs, hupper⟩ := unmapLoop_heapAreas hout hu
    have hareas := (unmapLoop_cut hal' hend hlt hs.list hu).areas
    exact ⟨(heapAreas_insertVma (hupper _ rfl)).trans hvs, hareas.brkStart, hareas.brk⟩
  · rename_i hu
    obtain ⟨hvs, -⟩ := unmapLoop_heapAreas hout hu
    have hareas := (unmapLoop_cut hal' hend hlt hs.list hu).areas
    split at h
    · cases h
    · cases h
      exact ⟨hvs, hareas.brkStart, hareas.brk⟩

end Calls

section Fork

variable {m m' : Machine} {parent parent' : Mm} {child : Option Mm}

lemma mmFork_sameHeap (h : mmFork m parent = .ok (m', parent', child)) :
    SameHeap parent parent' ∧ ∀ c ∈ child, SameHeap parent c := by
  rw [mmFork] at h
  split at h
  · cases h
  · cases h
    exact ⟨.refl _, by simp⟩
  rename_i child₀ m₁ hc
  rcases hv : copyVmas parent.vmas m₁ with ⟨ok, vmas, m₂⟩
  simp only [hv] at h
  split at h
  · cases h
  rename_i ok₁ s parentTables childTables hcopy
  have htables : SameHeap parent { parent with pml4 := parentTables } := ⟨rfl, rfl, rfl⟩
  have hparent := htables.trans (sameAreas_flushAll _).sameHeap
  split at h
  · cases h
    refine ⟨hparent, fun c hc => ?_⟩
    cases hc
    -- a child is only made when all areas were copied
    cases ok with
    | false =>
      cases hcopy
      rename_i hok
      cases hok
    | true => exact ⟨congrArg heapAreas (copyVmas_eq hv), rfl, rfl⟩
  · split at h
    · cases h
    · cases h
      exact ⟨hparent, by simp⟩

end Fork

section Load

variable {m m' : Machine} {mm mm' : Mm} {ok : Bool}

structure NoHeap (mm : Mm) : Prop where
  area : heapAreas mm.vmas = []

lemma NoHeap.noHeapStack (h : NoHeap mm) : NoHeapStack mm := by
  rw [NoHeapStack, h.area]
  simp

lemma SameHeap.noHeap (h : SameHeap mm mm') (hn : NoHeap mm) : NoHeap mm' := ⟨h.area.trans hn.area⟩

lemma loadSegment_noHeap {g : Segment} (hn : NoHeap mm)
    (h : loadSegment m mm g = .ok (ok, m', mm')) : NoHeap mm' ∧ (ok = true → g.stop ≤ mmapTop) := by
  rw [loadSegment] at h
  simp only at h
  split at h
  · cases h
    exact ⟨hn, by simp⟩
  rename_i hok
  push Not at hok
  split at h
  · cases h
  rename_i hm
  have hn₁ := (mmMap_sameHeap (by decide) hm).noHeap hn
  split at h
  · cases h
    exact ⟨hn₁, by simp⟩
  split at h
  · cases h
    exact ⟨hn₁, fun _ => hok.2.2⟩
  · exact ⟨(mmPrefault_sameHeap hn₁.noHeapStack h).noHeap hn₁, fun _ => hok.2.2⟩

lemma elfLoad_noHeap {segments : List Segment} (hn : NoHeap mm)
    (h : elfLoad segments m mm = .ok (ok, m', mm')) :
    NoHeap mm' ∧ (ok = true → ∀ g ∈ segments, g.stop ≤ mmapTop) := by
  induction segments generalizing m mm with
  | nil =>
    cases h
    exact ⟨hn, by simp⟩
  | cons g rest ih =>
    rw [elfLoad] at h
    split at h
    · cases h
    · rename_i hg
      cases h
      exact ⟨(loadSegment_noHeap hn hg).1, by simp⟩
    · rename_i hg
      obtain ⟨hn₁, hstop⟩ := loadSegment_noHeap hn hg
      obtain ⟨hn₂, hrest⟩ := ih hn₁ h
      exact ⟨hn₂, fun hok => List.forall_mem_cons.2 ⟨hstop rfl, hrest hok⟩⟩

lemma foldl_max_bounds {l : List ℕ} {a bound : ℕ} (ha : a ≤ bound) (hl : ∀ x ∈ l, x ≤ bound) :
    a ≤ l.foldl max a ∧ l.foldl max a ≤ bound := by
  induction l generalizing a with
  | nil => exact ⟨le_rfl, ha⟩
  | cons x l ih =>
    obtain ⟨hx, hl⟩ := List.forall_mem_cons.1 hl
    obtain ⟨hlow, hhigh⟩ := ih (max_le ha hx) hl
    exact ⟨(le_max_left _ _).trans hlow, hhigh⟩

lemma mapHeapAndStack_hasHeap (hn : NoHeap mm) (hbrk : mm.brk = mm.brkStart)
    (hal : pageSize ∣ mm.brkStart) (hpos : mm.brkStart ≠ 0) (hhigh : mm.brkStart ≤ mmapTop)
    (h : mapHeapAndStack m mm = .ok (true, m', mm')) : HasHeap mm' := by
  have htop : mmapTop + pageSize < 2 ^ 63 := by decide
  have hfirst : heapEnd mm.brkStart mm.brkStart = mm.brkStart + pageSize :=
    max_eq_right ((alignUp_le le_rfl hal (by omega)).trans (Nat.le_add_right _ _))
  rw [mapHeapAndStack] at h
  split at h
  · cases h
  rename_i hm
  split at h
  · cases h
  rename_i hne
  have hh : ∀ {m₁ mm₁ r}, r ≠ 0 → mmMap m mm mm.brkStart pageSize (protRead ||| protWrite)
      (vmaHeap ||| vmaAnon) = .ok (r, m₁, mm₁) → HasHeap mm₁ := by
    intro m₁ mm₁ r hr hmap
    obtain ⟨hz, -⟩ | ⟨start, stop, -, hstart, hstop, rfl⟩ := mmMap_cases hmap
    · exact absurd hz hr
    obtain rfl := hstart hpos
    refine ⟨?_, hbrk.ge, hbrk.trans_le hhigh⟩
    have hlen : alignUp pageSize pageSize = pageSize := by decide
    rw [hlen, Nat.mod_eq_of_lt (by omega)] at hstop
    have hnew : (⟨mm.brkStart, stop, protRead ||| protWrite, vmaHeap ||| vmaAnon⟩ : Vma) =
        heapArea mm.brkStart mm.brk := by
      rw [heapArea, hbrk, hfirst, hstop]
      rfl
    simp only
    rw [hnew, heapAreas_insertVma_heap hn.area (heapArea_has _ _)]
  have hh₁ := hh hne hm
  split at h
  · cases h
  rename_i hm₂
  have hh₂ := (mmMap_sameHeap (by decide) hm₂).hasHeap hh₁
  split at h
  · cases h
  · exact (mmPrefault_sameHeap hh₂.noHeapStack h).hasHeap hh₂

lemma loadImage_hasHeap {segments : List Segment} {entry : ℕ}
    (h : loadImage m segments entry = .ok (some mm, m')) : HasHeap mm := by
  rw [loadImage] at h
  split at h
  · cases h
  · cases h
  rename_i mm₀ m₁ hc
  have hn₀ : NoHeap mm₀ := ⟨by rw [(mmCreate_sound hc).1]; rfl⟩
  split at h
  · cases h
  rename_i ok₁ m₂ mm₁ hl
  obtain ⟨hn₁, hstops⟩ := elfLoad_noHeap hn₀ hl
  simp only at h
  split at h
  · cases h
  · rename_i hlay
    cases h
    split at hlay
    · rename_i hok
      rw [Bool.and_eq_true] at hok
      have hsegs : ∀ x ∈ segments.map Segment.stop, x ≤ mmapTop := by
        intro x hx
        obtain ⟨g, hg, rfl⟩ := List.mem_map.1 hx
        exact hstops hok.1 g hg
      obtain ⟨hlow, hhigh⟩ := foldl_max_bounds (by decide : userSpaceStart ≤ mmapTop) hsegs
      generalize (segments.map Segment.stop).foldl max userSpaceStart = highest at *
      have htop : mmapTop + 2 ^ 12 - 1 < 2 ^ 64 := by decide
      have hup : highest ≤ alignUp highest pageSize := (alignUp_spec (k := 12) (by decide) (by omega)).2
      have hstart : 0 < userSpaceStart := by decide
      have hn₂ : NoHeap { mm₁ with
          brkStart := alignUp highest pageSize, brk := alignUp highest pageSize } := ⟨hn₁.area⟩
      have hpos : alignUp highest pageSize ≠ 0 := by omega
      exact mapHeapAndStack_hasHeap hn₂ rfl (dvd_alignUp _) hpos
        (alignUp_le hhigh (by decide) (by decide)) hlay
    · cases hlay
  · split at h <;> cases h

end Load

/-- Programs come from `load_image` and `fork`; `sys_mmap` maps no heap area, and the ranges that
are unmapped lie outside the heap. -/
def KeepsHeaps (w : World) : Action → Prop
  | .create _ _ => False
  | .call _ (.map _ _ _ flags) _ => flags &&& vmaHeap = 0
  | .call i (.unmap addr len) _ => OutsideHeap (w.mm i) addr len
  | .call _ (.sbrk inc) _ => -2 ^ 63 ≤ inc ∧ inc < 2 ^ 63
  | _ => True

lemma MmCall.run_hasHeap {w : World} {i : ℕ} {c : MmCall} {events : List CacheEvent} {m : Machine}
    {mm : Mm} (hk : KeepsHeaps w (.call i c events)) (hs : Sound (w.mm i)) (hh : HasHeap (w.mm i))
    (h : c.run (w.before events) (w.mm i) = .ok (m, mm)) : HasHeap mm := by
  have hn := hh.noHeapStack
  cases c <;> obtain ⟨r, hr⟩ := exists_of_map_snd h
  case map => exact (mmMap_sameHeap hk hr).hasHeap hh
  case unmap => exact (mmUnmap_sameHeap hs hk hr).hasHeap hh
  case sbrk => exact (mmSbrk_movesBreak hs hh hk hr).2
  case handleFault => exact (mmHandleFault_sameHeap hn hr).hasHeap hh
  case prefault => exact (mmPrefault_sameHeap hn hr).hasHeap hh

lemma Step.hasHeap {w w' : World} {action : Action} (hk : KeepsHeaps w action) (h : Step w action w')
    (hs : ∀ i ∈ w.live, Sound (w.mm i)) (hh : ∀ i ∈ w.live, HasHeap (w.mm i)) :
    ∀ i ∈ w'.live, HasHeap (w'.mm i) := by
  have hsame : ∀ {mm mm' : Mm}, HasHeap mm → mm'.vmas = mm.vmas → mm'.brkStart = mm.brkStart →
      mm'.brk = mm.brk → HasHeap mm' := fun hm hv hb hb' =>
    SameHeap.hasHeap ⟨congrArg heapAreas hv, hb, hb'⟩ hm
  cases h with
  | create hi hc => exact hk.elim
  | createFails _ | loadFails _ | write _ _ _ | kernelAlloc _ | kernelAllocFails _
  | kernelFree _ _ | kernelWrite _ =>
    exact hh
  | load hi hl => exact forall_add hh (loadImage_hasHeap hl)
  | call hi hc => exact forall_put hh (MmCall.run_hasHeap hk (hs _ hi) (hh _ hi) hc)
  | fork hi hj hf =>
    obtain ⟨hp, hc⟩ := mmFork_sameHeap hf
    exact forall_add (forall_put hh (hp.hasHeap (hh _ hi))) ((hc _ rfl).hasHeap (hh _ hi))
  | forkFails hi hf => exact forall_put hh ((mmFork_sameHeap hf).1.hasHeap (hh _ hi))
  | destroy hi _ => exact fun j hj => hh j (List.mem_of_mem_erase hj)
  | switchTo hi => exact forall_put hh (hsame (hh _ hi) rfl rfl rfl)
  | switchFrom hi => exact forall_put hh (hsame (hh _ hi) rfl rfl rfl)
  | fillTlb hi _ _ _ => exact forall_put hh (hsame (hh _ hi) rfl rfl rfl)

def heapSpaces (boot : BootMemory) : System World Action := (addressSpaces boot).guarded KeepsHeaps

lemma reachable_hasHeap {boot : BootMemory} {w : World} (h : (heapSpaces boot).Reachable w) :
    ∀ i ∈ w.live, Sound (w.mm i) ∧ HasHeap (w.mm i) := by
  have hboth := h.invariant
    (I := fun w => (∀ i ∈ w.live, Sound (w.mm i)) ∧ ∀ i ∈ w.live, HasHeap (w.mm i))
    (by rintro w rfl; simp [BootMemory.world])
    fun _ _ _ ⟨hs, hh⟩ ⟨hk, hst⟩ => ⟨hst.sound hs, hst.hasHeap hk hs hh⟩
  exact fun i hi => ⟨hboth.1 i hi, hboth.2 i hi⟩

theorem reachable_movesBreak {boot : BootMemory} {w : World} (h : (heapSpaces boot).Reachable w)
    {i : ℕ} (hi : i ∈ w.live) {inc : ℤ} (hinc : -2 ^ 63 ≤ inc ∧ inc < 2 ^ 63)
    {events : List CacheEvent} {r : Option ℕ} {m : Machine} {mm : Mm}
    (hc : mmSbrk (w.before events) (w.mm i) inc = .ok (r, m, mm)) :
    MovesBreak (w.before events) m (w.mm i) mm inc r := by
  obtain ⟨hs, hh⟩ := reachable_hasHeap h i hi
  exact (mmSbrk_movesBreak hs hh hinc hc).1

theorem reachable_movesBreak_load : ∃ m mm m' mm',
    loadImage (smallBoot.world.before []) [⟨0x400000, 0x1000, 0x800, protRead ||| protExec⟩] 0x400000 =
      .ok (some mm, m) ∧
    mmSbrk { m with caches := [] } mm 0x2800 = .ok (some 0x401000, m', mm') ∧
    MovesBreak { m with caches := [] } m' mm mm' 0x2800 (some 0x401000) := by
  obtain ⟨m, mm, hl⟩ := smallBoot_image
  have hbreak : ((loadImage (smallBoot.world.before [])
      [⟨0x400000, 0x1000, 0x800, protRead ||| protExec⟩] 0x400000).toOption.bind fun r =>
        r.1.bind fun mm => (mmSbrk { r.2 with caches := [] } mm 0x2800).toOption.bind Prod.fst) =
      some 0x401000 := by
    decide +kernel
  rw [hl] at hbreak
  rcases hc : mmSbrk { m with caches := [] } mm 0x2800 with p | ⟨old, m', mm'⟩
  · simp [Except.toOption, hc] at hbreak
  · obtain rfl : old = some 0x401000 := by simpa [Except.toOption, hc] using hbreak
    have hreach : (heapSpaces smallBoot).Reachable (smallBoot.world.add 0 m mm) :=
      .step (.load 0 _ _ []) (.init rfl) ⟨trivial, .load (by simp [BootMemory.world]) hl⟩
    have hcall : mmSbrk ((smallBoot.world.add 0 m mm).before []) ((smallBoot.world.add 0 m mm).mm 0)
        0x2800 = .ok (some 0x401000, m', mm') := by
      simpa [World.add, World.before] using hc
    have hmoves := reachable_movesBreak hreach List.mem_cons_self (by decide) hcall
    exact ⟨m, mm, m', mm', hl, hc, by simpa [World.add, World.before] using hmoves⟩

end MyOS.Memory
