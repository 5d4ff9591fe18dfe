import MyOS.Memory.BuddyRuns

/-! A block that is returned twice: when `free_pages` panics, and what it does when it does not. -/

namespace MyOS.Memory.Pmm

open Library Library.Dyadic

/-- The allocator with the blocks that were returned and of which no page has been allocated again. -/
structure History where
  heap : Heap
  freed : List Block := []

inductive FreeCall
  | call (c : Call)
  | again (b : Block)
  deriving DecidableEq

def Call.returned : Call → List Block
  | .alloc _ _ => []
  | .free b => [b]

def untouched (live freed : List Block) : List Block := freed.filter fun b => ∀ a ∈ live, b.Apart a

inductive HistoryStep : History → FreeCall → History → Prop
  | call {s : History} {t : Heap} {c : Call} (h : CallStep s.heap c t) :
      HistoryStep s (.call c) ⟨t, untouched t.live (c.returned ++ s.freed)⟩
  | again {s : History} {t : Pmm} {b : Block} (hb : b ∈ s.freed)
      (h : s.heap.pmm.freePages b.base b.order = .ok t) :
      HistoryStep s (.again b) ⟨⟨t, s.heap.live⟩, s.freed⟩

def doubleFrees (maxRam : ℕ) (mem : ℕ → UInt8) (regions : List Region) : System History FreeCall where
  init s := s = ⟨⟨pmmInit maxRam mem regions, []⟩, []⟩
  step := HistoryStep

/-- The page begins a free block: no merge has moved the beginning of the block below it. -/
def FirstOfFree (s : Pmm) (p : ℕ) : Prop := ∃ z o, p ∈ s.list z o

def AgainAtFirst (s : History) : FreeCall → Prop
  | .call _ => True
  | .again b => FirstOfFree s.heap.pmm b.base

structure HistoryGood (s : History) : Prop where
  good : Good s.heap.pmm s.heap.live
  head : ∀ q, (s.heap.pmm.page q).head = true → ∃ b ∈ s.heap.live, b.base = q
  freed : ∀ b ∈ s.freed, b.order < maxOrder ∧ b.Aligned ∧ (∀ q, b.Contains q → s.heap.pmm.Managed q) ∧
    ∀ a ∈ s.heap.live, b.Apart a

section Steps

variable {s t : Heap} {c : Call} {b : Block}

lemma CallStep.managed (h : Good s.pmm s.live) (hs : CallStep s c t) (q : ℕ) : t.pmm.Managed q ↔ s.pmm.Managed q := by
  cases hs with
  | alloc hr =>
    rcases allocPages_spec _ _ h with ⟨p, t, hr', ha⟩ | ⟨hr', -⟩
    · cases hr.symm.trans hr'
      rw [Managed, Managed, ha.maxPfn, ha.reserved]
    · cases hr.symm.trans hr'
  | fail hr =>
    rcases allocPages_spec _ _ h with ⟨p, t, hr', ha⟩ | ⟨hr', -⟩
    · cases hr.symm.trans hr'
    · cases hr.symm.trans hr'
      rfl
  | free hb hr =>
    obtain ⟨t, hr', hf⟩ := freePages_spec h hb
    cases hr.symm.trans hr'
    rw [Managed, Managed, hf.maxPfn, hf.reserved]

lemma CallStep.head (h : Good s.pmm s.live) (hs : CallStep s c t)
    (hhead : ∀ q, (s.pmm.page q).head = true → ∃ b ∈ s.live, b.base = q) (q : ℕ)
    (hq : (t.pmm.page q).head = true) : ∃ b ∈ t.live, b.base = q := by
  cases hs with
  | @alloc _ _ _ order p _ hr =>
    rw [(allocPages_flags hr).1] at hq
    split_ifs at hq with hqp
    · exact ⟨⟨p, order⟩, List.mem_cons_self, hqp.symm⟩
    · obtain ⟨b, hb, hbq⟩ := hhead q hq
      exact ⟨b, List.mem_cons_of_mem _ hb, hbq⟩
  | fail hr =>
    rcases allocPages_spec _ _ h with ⟨p, t, hr', ha⟩ | ⟨hr', -⟩
    · cases hr.symm.trans hr'
    · cases hr.symm.trans hr'
      exact hhead q hq
  | free hb hr =>
    rw [(freePages_flags hr).1] at hq
    split_ifs at hq with hqb
    obtain ⟨b, hb', hbq⟩ := hhead q hq
    exact ⟨b, (List.mem_erase_of_ne fun he => hqb (by rw [← hbq, he])).2 hb', hbq⟩

lemma CallStep.returned_mem (hs : CallStep s c t) (hb : b ∈ c.returned) : b ∈ s.live := by
  cases hs with
  | alloc => cases hb
  | fail => cases hb
  | free hmem => exact List.mem_singleton.1 hb ▸ hmem

lemma HistoryGood.call {s : History} (h : HistoryGood s) (hs : CallStep s.heap c t) :
    HistoryGood ⟨t, untouched t.live (c.returned ++ s.freed)⟩ where
  good := hs.good h.good
  head := hs.head h.good h.head
  freed b hb := by
    obtain ⟨hmem, hapart⟩ := List.mem_filter.1 hb
    refine ⟨?_, ?_, fun q hq => (hs.managed h.good q).2 ?_, by simpa using hapart⟩
    all_goals rcases List.mem_append.1 hmem with hret | hold
    · exact (h.good.inv.held b (hs.returned_mem hret)).1
    · exact (h.freed b hold).1
    · exact (h.good.inv.held b (hs.returned_mem hret)).2.1
    · exact (h.freed b hold).2.1
    · exact h.good.inv.managed_of_held (hs.returned_mem hret) hq
    · exact (h.freed b hold).2.2.1 q hq

lemma HistoryGood.in_free {s : History} (h : HistoryGood s) (hb : b ∈ s.freed) {q : ℕ} (hq : b.Contains q) :
    ∃ c ∈ s.heap.pmm.freeBlocks, c.Contains q := by
  obtain ⟨-, -, hman, hapart⟩ := h.freed b hb
  have hlive : coverage s.heap.live q = 0 := by
    by_contra hne
    obtain ⟨a, ha, haq⟩ := exists_of_coverage_pos (Nat.pos_of_ne_zero hne)
    exact hapart a ha q ⟨hq, haq⟩
  refine exists_of_coverage_pos ?_
  have hcover := h.good.inv.cover q
  rw [if_pos (hman q hq)] at hcover
  omega

end Steps

section Again

variable {s : History} {b : Block}

lemma HistoryGood.panics (h : HistoryGood s) (hb : b ∈ s.freed) (hfirst : FirstOfFree s.heap.pmm b.base) :
    s.heap.pmm.freePages b.base b.order = .error .doubleFree := by
  obtain ⟨z, o, hp⟩ := hfirst
  obtain ⟨hlt, hres⟩ := (h.freed b hb).2.2.1 _ b.contains_base
  rw [freePages, if_neg (not_le.2 hlt), if_neg (by simp [hres]), if_pos (h.good.inv.free z o _ hp).2.2.2.1]

lemma HistoryGood.buddy_not_free (h : HistoryGood s) (hb : b ∈ s.freed) (hfirst : ¬ FirstOfFree s.heap.pmm b.base)
    (z : ZoneId) : b.base ^^^ 2 ^ b.order ∉ s.heap.pmm.list z b.order := by
  intro hbud
  obtain ⟨-, hal, -⟩ := h.freed b hb
  obtain ⟨c, hc, hcb⟩ := h.in_free hb b.contains_base
  obtain ⟨-, y, hy⟩ := mem_freeBlocks.1 hc
  have hne : c.base ≠ b.base := fun he => hfirst ⟨y, c.order, he ▸ hy⟩
  have hcal : c.Aligned := (h.good.inv.free y c.order c.base hy).2.1
  have hlt := Block.order_lt hal hcal hcb hne
  have htwo := two_le_coverage hc (h.good.inv.listed_block hbud) (fun he => hlt.ne (by rw [← he]))
    (Block.contains_buddy hal hcal hlt hcb) (Block.contains_base ⟨_, b.order⟩)
  have hle := h.good.inv.cover_le (b.base ^^^ 2 ^ b.order)
  omega

lemma HistoryGood.returns (h : HistoryGood s) (hb : b ∈ s.freed) (hfirst : ¬ FirstOfFree s.heap.pmm b.base) :
    ∃ t, s.heap.pmm.freePages b.base b.order = .ok t ∧
      ∀ q, b.Contains q → 2 ≤ coverage t.freeBlocks q := by
  obtain ⟨ho, hal, hman, hapart⟩ := h.freed b hb
  obtain ⟨hlt, hres⟩ := hman _ b.contains_base
  have hbud : (s.heap.pmm.page b.base).buddy = false := by
    by_contra hne
    exact hfirst ⟨_, _, h.good.inv.listed b.base (by simpa using hne)⟩
  have hhead : (s.heap.pmm.page b.base).head = false := by
    by_contra hne
    obtain ⟨a, ha, hab⟩ := h.head b.base (by simpa using hne)
    exact hapart a ha b.base ⟨b.contains_base, hab ▸ a.contains_base⟩
  have hmod : b.base % 2 ^ b.order = 0 := Nat.mod_eq_zero_of_dvd hal
  let u := s.heap.pmm.setPage b.base fun g =>
    { g with head := false, slab := false, refcount := 0, cache := none }
  have hharm : Harmless s.heap.pmm u := setPage_harmless _ (fun _ => ⟨rfl, rfl⟩) fun _ => rfl
  have halone : u.mergeable (pfnZone b.base) b.base b.order ≠ true := fun hm =>
    h.buddy_not_free hb hfirst _ ((hharm.inv h.good.inv).mergeable_iff.1 hm)
  let v := u.buddyFree (pfnZone b.base) b.base b.order
  let w := v.setZone (pfnZone b.base) fun a => { a with freePages := a.freePages + 2 ^ b.order }
  have hw : Harmless v w := setZone_harmless _ fun _ => ⟨rfl, rfl, rfl⟩
  refine ⟨w, ?_, fun q hq => ?_⟩
  · rw [freePages, if_neg (not_le.2 hlt), if_neg (by simp [hres]), if_neg (by simp [hbud]),
      if_neg (by simp [hmod]), if_neg (by simp [hhead])]
  · obtain ⟨c, hc, hcq⟩ := h.in_free hb hq
    have hold := coverage_pos_of_mem hc hcq
    rw [hw.freeBlocks, show v = _ from buddyFree_alone halone, addFree_coverage ho, hharm.freeBlocks, if_pos hq]
    omega

end Again

theorem reachable_panics_iff_first {maxRam : ℕ} {mem : ℕ → UInt8} {regions : List Region}
    (hd : regions.Pairwise Region.Disjoint) (hram : ∀ r ∈ regions, r.stop ≤ maxRam) {s : History}
    (h : ((doubleFrees maxRam mem regions).guarded AgainAtFirst).Reachable s) :
    WellFormed s.heap.pmm s.heap.live ∧
      ∀ b ∈ s.freed, ((∃ e, s.heap.pmm.freePages b.base b.order = .error e) ↔ FirstOfFree s.heap.pmm b.base) ∧
        ∀ t, s.heap.pmm.freePages b.base b.order = .ok t → ∀ q, b.Contains q → 2 ≤ coverage t.freeBlocks q := by
  have hgood : HistoryGood s := by
    refine h.invariant ?_ ?_
    · rintro s rfl
      exact ⟨pmmInit_good hd hram, fun q hq => absurd hq (by rw [pmmInit_flags.1]; decide), by simp⟩
    · rintro s a t hs ⟨hguard, hst⟩
      cases hst with
      | call hc => exact hs.call hc
      | again hb hr => cases (hs.panics hb hguard).symm.trans hr
  refine ⟨hgood.good.wellFormed, fun b hb => ?_⟩
  by_cases hfirst : FirstOfFree s.heap.pmm b.base
  · have hpanic := hgood.panics hb hfirst
    exact ⟨iff_of_true ⟨_, hpanic⟩ hfirst, fun t ht => by cases hpanic.symm.trans ht⟩
  · obtain ⟨t, ht, htwo⟩ := hgood.returns hb hfirst
    refine ⟨iff_of_false (fun ⟨e, he⟩ => by cases ht.symm.trans he) hfirst, fun t' ht' => ?_⟩
    rwa [← Except.ok.inj (ht.symm.trans ht')]

section TwoPages

def twoPages : Pmm := pmmInit 0x2000 (fun _ => 0) [⟨0, 0x2000⟩]

lemma mergedBelow : ∃ s t, ((doubleFrees 0x2000 (fun _ => 0) [⟨0, 0x2000⟩]).guarded AgainAtFirst).Reachable s ∧
    ⟨1, 0⟩ ∈ s.freed ∧ s.heap.pmm.freePages 1 0 = .ok t := by
  let a := twoPages.allocPages 0 {}
  let b := a.2.allocPages 0 {}
  have ha : twoPages.allocPages 0 {} = (some 0, a.2) := Prod.ext (by decide +kernel) rfl
  have hb : a.2.allocPages 0 {} = (some 1, b.2) := Prod.ext (by decide +kernel) rfl
  have hrun : ((b.2.freePages 1 0).toOption.bind fun t => (t.freePages 0 0).toOption.bind fun u =>
      (u.freePages 1 0).toOption).isSome = true := by decide +kernel
  rcases ht : b.2.freePages 1 0 with e | t
  · simp [ht, Except.toOption] at hrun
  rcases hu : t.freePages 0 0 with e | u
  · simp [ht, hu, Except.toOption] at hrun
  rcases hv : u.freePages 1 0 with e | v
  · simp [ht, hu, hv, Except.toOption] at hrun
  refine ⟨_, v, .step (.call (.free ⟨0, 0⟩)) (.step (.call (.free ⟨1, 0⟩)) (.step (.call (.alloc 0 {}))
    (.step (.call (.alloc 0 {})) (.init rfl) ⟨trivial, .call (.alloc ha)⟩) ⟨trivial, .call (.alloc hb)⟩)
      ⟨trivial, .call (.free (by decide) ht)⟩) ⟨trivial, .call (.free (by decide) hu)⟩, ?_, hv⟩
  exact List.mem_cons_of_mem (Block.mk 0 0) List.mem_cons_self

theorem reachable_panics_iff_first_merged : ∃ (s : Heap) (t : Pmm), s.pmm.freePages 1 0 = .ok t ∧
    WellFormed s.pmm s.live ∧ 2 ≤ coverage t.freeBlocks 1 := by
  obtain ⟨s, t, hs, hb, ht⟩ := mergedBelow
  obtain ⟨hwell, hfreed⟩ := reachable_panics_iff_first (List.pairwise_singleton _ _) (by decide) hs
  exact ⟨s.heap, t, ht, hwell, (hfreed _ hb).2 t ht 1 (Block.contains_base ⟨1, 0⟩)⟩

theorem not_panics_merged : ¬ ∀ s, (doubleFrees 0x2000 (fun _ => 0) [⟨0, 0x2000⟩]).Reachable s →
    ∀ b ∈ s.freed, ∃ e, s.heap.pmm.freePages b.base b.order = .error e := by
  intro h
  obtain ⟨s, t, hs, hb, ht⟩ := mergedBelow
  obtain ⟨e, he⟩ := h s hs.of_guarded _ hb
  cases ht.symm.trans he

end TwoPages

end MyOS.Memory.Pmm
