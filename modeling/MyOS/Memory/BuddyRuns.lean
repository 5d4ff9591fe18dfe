import MyOS.Library.System
import MyOS.Memory.BuddySpec

/-! Boot-time carving of the free regions, and every run of `alloc_pages` and `free_pages`
after it. -/

namespace MyOS.Memory.Pmm

open Library Library.Dyadic

section Carving

variable {s : Pmm} {live : List Block} {start stop : ℕ}

lemma fitOrder_spec (zoneEnd n : ℕ) (h : start < zoneEnd) :
    fitOrder start zoneEnd n ≤ n ∧ 2 ^ fitOrder start zoneEnd n ∣ start ∧
      start + 2 ^ fitOrder start zoneEnd n ≤ zoneEnd := by
  induction n with
  | zero => exact ⟨le_rfl, one_dvd _, h⟩
  | succ n ih =>
    rw [fitOrder]
    split
    · exact ⟨ih.1.trans n.le_succ, ih.2⟩
    · rename_i hc
      push Not at hc
      exact ⟨le_rfl, Nat.dvd_of_mod_eq_zero hc.1, hc.2⟩

lemma Layout.start_bounds (h : s.Layout) (hlt : start < s.maxPfn) :
    (s.zone (pfnZone start)).startPfn ≤ start ∧ start < (s.zone (pfnZone start)).endPfn := by
  rw [pfnZone]
  split
  · rw [h.dmaStart, h.dmaEnd]
    omega
  · rw [h.normalStart, h.normalEnd]
    omega

lemma clearReserved_page (len q : ℕ) :
    (s.clearReserved start len).page q = { s.page q with
      reserved := (s.page q).reserved && !decide (start ≤ q ∧ q < start + len) } := by
  by_cases hq : start ≤ q ∧ q < start + len
  · simp [clearReserved, setPages, hq]
  · simp only [clearReserved, setPages, if_neg hq, decide_eq_false hq, Bool.not_false, Bool.and_true]

lemma Inv.clearReserved (h : Inv s live) {order : ℕ} (ho : order < maxOrder)
    (hal : 2 ^ order ∣ start) (hin : s.InZone (pfnZone start) ⟨start, order⟩)
    (hram : start + 2 ^ order ≤ s.maxPfn)
    (hres : ∀ q, start ≤ q → q < start + 2 ^ order → (s.page q).reserved = true) :
    Inv (s.clearReserved start (2 ^ order)) (⟨start, order⟩ :: live) where
  layout := ⟨h.layout.dmaStart, h.layout.dmaEnd, h.layout.normalStart, h.layout.normalEnd⟩
  cover q := by
    have hc := h.cover q
    have hfree : (s.clearReserved start (2 ^ order)).freeBlocks = s.freeBlocks := rfl
    rw [hfree, coverage_cons]
    have hman : (s.clearReserved start (2 ^ order)).Managed q ↔
        s.Managed q ∨ (Block.mk start order).Contains q := by
      simp only [Managed, Block.Contains, Pmm.clearReserved, setPages]
      by_cases hq : start ≤ q ∧ q < start + 2 ^ order
      · have : q < s.maxPfn := by omega
        simp [hq, this]
      · simp [hq]
    by_cases hq : (Block.mk start order).Contains q
    · have hold : ¬ s.Managed q := fun hm => by
        have := hres q hq.1 hq.2
        simp [hm.2] at this
      rw [if_neg hold] at hc
      rw [if_pos hq, if_pos (hman.2 (Or.inr hq))]
      omega
    · rw [if_neg hq, if_congr (hman.trans (or_iff_left hq)) rfl rfl]
      omega
  free z o p hp := by
    rw [clearReserved_page]
    exact h.free z o p hp
  listed p hp := by
    rw [clearReserved_page] at hp ⊢
    exact h.listed p hp
  held b hb := by
    rcases List.mem_cons.1 hb with rfl | hb
    · exact ⟨ho, hal, hin⟩
    · exact h.held b hb
  counts := h.counts
  merged := h.merged

structure Carved (s t : Pmm) (live : List Block) (start stop : ℕ) : Prop where
  good : Good t live
  maxPfn : t.maxPfn = s.maxPfn
  reserved : ∀ q, (t.page q).reserved = ((s.page q).reserved && !decide (start ≤ q ∧ q < stop))

lemma freeRangeStep_carved (h : Good s live) (hlt : start < stop) (hram : stop ≤ s.maxPfn)
    (hres : ∀ q, start ≤ q → q < stop → (s.page q).reserved = true) :
    start < (s.freeRangeStep start stop).2 ∧ (s.freeRangeStep start stop).2 ≤ stop ∧
      Carved s (s.freeRangeStep start stop).1 live start (s.freeRangeStep start stop).2 := by
  obtain ⟨hlo, hhi⟩ := h.inv.layout.start_bounds (by omega : start < s.maxPfn)
  have hfit := fitOrder_spec (min stop (s.zone (pfnZone start)).endPfn) (maxOrder - 1)
    (lt_min hlt hhi)
  rw [freeRangeStep]
  generalize fitOrder start (min stop (s.zone (pfnZone start)).endPfn) (maxOrder - 1) = order at hfit
  obtain ⟨hord, hal, hend⟩ := hfit
  have hmax : order < maxOrder := by
    simp only [maxOrder] at hord ⊢
    omega
  have hin : s.InZone (pfnZone start) ⟨start, order⟩ := ⟨hlo, by simp only; omega⟩
  have hcl := h.inv.clearReserved hmax hal hin (by omega)
    fun q h₁ h₂ => hres q h₁ (by omega)
  have hrel := buddyFree_released (z := pfnZone start) hcl rfl
  let u := (s.clearReserved start (2 ^ order)).buddyFree (pfnZone start) start order
  let v := u.setZone (pfnZone start) fun a => { a with
    freePages := a.freePages + 2 ^ order, managedPages := a.managedPages + 2 ^ order }
  have hv : Harmless u v := setZone_harmless _ fun _ => ⟨rfl, rfl, rfl⟩
  refine ⟨by simp only; omega, by simp only; omega,
    ⟨⟨hv.inv hrel.inv, fun y => ?_, fun b hb => ?_⟩, hrel.frame.maxPfn, fun q => ?_⟩⟩
  · have hz : (v.zone y).freePages =
        (u.zone y).freePages + if y = pfnZone start then 2 ^ order else 0 := by
      by_cases hy : y = pfnZone start
      · subst hy; simp [v]
      · simp [v, hy]
    have hs : ((s.clearReserved start (2 ^ order)).zone y).freePages =
        (s.clearReserved start (2 ^ order)).listedPages y := h.pages y
    rw [show (v.zone y).freePages = _ from hz, hv.listedPages, hrel.listed y,
      (hrel.frame.zones y).2.2, hs]
  · have : v.page b.base = _ := hrel.page _ (coverage_pos_of_mem hb b.contains_base)
    rw [show (v.page b.base).order = _ from congrArg Page.order this, clearReserved_page]
    exact h.order b hb
  · have : (v.page q).reserved = _ := (hrel.frame.page q).1
    rw [show (v.page q).reserved = _ from this, clearReserved_page]

lemma freeRangeLoop_carved (n : ℕ) (h : Good s live) (hn : stop ≤ start + n)
    (hram : stop ≤ s.maxPfn)
    (hres : ∀ q, start ≤ q → q < stop → (s.page q).reserved = true) :
    Carved s (freeRangeLoop n s start stop) live start stop := by
  induction n generalizing s start with
  | zero =>
    refine ⟨h, rfl, fun q => ?_⟩
    have : ¬ (start ≤ q ∧ q < stop) := by omega
    simp [freeRangeLoop, this]
  | succ n ih =>
    rw [freeRangeLoop]
    split
    · rename_i hlt
      obtain ⟨hadv, hle, hc⟩ := freeRangeStep_carved h hlt hram hres
      have hleft : stop ≤ (s.freeRangeStep start stop).2 + n := by omega
      have hrest := ih hc.good hleft (by rwa [hc.maxPfn]) fun q h₁ h₂ => by
        have : ¬ q < (s.freeRangeStep start stop).2 := by omega
        simp [hc.reserved, hres q (by omega) h₂, this]
      refine ⟨hrest.good, hrest.maxPfn.trans hc.maxPfn, fun q => ?_⟩
      rw [hrest.reserved, hc.reserved, Bool.and_assoc]
      congr 1
      rw [← Bool.not_or, ← Bool.decide_or]
      congr 2
      simp only [eq_iff_iff]
      omega
    · refine ⟨h, rfl, fun q => ?_⟩
      have : ¬ (start ≤ q ∧ q < stop) := by omega
      simp [this]

theorem freeRange_carved (h : Good s live) (hram : stop ≤ s.maxPfn)
    (hres : ∀ q, start ≤ q → q < stop → (s.page q).reserved = true) :
    Carved s (s.freeRange start stop) live start stop :=
  freeRangeLoop_carved _ h (by omega) hram hres

end Carving

lemma blank_good (maxRam : ℕ) (mem : ℕ → UInt8) : Good (blank maxRam mem) [] where
  inv := by
    refine ⟨⟨rfl, rfl, rfl, rfl⟩, fun q => ?_, ?_, ?_, ?_, ?_, ?_⟩
    · have : (blank maxRam mem).freeBlocks = [] := by
        refine List.eq_nil_iff_forall_not_mem.2 fun b hb => ?_
        obtain ⟨-, z, hz⟩ := mem_freeBlocks.1 hb
        cases z <;> simp [list, blank] at hz
      rw [this, if_neg (by simp [Managed, blank])]
      rfl
    all_goals
      intro z
      cases z <;> simp [list, count, blank]
  pages z := by cases z <;> simp [listedPages, count, blank]
  order := by simp

lemma Carved.reserved_rest {s t : Pmm} {live : List Block} {r : Region} {rs : List Region}
    (hc : Carved s t live (r.base / pageSize) (r.stop / pageSize)) (hfar : ∀ r' ∈ rs, r.Disjoint r')
    (hres : ∀ r' ∈ rs, ∀ q, r'.base / pageSize ≤ q → q < r'.stop / pageSize →
      (s.page q).reserved = true) :
    ∀ r' ∈ rs, ∀ q, r'.base / pageSize ≤ q → q < r'.stop / pageSize →
      (t.page q).reserved = true := by
  intro r' h' q hlo hhi
  -- a page of both ranges would have its last byte in both regions
  have hpage : ¬ (r.base / pageSize ≤ q ∧ q < r.stop / pageSize) := by
    rintro ⟨hlo₁, hhi₁⟩
    have := hfar r' h' (q * pageSize + (pageSize - 1))
    simp only [pageSize] at *
    omega
  simp [hc.reserved, hres r' h' q hlo hhi, hpage]

lemma pmmInit_good {maxRam : ℕ} {mem : ℕ → UInt8} {regions : List Region}
    (hd : regions.Pairwise Region.Disjoint) (hram : ∀ r ∈ regions, r.stop ≤ maxRam) :
    Good (pmmInit maxRam mem regions) [] := by
  suffices h : ∀ s : Pmm, Good s [] → s.maxPfn = maxRam / pageSize →
      (∀ r ∈ regions, ∀ q, r.base / pageSize ≤ q → q < r.stop / pageSize →
        (s.page q).reserved = true) →
      Good (regions.foldl (fun s r => s.freeRange (r.base / pageSize) (r.stop / pageSize)) s) [] from
    h _ (blank_good maxRam mem) rfl fun _ _ _ _ _ => rfl
  induction regions with
  | nil => exact fun s h _ _ => h
  | cons r rs ih =>
    intro s h hmax hres
    obtain ⟨hfar, hrest⟩ := List.pairwise_cons.1 hd
    have hstop : r.stop / pageSize ≤ s.maxPfn :=
      hmax ▸ Nat.div_le_div_right (hram r List.mem_cons_self)
    have hc := freeRange_carved h hstop (hres r List.mem_cons_self)
    exact ih hrest (fun r' h' => hram r' (List.mem_cons_of_mem _ h')) _ hc.good
      (hc.maxPfn.trans hmax)
      (hc.reserved_rest hfar fun r' h' => hres r' (List.mem_cons_of_mem _ h'))

section Flags

variable {s : Pmm} {q start stop : ℕ}

lemma freeRangeStep_flags : ((s.freeRangeStep start stop).1.page q).head = (s.page q).head ∧
    ((s.freeRangeStep start stop).1.page q).slab = (s.page q).slab := by
  rw [freeRangeStep]
  generalize fitOrder start (min stop (s.zone (pfnZone start)).endPfn) (maxOrder - 1) = order
  obtain ⟨-, hhead, hslab, -⟩ := (buddyFree_frame (s := s.clearReserved start (2 ^ order)) (pfnZone start) start order).page q
  rw [setZone_page, hhead, hslab, clearReserved_page]
  exact ⟨rfl, rfl⟩

lemma freeRange_flags : ((s.freeRange start stop).page q).head = (s.page q).head ∧
    ((s.freeRange start stop).page q).slab = (s.page q).slab := by
  rw [freeRange]
  induction stop - start generalizing s start with
  | zero => exact ⟨rfl, rfl⟩
  | succ n ih =>
    rw [freeRangeLoop]
    split
    · exact ⟨ih.1.trans freeRangeStep_flags.1, ih.2.trans freeRangeStep_flags.2⟩
    · exact ⟨rfl, rfl⟩

lemma pmmInit_flags {maxRam : ℕ} {mem : ℕ → UInt8} {regions : List Region} :
    ((pmmInit maxRam mem regions).page q).head = false ∧ ((pmmInit maxRam mem regions).page q).slab = false := by
  suffices h : ∀ s : Pmm, (s.page q).head = false ∧ (s.page q).slab = false →
      ((regions.foldl (fun s r => s.freeRange (r.base / pageSize) (r.stop / pageSize)) s).page q).head = false ∧
      ((regions.foldl (fun s r => s.freeRange (r.base / pageSize) (r.stop / pageSize)) s).page q).slab = false from
    h _ ⟨rfl, rfl⟩
  induction regions with
  | nil => exact fun s h => h
  | cons r rs ih => exact fun s ⟨hhead, hslab⟩ => ih _ ⟨freeRange_flags.1.trans hhead, freeRange_flags.2.trans hslab⟩

end Flags

/-- A call of the allocator's interface. `live` holds the allocations not yet returned. -/
inductive Call
  | alloc (order : ℕ) (gfp : Gfp)
  | free (b : Block)
  deriving DecidableEq

structure Heap where
  pmm : Pmm
  live : List Block := []

inductive CallStep : Heap → Call → Heap → Prop
  | alloc {s t : Pmm} {live : List Block} {order p : ℕ} {gfp : Gfp}
      (h : s.allocPages order gfp = (some p, t)) :
      CallStep ⟨s, live⟩ (.alloc order gfp) ⟨t, ⟨p, order⟩ :: live⟩
  | fail {s t : Pmm} {live : List Block} {order : ℕ} {gfp : Gfp}
      (h : s.allocPages order gfp = (none, t)) :
      CallStep ⟨s, live⟩ (.alloc order gfp) ⟨t, live⟩
  | free {s t : Pmm} {live : List Block} {b : Block} (hb : b ∈ live)
      (h : s.freePages b.base b.order = .ok t) :
      CallStep ⟨s, live⟩ (.free b) ⟨t, live.erase b⟩

def allocator (maxRam : ℕ) (mem : ℕ → UInt8) (regions : List Region) : System Heap Call where
  init s := s = ⟨pmmInit maxRam mem regions, []⟩
  step := CallStep

lemma CallStep.good {s t : Heap} {c : Call} (h : Good s.pmm s.live) (hs : CallStep s c t) :
    Good t.pmm t.live := by
  cases hs with
  | alloc hr =>
    rcases allocPages_spec _ _ h with ⟨p, t, hr', ha⟩ | ⟨hr', -⟩
    · obtain ⟨hp, ht⟩ := Prod.mk.inj (hr.symm.trans hr')
      cases hp
      subst ht
      exact ha.good
    · cases hr.symm.trans hr'
  | fail hr =>
    rcases allocPages_spec _ _ h with ⟨p, t, hr', ha⟩ | ⟨hr', -⟩
    · cases hr.symm.trans hr'
    · cases hr.symm.trans hr'
      exact h
  | free hb hr =>
    obtain ⟨t, hr', hf⟩ := freePages_spec h hb
    cases hr.symm.trans hr'
    exact hf.good

structure WellFormed (s : Pmm) (live : List Block) : Prop where
  owner : ∀ q, s.Managed q → coverage (s.freeBlocks ++ live) q = 1
  apart : (s.freeBlocks ++ live).Pairwise Block.Apart
  listedOnce : ∀ z o p, p ∈ s.list z o → (s.list z o).count p = 1 ∧
    ∀ y i, p ∈ s.list y i → y = z ∧ i = o
  shape : ∀ z o p, p ∈ s.list z o → o < maxOrder ∧ 2 ^ o ∣ p ∧ s.InZone z ⟨p, o⟩ ∧
    (∀ q, (Block.mk p o).Contains q → s.Managed q) ∧
    (s.page p).buddy = true ∧ (s.page p).order = o
  merged : ∀ z o p, o < maxOrder - 1 → p ∈ s.list z o → p ^^^ 2 ^ o ∉ s.list z o
  counts : ∀ z o, s.count z o = (s.list z o).length
  pages : ∀ z, (s.zone z).freePages = ((List.range maxOrder).map fun o => s.count z o * 2 ^ o).sum

lemma Good.wellFormed {s : Pmm} {live : List Block} (h : Good s live) : WellFormed s live where
  owner q hq := by rw [coverage_append, h.inv.cover q, if_pos hq]
  apart := pairwise_apart fun q => by
    rw [coverage_append]
    exact h.inv.cover_le q
  listedOnce z o p hp :=
    ⟨List.count_eq_one_of_mem (h.inv.list_nodup z o) hp, fun y i hq => h.inv.slot_unique hp hq⟩
  shape z o p hp := by
    obtain ⟨ho, hal, hin, hbud, hord⟩ := h.inv.free z o p hp
    refine ⟨ho, hal, hin, fun q hq => ?_, hbud, hord⟩
    by_contra hm
    have hc := h.inv.cover q
    have := coverage_pos_of_mem (h.inv.listed_block hp) hq
    rw [if_neg hm] at hc
    omega
  merged z o p ho hp := h.inv.merged z o p (by omega) hp
  counts := h.inv.counts
  pages := h.pages

lemma reachable_good {maxRam : ℕ} {mem : ℕ → UInt8} {regions : List Region}
    (hd : regions.Pairwise Region.Disjoint) (hram : ∀ r ∈ regions, r.stop ≤ maxRam) {s : Heap}
    (h : (allocator maxRam mem regions).Reachable s) : Good s.pmm s.live :=
  h.invariant (I := fun s => Good s.pmm s.live) (by rintro s rfl; exact pmmInit_good hd hram)
    fun _ _ _ hs hst => hst.good hs

theorem reachable_wellFormed {maxRam : ℕ} {mem : ℕ → UInt8} {regions : List Region}
    (hd : regions.Pairwise Region.Disjoint) (hram : ∀ r ∈ regions, r.stop ≤ maxRam) {s : Heap}
    (h : (allocator maxRam mem regions).Reachable s) :
    WellFormed s.pmm s.live ∧
      ∀ b ∈ s.live, ∃ t, s.pmm.freePages b.base b.order = .ok t := by
  have hgood := reachable_good hd hram h
  refine ⟨hgood.wellFormed, fun b hb => ?_⟩
  obtain ⟨t, ht, -⟩ := freePages_spec hgood hb
  exact ⟨t, ht⟩

theorem reachable_wellFormed_small :
    ∃ t, (pmmInit 0x10000 (fun _ => 0) [⟨0x1000, 0x9000⟩, ⟨0xa000, 0x10000⟩]).allocPages 2 {} =
        (some 12, t) ∧ WellFormed t [⟨12, 2⟩] ∧
      ∀ b ∈ [Block.mk 12 2], ∃ u, t.freePages b.base b.order = .ok u := by
  have hp : ((pmmInit 0x10000 (fun _ => 0)
      [⟨0x1000, 0x9000⟩, ⟨0xa000, 0x10000⟩]).allocPages 2 {}).1 = some 12 := by decide +kernel
  generalize hr : (pmmInit 0x10000 (fun _ => 0)
    [⟨0x1000, 0x9000⟩, ⟨0xa000, 0x10000⟩]).allocPages 2 {} = r at hp
  obtain ⟨_, t⟩ := r
  obtain rfl : _ = some 12 := hp
  refine ⟨t, rfl, ?_⟩
  have hd : [Region.mk 0x1000 0x9000, ⟨0xa000, 0x10000⟩].Pairwise Region.Disjoint := by
    simp only [List.pairwise_pair, Region.Disjoint]
    omega
  exact reachable_wellFormed hd (by decide) (.step (.alloc 2 {}) (.init rfl) (.alloc hr))

end MyOS.Memory.Pmm
