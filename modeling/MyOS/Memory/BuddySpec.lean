import MyOS.Memory.BuddyInvariant

/-! What `buddy_free`, `buddy_alloc`, `alloc_pages` and `free_pages` do to a state that
satisfies the invariant. -/

namespace MyOS.Memory.Pmm

open Library Library.Dyadic Function

structure Released (s t : Pmm) (held : List Block) (z : ZoneId) (n : ℕ) : Prop where
  inv : Inv t held
  frame : Frame s t
  page : ∀ q, 0 < coverage held q → t.page q = s.page q
  listed : ∀ y, t.listedPages y = s.listedPages y + if y = z then n else 0

section Free

variable {s : Pmm} {z : ZoneId} {pfn order : ℕ} {held : List Block}

lemma coverage_cons_pos {b : Block} {bs : List Block} {q : ℕ} (h : 0 < coverage bs q) :
    0 < coverage (b :: bs) q := by
  rw [coverage_cons]
  omega

lemma Inv.disjoint_head {b : Block} (h : Inv s (b :: held)) {q : ℕ} (hq : b.Contains q) :
    coverage held q = 0 := by
  have := h.cover_le q
  rw [coverage_cons, if_pos hq] at this
  omega

lemma Inv.addFree_released (h : Inv s (⟨pfn, order⟩ :: held)) (hz : z = pfnZone pfn)
    (hb : order + 1 < maxOrder → pfn ^^^ 2 ^ order ∉ s.list z order) :
    Released s (s.addFree z pfn order) held z (2 ^ order) where
  inv := h.addFree hz hb
  frame := addFree_frame
  page q hq := addFree_page_ne fun he => by
    have hc : (Block.mk pfn order).Contains q := he ▸ Block.contains_base ⟨pfn, order⟩
    exact hq.ne' (h.disjoint_head hc)
  listed := addFree_listedPages h.head.1

lemma Inv.mergeable_iff (h : Inv s held) :
    s.mergeable z pfn order = true ↔ pfn ^^^ 2 ^ order ∈ s.list z order := by
  simp only [mergeable, Bool.and_eq_true, Bool.not_eq_true', Bool.or_eq_false_iff,
    decide_eq_false_iff_not, not_lt, beq_iff_eq]
  constructor
  · rintro ⟨hin, hbud, hord⟩
    have hz : pfnZone (pfn ^^^ 2 ^ order) = z := h.layout.zone_eq (b := ⟨_, order⟩) hin
    have := h.listed _ hbud
    rwa [hz, hord] at this
  · intro hm
    obtain ⟨-, -, hin, hbud, hord⟩ := h.free _ _ _ hm
    exact ⟨hin, hbud, hord⟩

lemma coalesce_released (n : ℕ) (h : Inv s (⟨pfn, order⟩ :: held)) (hz : z = pfnZone pfn)
    (hn : order + n + 1 = maxOrder) :
    Released s (coalesce n s z pfn order) held z (2 ^ order) := by
  induction n generalizing s pfn order with
  | zero => exact h.addFree_released hz fun ho => by omega
  | succ n ih =>
    rw [coalesce]
    split
    · rename_i hm
      have hbud := h.mergeable_iff.1 hm
      have hbz : pfnZone (pfn ^^^ 2 ^ order) = pfnZone pfn :=
        (h.layout.zone_eq (h.free _ _ _ hbud).2.2.1).trans hz
      obtain ⟨hmerged, hmz⟩ := (h.delFree hbud).merge (by omega) hbz
      have hrest := ih hmerged (hz.trans hmz.symm) (by omega)
      refine ⟨hrest.inv, delFree_frame.trans hrest.frame, fun q hq => ?_, fun y => ?_⟩
      · rw [hrest.page q hq]
        exact delFree_page_ne fun he =>
          h.not_listed (coverage_cons_pos (he ▸ hq)) z order hbud
      · have hc : 0 < s.count z order := by
          rw [h.counts]
          exact List.length_pos_of_mem hbud
        have := delFree_listedPages (p := pfn ^^^ 2 ^ order) (h.free _ _ _ hbud).1 hc y
        rw [hrest.listed y]
        split_ifs at * <;> omega
    · rename_i hm
      exact h.addFree_released hz fun _ hb => hm (h.mergeable_iff.2 hb)

lemma buddyFree_released (h : Inv s (⟨pfn, order⟩ :: held)) (hz : z = pfnZone pfn) :
    Released s (s.buddyFree z pfn order) held z (2 ^ order) := by
  have := h.head.1
  exact coalesce_released _ h hz (by omega)

end Free

structure Taken (s t : Pmm) (held : List Block) (z : ZoneId) (p order : ℕ) : Prop where
  inv : Inv t (⟨p, order⟩ :: held)
  frame : Frame s t
  zone : pfnZone p = z
  page : ∀ q, 0 < coverage held q → t.page q = s.page q
  listed : ∀ y, t.listedPages y + (if y = z then 2 ^ order else 0) = s.listedPages y

section Alloc

variable {s : Pmm} {z : ZoneId} {p order : ℕ} {held : List Block}

lemma Taken.split {t : Pmm} {d : ℕ} (h : Taken s t held z p (order + d)) :
    Taken s (Pmm.split d t z p order) held z p order := by
  induction d generalizing t with
  | zero => exact h
  | succ d ih =>
    have hinv : Inv t (⟨p, order + d + 1⟩ :: held) := h.inv
    obtain ⟨hsplit, hz⟩ := hinv.split
    have hupper : 0 < coverage (⟨p, order + d⟩ :: held) p := coverage_head_pos ⟨p, order + d⟩ held
    have hfree := hsplit.addFree_released (z := z) (h.zone.symm.trans hz.symm) fun _ => by
      -- the buddy of the upper half is the lower half, which is in transit
      have hx : (p + 2 ^ (order + d)) ^^^ 2 ^ (order + d) = p := xor_of_odd hinv.head.2.1
      rw [hx]
      exact hsplit.not_listed (coverage_cons_pos hupper) _ _
    refine ih ⟨hfree.inv, h.frame.trans hfree.frame, h.zone, fun q hq => ?_, fun y => ?_⟩
    · rw [hfree.page q (coverage_cons_pos hq), h.page q hq]
    · have := h.listed y
      rw [hfree.listed y]
      have h2 : 2 ^ (order + (d + 1)) = 2 ^ (order + d) + 2 ^ (order + d) := by ring
      split_ifs at * <;> omega

lemma Inv.delFree_taken (h : Inv s held) (hp : p ∈ s.list z order) :
    Taken s (s.delFree z p order) held z p order where
  inv := h.delFree hp
  frame := delFree_frame
  zone := h.layout.zone_eq (h.free _ _ _ hp).2.2.1
  page q hq := delFree_page_ne fun he => h.not_listed (he ▸ hq) z order hp
  listed := delFree_listedPages (h.free _ _ _ hp).1 (by
    rw [h.counts]
    exact List.length_pos_of_mem hp)

lemma allocFrom_spec (n d : ℕ) (h : Inv s held) :
    (∃ p t, allocFrom n d s z order = (some p, t) ∧ Taken s t held z p order) ∨
      (allocFrom n d s z order = (none, s) ∧
        ∀ o, order + d ≤ o → o < order + d + n → s.list z o = []) := by
  induction n generalizing d with
  | zero => exact .inr ⟨rfl, fun o _ _ => by omega⟩
  | succ n ih =>
    rw [allocFrom]
    cases hl : s.list z (order + d) with
    | cons p rest =>
      have hp : p ∈ s.list z (order + d) := hl ▸ List.mem_cons_self
      exact .inl ⟨p, _, rfl, (h.delFree_taken hp).split⟩
    | nil =>
      rcases ih (d + 1) with ⟨p, t, hr, ht⟩ | ⟨hr, hempty⟩
      · exact .inl ⟨p, t, hr, ht⟩
      · refine .inr ⟨hr, fun o hlo hhi => ?_⟩
        by_cases ho : o = order + d
        · rw [ho, hl]
        · exact hempty o (by omega) (by omega)

lemma buddyAlloc_spec (h : Inv s held) (ho : order < maxOrder) :
    (∃ p t, s.buddyAlloc z order = (some p, t) ∧ Taken s t held z p order) ∨
      (s.buddyAlloc z order = (none, s) ∧ ∀ o, order ≤ o → o < maxOrder → s.list z o = []) := by
  rcases allocFrom_spec (z := z) (maxOrder - order) 0 h with hs | ⟨hr, he⟩
  · exact .inl hs
  · exact .inr ⟨hr, fun o hlo hhi => he o (by omega) (by omega)⟩

end Alloc

structure Good (s : Pmm) (live : List Block) : Prop where
  inv : Inv s live
  pages : ∀ z, (s.zone z).freePages = s.listedPages z
  order : ∀ b ∈ live, (s.page b.base).order = b.order

structure Allocated (s t : Pmm) (live : List Block) (p order : ℕ) (gfp : Gfp) : Prop where
  good : Good t (⟨p, order⟩ :: live)
  maxPfn : t.maxPfn = s.maxPfn
  refcount : (t.page p).refcount = 1
  mapcount : (t.page p).mapcount = 0
  page : ∀ q, 0 < coverage live q → t.page q = s.page q
  counts : ∀ q, q ≠ p → (t.page q).refcount = (s.page q).refcount ∧
    (t.page q).mapcount = (s.page q).mapcount
  reserved : ∀ q, (t.page q).reserved = (s.page q).reserved
  mem : ∀ a, t.mem a = if gfp.zero ∧ pageToPhys p ≤ a ∧ a < pageToPhys p + pageSize * 2 ^ order
    then 0 else s.mem a
  freePages : (t.zone .dma32).freePages + (t.zone .normal).freePages + 2 ^ order =
    (s.zone .dma32).freePages + (s.zone .normal).freePages

section Calls

variable {s t : Pmm} {z : ZoneId} {p order : ℕ} {live : List Block} {gfp : Gfp}

structure Harmless (s t : Pmm) : Prop where
  maxPfn : t.maxPfn = s.maxPfn
  list : ∀ z o, t.list z o = s.list z o
  count : ∀ z o, t.count z o = s.count z o
  bounds : ∀ z, (t.zone z).startPfn = (s.zone z).startPfn ∧ (t.zone z).endPfn = (s.zone z).endPfn
  reserved : ∀ q, (t.page q).reserved = (s.page q).reserved
  buddy : ∀ q, (t.page q).buddy = (s.page q).buddy
  order : ∀ q, (s.page q).buddy = true → (t.page q).order = (s.page q).order

lemma Harmless.inZone (h : Harmless s t) (z : ZoneId) (b : Block) :
    t.InZone z b ↔ s.InZone z b := by
  rw [InZone, InZone, (h.bounds z).1, (h.bounds z).2]

lemma Harmless.managed (h : Harmless s t) (q : ℕ) : t.Managed q ↔ s.Managed q := by
  rw [Managed, Managed, h.maxPfn, h.reserved]

lemma Harmless.freeBlocks (h : Harmless s t) : t.freeBlocks = s.freeBlocks := by
  simp only [Pmm.freeBlocks, h.list]

lemma Harmless.inv (h : Harmless s t) (hs : Inv s live) : Inv t live := by
  refine ⟨⟨?_, ?_, ?_, ?_⟩, fun q => ?_, fun z o p hp => ?_, fun p hp => ?_, fun b hb => ?_,
    fun z o => ?_, fun z o p ho hp => ?_⟩
  · rw [(h.bounds _).1, hs.layout.dmaStart]
  · rw [(h.bounds _).2, hs.layout.dmaEnd, h.maxPfn]
  · rw [(h.bounds _).1, hs.layout.normalStart]
  · rw [(h.bounds _).2, hs.layout.normalEnd, h.maxPfn]
  · rw [h.freeBlocks, hs.cover q, if_congr (h.managed q) rfl rfl]
  · rw [h.list] at hp
    obtain ⟨h₁, h₂, h₃, h₄, h₅⟩ := hs.free z o p hp
    exact ⟨h₁, h₂, (h.inZone z _).2 h₃, (h.buddy p).trans h₄, (h.order p h₄).trans h₅⟩
  · rw [h.buddy] at hp
    rw [h.list, h.order p hp]
    exact hs.listed p hp
  · obtain ⟨h₁, h₂, h₃⟩ := hs.held b hb
    exact ⟨h₁, h₂, (h.inZone _ _).2 h₃⟩
  · rw [h.count, h.list, hs.counts]
  · rw [h.list] at hp ⊢
    exact hs.merged z o p ho hp

lemma Harmless.listedPages (h : Harmless s t) (z : ZoneId) : t.listedPages z = s.listedPages z := by
  simp only [Pmm.listedPages, h.count]

lemma Harmless.trans {u : Pmm} (h : Harmless s t) (k : Harmless t u) : Harmless s u where
  maxPfn := k.maxPfn.trans h.maxPfn
  list z o := (k.list z o).trans (h.list z o)
  count z o := (k.count z o).trans (h.count z o)
  bounds z := ⟨(k.bounds z).1.trans (h.bounds z).1, (k.bounds z).2.trans (h.bounds z).2⟩
  reserved q := (k.reserved q).trans (h.reserved q)
  buddy q := (k.buddy q).trans (h.buddy q)
  order q hq := (k.order q ((h.buddy q).trans hq)).trans (h.order q hq)

lemma setZone_harmless (f : Zone → Zone)
    (hf : ∀ a, (f a).freeArea = a.freeArea ∧ (f a).startPfn = a.startPfn ∧ (f a).endPfn = a.endPfn) :
    Harmless s (s.setZone z f) := by
  refine ⟨rfl, fun y o => ?_, fun y o => ?_, fun y => ?_, fun _ => rfl, fun _ => rfl, fun _ _ => rfl⟩
  all_goals
    by_cases hy : y = z
    · subst hy; simp [list, count, hf]
    · simp [list, count, hy]

lemma setPage_harmless (f : Page → Page)
    (hf : ∀ g, (f g).reserved = g.reserved ∧ (f g).buddy = g.buddy) (ho : (s.page p).buddy = true → (f (s.page p)).order = (s.page p).order) :
    Harmless s (s.setPage p f) := by
  refine ⟨rfl, fun _ _ => rfl, fun _ _ => rfl, fun _ => ⟨rfl, rfl⟩, fun q => ?_, fun q => ?_,
    fun q hq => ?_⟩
  all_goals
    by_cases hqp : q = p
    · subst hqp; simp_all
    · simp [hqp]

lemma harmless_of_eq (hp : t.page = s.page) (hz : t.zone = s.zone) (hm : t.maxPfn = s.maxPfn) :
    Harmless s t := by
  refine ⟨hm, fun _ _ => ?_, fun _ _ => ?_, fun _ => ?_, fun _ => ?_, fun _ => ?_, fun _ _ => ?_⟩
  all_goals simp only [list, count, hp, hz, and_self]

lemma memset_harmless (a len : ℕ) (v : UInt8) : Harmless s (s.memset a len v) :=
  harmless_of_eq rfl rfl rfl

lemma Taken.page_of_live (h : Taken s t live z p order) {b : Block} (hb : b ∈ live) :
    t.page b.base = s.page b.base ∧ b.base ≠ p := by
  have hpos : 0 < coverage live b.base := coverage_pos_of_mem hb b.contains_base
  refine ⟨h.page _ hpos, fun he => ?_⟩
  have hc : (Block.mk p order).Contains b.base := he ▸ Block.contains_base ⟨p, order⟩
  exact hpos.ne' (h.inv.disjoint_head hc)

lemma Taken.allocated (h : Good s live) (ht : Taken s t live z p order) :
    Allocated s (t.markAllocated z p order gfp) live p order gfp := by
  generalize hu : t.markAllocated z p order gfp = u
  have hpage : u.page = update t.page p { t.page p with
      head := true, order := order, refcount := 1, mapcount := 0 } := by
    subst hu; rw [markAllocated]; split <;> rfl
  have hzone : u.zone = update t.zone z
      { t.zone z with freePages := (t.zone z).freePages - 2 ^ order } := by
    subst hu; rw [markAllocated]; split <;> rfl
  have hpos := coverage_head_pos ⟨p, order⟩ live
  have hharm : Harmless t u := by
    have hbase := (setZone_harmless (s := t) (z := z)
      (fun a => { a with freePages := a.freePages - 2 ^ order }) fun _ => ⟨rfl, rfl, rfl⟩).trans
      (setPage_harmless (p := p) (fun g =>
        { g with head := true, order := order, refcount := 1, mapcount := 0 })
        (fun _ => ⟨rfl, rfl⟩) fun hb => absurd (ht.inv.not_buddy hpos) (by simp_all))
    subst hu
    rw [markAllocated]
    split
    · exact hbase.trans (memset_harmless _ _ _)
    · exact hbase
  have hfree : ∀ y, (u.zone y).freePages + (if y = z then 2 ^ order else 0) =
      (s.zone y).freePages ∧ (u.zone y).freePages = u.listedPages y := by
    intro y
    have hl := ht.listed y
    have hs := h.pages y
    have hf := (ht.frame.zones y).2.2
    rw [hharm.listedPages]
    by_cases hy : y = z
    · subst hy
      simp only [hzone, update_self, if_true] at *
      omega
    · simp only [hzone, update_of_ne hy, if_neg hy] at *
      omega
  refine ⟨⟨hharm.inv ht.inv, fun y => (hfree y).2, fun b hb => ?_⟩,
    hharm.maxPfn.trans ht.frame.maxPfn, by simp [hpage], by simp [hpage], fun q hq => ?_,
    fun q hq => ?_, fun q => (hharm.reserved q).trans (ht.frame.page q).1, fun a => ?_, ?_⟩
  · rcases List.mem_cons.1 hb with rfl | hb
    · simp [hpage]
    · obtain ⟨hsame, hne⟩ := ht.page_of_live hb
      rw [hpage, update_of_ne hne, hsame]
      exact h.order b hb
  · have hne : q ≠ p := by
      rintro rfl
      exact hq.ne' (ht.inv.disjoint_head (b := ⟨q, order⟩) (Block.contains_base _))
    rw [hpage, update_of_ne hne, ht.page q hq]
  · obtain ⟨-, -, -, -, hr, hm⟩ := ht.frame.page q
    rw [hpage, update_of_ne hq]
    exact ⟨hr, hm⟩
  · subst hu
    cases hg : gfp.zero <;> simp [markAllocated, memset, Bytes.fill, ht.frame.mem, hg]
  · have h₁ := (hfree .dma32).1
    have h₂ := (hfree .normal).1
    cases z <;> simp at h₁ h₂ <;> omega

lemma allocZones_spec (zs : List ZoneId) (h : Good s live) (ho : order < maxOrder) :
    (∃ p t, allocZones zs s order gfp = (some p, t) ∧ Allocated s t live p order gfp) ∨
      (allocZones zs s order gfp = (none, s) ∧
        ∀ z ∈ zs, ∀ o, order ≤ o → o < maxOrder → s.list z o = []) := by
  induction zs with
  | nil => exact .inr ⟨rfl, by simp⟩
  | cons z zs ih =>
    rw [allocZones]
    rcases buddyAlloc_spec (z := z) h.inv ho with ⟨p, t, hr, ht⟩ | ⟨hr, he⟩
    · exact .inl ⟨p, _, by rw [hr], ht.allocated h⟩
    · rw [hr]
      rcases ih with hi | ⟨hi, he'⟩
      · exact .inl hi
      · refine .inr ⟨hi, fun y hy => ?_⟩
        rcases List.mem_cons.1 hy with rfl | hy
        · exact he
        · exact he' y hy

theorem allocPages_spec (order : ℕ) (gfp : Gfp) (h : Good s live) :
    (∃ p t, s.allocPages order gfp = (some p, t) ∧ Allocated s t live p order gfp) ∨
      (s.allocPages order gfp = (none, s) ∧
        ∀ z ∈ zonesFor gfp, ∀ o, order ≤ o → o < maxOrder → s.list z o = []) := by
  rw [allocPages]
  split
  · exact .inr ⟨rfl, fun _ _ o _ _ => by omega⟩
  · exact allocZones_spec _ h (by omega)

structure Freed (s t : Pmm) (live : List Block) (b : Block) : Prop where
  good : Good t (live.erase b)
  maxPfn : t.maxPfn = s.maxPfn
  mem : t.mem = s.mem
  page : ∀ q, 0 < coverage (live.erase b) q → t.page q = s.page q
  reserved : ∀ q, (t.page q).reserved = (s.page q).reserved
  counts : ∀ q, (t.page q).refcount = (if q = b.base then 0 else (s.page q).refcount) ∧
    (t.page q).mapcount = (s.page q).mapcount

lemma Inv.perm {l₁ l₂ : List Block} (hp : l₁.Perm l₂) (h : Inv s l₁) : Inv s l₂ :=
  ⟨h.layout, fun q => by rw [← h.cover q, coverage, coverage, coverage, hp.countP_eq], h.free,
    h.listed, fun b hb => h.held b (hp.mem_iff.2 hb), h.counts, h.merged⟩

lemma Inv.managed_of_held (h : Inv s live) {b : Block} (hb : b ∈ live) {q : ℕ} (hq : b.Contains q) :
    s.Managed q := by
  by_contra hm
  have hcover := h.cover q
  have hpos := coverage_pos_of_mem hb hq
  rw [if_neg hm] at hcover
  omega

lemma Inv.apart_erase (h : Inv s live) {b : Block} (hb : b ∈ live) {a : Block}
    (ha : a ∈ live.erase b) : b.Apart a := by
  rintro q ⟨hbq, haq⟩
  have herase := coverage_erase hb q
  have hpos := coverage_pos_of_mem ha haq
  have hle := h.cover_le q
  rw [if_pos hbq] at herase
  omega

theorem freePages_spec (h : Good s live) {b : Block} (hb : b ∈ live) :
    ∃ t, s.freePages b.base b.order = .ok t ∧ Freed s t live b := by
  have hpos : 0 < coverage live b.base := coverage_pos_of_mem hb b.contains_base
  have hman : s.Managed b.base := h.inv.managed_of_held hb b.contains_base
  have hnb := h.inv.not_buddy hpos
  obtain ⟨_, hal, hin⟩ := h.inv.held b hb
  have hmod : b.base % 2 ^ b.order = 0 := Nat.mod_eq_zero_of_dvd hal
  have hord := h.order b hb
  have hinv : Inv s (b :: live.erase b) := h.inv.perm (List.perm_cons_erase hb)
  let u := s.setPage b.base fun g =>
    { g with head := false, slab := false, refcount := 0, cache := none }
  have hu : ∀ q, q ≠ b.base → u.page q = s.page q := fun q hq => by simp [u, hq]
  have hharm : Harmless s u := setPage_harmless _ (fun _ => ⟨rfl, rfl⟩) fun _ => rfl
  have hrel : Released u (u.buddyFree (pfnZone b.base) b.base b.order) (live.erase b)
      (pfnZone b.base) (2 ^ b.order) := buddyFree_released (hharm.inv hinv) rfl
  let v := u.buddyFree (pfnZone b.base) b.base b.order
  let w := v.setZone (pfnZone b.base) fun a => { a with freePages := a.freePages + 2 ^ b.order }
  have hw : Harmless v w := setZone_harmless _ fun _ => ⟨rfl, rfl, rfl⟩
  have hfar : ∀ q, 0 < coverage (live.erase b) q → q ≠ b.base := by
    rintro q hq rfl
    exact hq.ne' (hinv.disjoint_head b.contains_base)
  refine ⟨w, ?_, ⟨hw.inv hrel.inv, fun y => ?_, fun c hc => ?_⟩, hrel.frame.maxPfn,
    hrel.frame.mem, fun q hq => ?_, fun q => ?_, fun q => ?_⟩
  · rw [freePages, if_neg (by have := hman.1; omega), if_neg (by simp [hman.2]), if_neg (by simp [hnb]),
      if_neg (by simp [hmod]), if_neg (by simp [hord])]
  · have hz : (w.zone y).freePages =
        (v.zone y).freePages + if y = pfnZone b.base then 2 ^ b.order else 0 := by
      by_cases hy : y = pfnZone b.base
      · subst hy; simp [w]
      · simp [w, hy]
    rw [hz, hw.listedPages, hrel.listed y, (hrel.frame.zones y).2.2, hharm.listedPages, ← h.pages y]
    rfl
  · have hc' : 0 < coverage (live.erase b) c.base := coverage_pos_of_mem hc c.contains_base
    have : w.page c.base = u.page c.base := hrel.page _ hc'
    rw [this, hu _ (hfar _ hc')]
    exact h.order c (List.mem_of_mem_erase hc)
  · exact (hrel.page q hq).trans (hu q (hfar q hq))
  · exact (hrel.frame.page q).1.trans (hharm.reserved q)
  · obtain ⟨_, _, _, _, h₁, h₂⟩ := hrel.frame.page q
    by_cases hq : q = b.base
    · subst hq
      rw [if_pos rfl]
      exact ⟨h₁.trans (by simp [u]), h₂.trans (by simp [u])⟩
    · rw [hu q hq] at h₁ h₂
      rw [if_neg hq]
      exact ⟨h₁, h₂⟩

lemma allocPages_empty (h : Good s live) (hempty : ∀ z o, o < maxOrder → s.list z o = []) :
    s.allocPages order gfp = (none, s) := by
  rcases allocPages_spec order gfp h with ⟨p, t, hr, ha⟩ | ⟨hr, -⟩
  · have hpos : 0 < coverage live p := by
      have hman : s.Managed p := by
        have hnew := ha.good.inv.managed_of_held List.mem_cons_self (Block.contains_base ⟨p, order⟩)
        rwa [Managed, ha.maxPfn, ha.reserved] at hnew
      have hfree : s.freeBlocks = [] := by
        refine List.eq_nil_iff_forall_not_mem.2 fun b hb => ?_
        obtain ⟨ho, z, hz⟩ := mem_freeBlocks.1 hb
        rw [hempty z b.order ho] at hz
        cases hz
      have hcover := h.inv.cover p
      rw [hfree, if_pos hman, coverage_nil] at hcover
      omega
    exact absurd (ha.good.inv.disjoint_head (Block.contains_base ⟨p, order⟩)) hpos.ne'
  · exact hr

end Calls

section Flags

variable {s t : Pmm} {z : ZoneId} {p q order : ℕ} {gfp : Gfp}

lemma coalesce_frame (n : ℕ) : Frame s (coalesce n s z p order) := by
  induction n generalizing s p order with
  | zero => exact addFree_frame
  | succ n ih =>
    rw [coalesce]
    split
    · exact delFree_frame.trans ih
    · exact addFree_frame

lemma buddyFree_frame (z : ZoneId) (p order : ℕ) : Frame s (s.buddyFree z p order) := coalesce_frame _

lemma buddyFree_alone (h : s.mergeable z p order ≠ true) : s.buddyFree z p order = s.addFree z p order := by
  rw [buddyFree]
  cases maxOrder - 1 - order with
  | zero => rfl
  | succ n => rw [coalesce, if_neg h]

lemma split_frame (d : ℕ) : Frame s (split d s z p order) := by
  induction d generalizing s with
  | zero => exact .refl s
  | succ d ih => exact addFree_frame.trans ih

lemma allocFrom_frame (n d : ℕ) : Frame s (allocFrom n d s z order).2 := by
  induction n generalizing d with
  | zero => exact .refl s
  | succ n ih =>
    rw [allocFrom]
    split
    · exact ih (d + 1)
    · exact delFree_frame.trans (split_frame d)

lemma markAllocated_flags : ((s.markAllocated z p order gfp).page q).head =
    (if q = p then true else (s.page q).head) ∧
    ((s.markAllocated z p order gfp).page q).slab = (s.page q).slab := by
  rw [markAllocated]
  split <;> by_cases hq : q = p <;> simp [hq]

lemma allocZones_flags (zs : List ZoneId) (h : allocZones zs s order gfp = (some p, t)) :
    (t.page q).head = (if q = p then true else (s.page q).head) ∧ (t.page q).slab = (s.page q).slab := by
  induction zs generalizing s with
  | nil => cases h
  | cons z zs ih =>
    have hframe : Frame s (s.buddyAlloc z order).2 := allocFrom_frame _ _
    rw [allocZones] at h
    split at h
    · rename_i u hu
      rw [hu] at hframe
      obtain ⟨-, hhead, hslab, -⟩ := hframe.page q
      rw [← hhead, ← hslab]
      exact ih h
    · rename_i p' u hu
      rw [hu] at hframe
      obtain ⟨hp, rfl⟩ := Prod.mk.inj h
      cases hp
      obtain ⟨-, hhead, hslab, -⟩ := hframe.page q
      rw [← hhead, ← hslab]
      exact markAllocated_flags

lemma allocPages_flags (h : s.allocPages order gfp = (some p, t)) :
    (t.page q).head = (if q = p then true else (s.page q).head) ∧ (t.page q).slab = (s.page q).slab := by
  rw [allocPages] at h
  split at h
  · cases h
  · exact allocZones_flags _ h

lemma freePages_flags (h : s.freePages p order = .ok t) :
    (t.page q).head = (if q = p then false else (s.page q).head) ∧
      (t.page q).slab = if q = p then false else (s.page q).slab := by
  simp only [freePages] at h
  split_ifs at h
  cases h
  let u := s.setPage p fun g => { g with head := false, slab := false, refcount := 0, cache := none }
  obtain ⟨-, hhead, hslab, -⟩ := (buddyFree_frame (s := u) (pfnZone p) p order).page q
  rw [setZone_page, hhead, hslab]
  by_cases hq : q = p <;> simp [u, hq]

end Flags

end MyOS.Memory.Pmm
