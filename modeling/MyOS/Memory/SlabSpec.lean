import MyOS.Memory.SlabInvariant

/-! What `kmem_cache_alloc` and `kmem_cache_free` do to a cache that satisfies the invariant. -/

namespace MyOS.Memory

open Library Library.Dyadic Library.Sums

namespace KmemCache

variable {c : KmemCache} {p : ℕ}

def slabs (c : KmemCache) : List ℕ := c.partialSlabs ++ c.fullSlabs ++ c.emptySlabs

def blocks (c : KmemCache) : List Block := c.slabs.map fun p => ⟨p, c.order⟩

lemma mem_slabs : p ∈ c.slabs ↔ p ∈ c.partialSlabs ∨ p ∈ c.fullSlabs ∨ p ∈ c.emptySlabs := by
  simp only [slabs, List.mem_append, or_assoc]

lemma slabs_nodup : c.slabs.Nodup ↔ c.partialSlabs.Nodup ∧ c.fullSlabs.Nodup ∧
    c.emptySlabs.Nodup ∧ c.partialSlabs.Disjoint c.fullSlabs ∧
    c.partialSlabs.Disjoint c.emptySlabs ∧ c.fullSlabs.Disjoint c.emptySlabs := by
  simp only [slabs, List.nodup_append', List.disjoint_append_left]
  tauto

lemma listDel_slabs (hn : c.slabs.Nodup) : (c.listDel p).slabs = c.slabs.erase p := by
  obtain ⟨-, -, -, h₁, h₂, h₃⟩ := slabs_nodup.1 hn
  simp only [slabs, listDel, List.append_assoc]
  by_cases hp : p ∈ c.partialSlabs
  · rw [List.erase_append_left _ hp, List.erase_of_not_mem (h₁ hp), List.erase_of_not_mem (h₂ hp)]
  · rw [List.erase_append_right _ hp, List.erase_of_not_mem hp]
    by_cases hf : p ∈ c.fullSlabs
    · rw [List.erase_append_left _ hf, List.erase_of_not_mem (h₃ hf)]
    · rw [List.erase_append_right _ hf, List.erase_of_not_mem hf]

lemma erase_perm (hp : p ∈ c.slabs) : (p :: c.slabs.erase p).Perm c.slabs :=
  (List.perm_cons_erase hp).symm

lemma addPartial_slabs : (c.addPartial p).slabs = p :: c.slabs := rfl

lemma addFull_slabs : (c.addFull p).slabs.Perm (p :: c.slabs) := by
  simp only [slabs, addFull, List.append_assoc, List.cons_append]
  exact List.perm_middle

lemma addEmpty_slabs : (c.addEmpty p).slabs.Perm (p :: c.slabs) := List.perm_middle

end KmemCache

namespace Pmm

structure CacheInv (id : ℕ) (s : Pmm) (c : KmemCache) (others : List Block) (free : ℕ → List ℕ) :
    Prop where
  shape : c.shape.Sound
  ram : s.maxPfn * pageSize ≤ vmallocStart - hhdmBase
  good : Good s (c.blocks ++ others)
  slab : ∀ p ∈ c.slabs, SlabInv id s c.shape p (free p)
  oneEmpty : c.emptySlabs.length ≤ 1
  nrSlabs : c.nrSlabs = c.slabs.length
  active : c.activeObjs = (c.slabs.map fun p => (s.page p).inuse).sum

structure Sorted (c : KmemCache) (free : ℕ → List ℕ) (hole : Option ℕ) : Prop where
  partialSlabs : ∀ p ∈ c.partialSlabs, hole ≠ some p →
    free p ≠ [] ∧ (free p).length < c.objsPerSlab
  fullSlabs : ∀ p ∈ c.fullSlabs, hole ≠ some p → free p = []
  emptySlabs : ∀ p ∈ c.emptySlabs, hole ≠ some p → (free p).length = c.objsPerSlab

def Live (c : KmemCache) (free : ℕ → List ℕ) (a : ℕ) : Prop :=
  ∃ p ∈ c.slabs, ∃ i < c.objsPerSlab, i ∉ free p ∧ a = c.shape.addr p i

structure Within (s t : Pmm) (w : Shape) (p : ℕ) : Prop where
  harmless : Harmless s t
  freePages : ∀ z, (t.zone z).freePages = (s.zone z).freePages
  order : ∀ q, (t.page q).order = (s.page q).order
  page : ∀ q, ¬ (p ≤ q ∧ q < p + 2 ^ w.order) → t.page q = s.page q
  mem : ∀ x, ¬ (pageToPhys p ≤ x ∧ x < pageToPhys (p + 2 ^ w.order)) → t.mem x = s.mem x

/-- What a call on one cache does to the rest: the other blocks stay as they are, and a page gets
or loses the mark of a slab only where the cache gets or loses one. -/
structure Beside (s t : Pmm) (blocks blocks' others : List Block) : Prop where
  maxPfn : t.maxPfn = s.maxPfn
  agree : ∀ b ∈ others, Agree s t b.base b.order
  marked : ∀ q, (t.page q).slab = true → coverage blocks' q = 0 →
    (s.page q).slab = true ∧ coverage blocks q = 0

section Frames

variable {s t u : Pmm} {w : Shape} {p order : ℕ} {b : Block} {blocks blocks' blocks'' others : List Block}

lemma Agree.trans (h : Agree s t p order) (k : Agree t u p order) : Agree s u p order :=
  ⟨fun q h₁ h₂ => (k.page q h₁ h₂).trans (h.page q h₁ h₂), fun x h₁ h₂ => (k.mem x h₁ h₂).trans (h.mem x h₁ h₂)⟩

lemma page_of_byte {x : ℕ} (h : pageToPhys p ≤ x ∧ x < pageToPhys (p + 2 ^ order)) :
    (Block.mk p order).Contains (x / pageSize) := by
  simp only [pageToPhys, pageSize, Block.Contains] at *
  omega

lemma Within.agree (h : Within s t w p) (hfar : ∀ q, b.Contains q → ¬ (Block.mk p w.order).Contains q) :
    Agree s t b.base b.order where
  page q h₁ h₂ := h.page q (hfar q ⟨h₁, h₂⟩)
  mem x h₁ h₂ := h.mem x fun hx => hfar (x / pageSize) (page_of_byte ⟨h₁, h₂⟩) (page_of_byte hx)

lemma Allocated.agree {live : List Block} {gfp : Gfp} (h : Allocated s t live p order gfp) (hb : b ∈ live) :
    Agree s t b.base b.order := by
  have hfar : ∀ q, b.Contains q → ¬ (Block.mk p order).Contains q := fun q hq hpq =>
    ((coverage_pos_of_mem hb hq).ne' (h.good.inv.disjoint_head hpq))
  refine ⟨fun q h₁ h₂ => h.page q (coverage_pos_of_mem hb ⟨h₁, h₂⟩), fun x h₁ h₂ => ?_⟩
  rw [h.mem, if_neg]
  rintro ⟨-, hlo, hhi⟩
  refine hfar (x / pageSize) (page_of_byte ⟨h₁, h₂⟩) (page_of_byte ⟨hlo, ?_⟩)
  rwa [pageToPhys, Nat.add_mul, ← pageToPhys, Nat.mul_comm (2 ^ order)]

lemma Freed.agree {live : List Block} {c : Block} (h : Freed s t live b) (hc : c ∈ live.erase b) :
    Agree s t c.base c.order :=
  ⟨fun q h₁ h₂ => h.page q (coverage_pos_of_mem hc ⟨h₁, h₂⟩), fun x _ _ => by rw [h.mem]⟩

lemma Beside.refl (s : Pmm) (blocks others : List Block) : Beside s s blocks blocks others :=
  ⟨rfl, fun _ _ => ⟨fun _ _ _ => rfl, fun _ _ _ => rfl⟩, fun _ h h' => ⟨h, h'⟩⟩

lemma Beside.trans (h : Beside s t blocks blocks' others) (k : Beside t u blocks' blocks'' others) :
    Beside s u blocks blocks'' others where
  maxPfn := k.maxPfn.trans h.maxPfn
  agree b hb := (h.agree b hb).trans (k.agree b hb)
  marked q hq hc := by
    obtain ⟨hq', hc'⟩ := k.marked q hq hc
    exact h.marked q hq' hc'

lemma Beside.perm (h : Beside s t blocks blocks' others) (hp : blocks''.Perm blocks') :
    Beside s t blocks blocks'' others where
  maxPfn := h.maxPfn
  agree := h.agree
  marked q hq hc := h.marked q hq (by rwa [coverage, ← hp.countP_eq])

end Frames

section Cache

variable {id : ℕ} {s t : Pmm} {c c' : KmemCache} {others : List Block} {free : ℕ → List ℕ}
  {p q i j : ℕ} {is : List ℕ}

lemma Good.of_harmless {live : List Block} (h : Good s live) (hh : Harmless s t)
    (hf : ∀ z, (t.zone z).freePages = (s.zone z).freePages)
    (ho : ∀ q, (t.page q).order = (s.page q).order) : Good t live where
  inv := hh.inv h.inv
  pages z := by rw [hf, hh.listedPages, h.pages]
  order b hb := (ho _).trans (h.order b hb)

lemma Good.perm {l₁ l₂ : List Block} (hp : l₁.Perm l₂) (h : Good s l₁) : Good s l₂ :=
  ⟨h.inv.perm hp, h.pages, fun b hb => h.order b (hp.mem_iff.2 hb)⟩

lemma Inv.held_apart {held : List Block} (h : Inv s held) : held.Pairwise Block.Apart :=
  pairwise_apart fun q => (Nat.le_add_left _ _).trans (h.cover_le q)

lemma Inv.held_nodup {held : List Block} (h : Inv s held) : held.Nodup := by
  refine h.held_apart.imp ?_
  rintro b _ hbc rfl
  exact hbc b.base ⟨b.contains_base, b.contains_base⟩

lemma Inv.held_below {held : List Block} (h : Inv s held) {b : Block} (hb : b ∈ held) :
    b.base + 2 ^ b.order ≤ s.maxPfn := by
  have hpos := Nat.two_pow_pos b.order
  have hlast : b.Contains (b.base + 2 ^ b.order - 1) := by
    simp only [Block.Contains]
    omega
  have := (h.managed_of_held hb hlast).1
  omega

section Geometry

variable (h : CacheInv id s c others free)

include h

lemma CacheInv.nodup : c.slabs.Nodup := by
  have := (List.nodup_append'.1 h.good.inv.held_nodup).1
  exact List.Nodup.of_map _ this

lemma CacheInv.apart (hp : p ∈ c.slabs) (hq : q ∈ c.slabs) (hne : p ≠ q) (x : ℕ) :
    ¬ ((p ≤ x ∧ x < p + 2 ^ c.order) ∧ q ≤ x ∧ x < q + 2 ^ c.order) := by
  have hpw := (List.pairwise_append.1 h.good.inv.held_apart).1
  have hsymm : Std.Symm Block.Apart := ⟨fun b d hbd x hx => hbd x hx.symm⟩
  have := hpw.forall (List.mem_map_of_mem hp) (List.mem_map_of_mem hq)
    (fun he => hne (congrArg Block.base he))
  exact this x

lemma CacheInv.fits (hp : p ∈ c.slabs) : c.shape.Fits p :=
  (Nat.mul_le_mul_right _ (h.good.inv.held_below
    (List.mem_append_left _ (List.mem_map_of_mem hp)))).trans h.ram

lemma CacheInv.addr_inj (hp : p ∈ c.slabs) (hq : q ∈ c.slabs) (hi : i < c.objsPerSlab)
    (hj : j < c.objsPerSlab) (he : c.shape.addr p i = c.shape.addr q j) : p = q ∧ i = j := by
  have hpi := h.shape.virtToPage (h.fits hp) hi
  have hqj := h.shape.virtToPage (h.fits hq) hj
  rw [he] at hpi
  by_cases hne : p = q
  · subst hne
    rw [Shape.addr_eq, Shape.addr_eq, Nat.add_right_cancel_iff] at he
    have hst := h.shape.stride
    have hx : c.shape.Covers p i (c.shape.phys p i) := ⟨le_rfl, by simp only [redzone] at hst; omega⟩
    exact ⟨rfl, hx.index_eq ⟨he.symm.le, by simp only [redzone] at hst; omega⟩⟩
  · exact absurd ⟨hpi, hqj⟩ (h.apart hp hq hne _)

end Geometry

lemma blocks_perm (hp : c'.slabs.Perm c.slabs) (hs : c'.shape = c.shape) : c'.blocks.Perm c.blocks := by
  have ho : c'.order = c.order := congrArg Shape.order hs
  rw [KmemCache.blocks, KmemCache.blocks, ho]
  exact hp.map _

lemma CacheInv.relist (h : CacheInv id s c others free) (hp : c'.slabs.Perm c.slabs)
    (hs : c'.shape = c.shape) (hn : c'.nrSlabs = c.nrSlabs) (ha : c'.activeObjs = c.activeObjs)
    (he : c'.emptySlabs.length ≤ 1) : CacheInv id s c' others free where
  shape := hs ▸ h.shape
  ram := h.ram
  good := h.good.perm (List.Perm.append_right _ (blocks_perm hp hs).symm)
  slab q hq := hs ▸ h.slab q (hp.mem_iff.1 hq)
  oneEmpty := he
  nrSlabs := by rw [hn, h.nrSlabs, hp.length_eq]
  active := by rw [ha, h.active, (hp.map _).sum_eq]

lemma CacheInv.beside (h : CacheInv id s c others free) (hp : p ∈ c.slabs) (hl : Within s t c.shape p) :
    Beside s t c.blocks c.blocks others where
  maxPfn := hl.harmless.maxPfn
  agree b hb := hl.agree fun q hq hpq =>
    (List.pairwise_append.1 h.good.inv.held_apart).2.2 _ (List.mem_map_of_mem hp) b hb q ⟨hpq, hq⟩
  marked q hq hc := by
    have hfar : ¬ (Block.mk p c.order).Contains q := fun hpq =>
      (coverage_pos_of_mem (List.mem_map_of_mem hp : Block.mk p c.order ∈ c.blocks) hpq).ne' hc
    exact ⟨by rwa [hl.page q hfar] at hq, hc⟩

lemma CacheInv.within (h : CacheInv id s c others free) (hp : p ∈ c.slabs)
    (hl : Within s t c.shape p) (hs : SlabInv id t c.shape p is) {a b d : ℕ}
    (ha : a + (s.page p).inuse = c.activeObjs + (t.page p).inuse) :
    CacheInv id t { c with activeObjs := a, allocs := b, frees := d } others
      (Function.update free p is) where
  shape := h.shape
  ram := hl.harmless.maxPfn ▸ h.ram
  good := h.good.of_harmless hl.harmless hl.freePages hl.order
  slab q hq := by
    by_cases hqp : q = p
    · subst hqp
      rw [Function.update_self]
      exact hs
    · rw [Function.update_of_ne hqp]
      have hfar := h.apart hp hq (Ne.symm hqp)
      have hagree : Agree s t q c.order := hl.agree (b := ⟨q, c.order⟩) fun r hr hpr => hfar r ⟨hpr, hr⟩
      exact (h.slab q hq).congr h.shape hagree
  oneEmpty := h.oneEmpty
  nrSlabs := h.nrSlabs
  active := by
    have hup := sum_map_update h.nodup hp (f := fun q => (s.page q).inuse)
      (g := fun q => (t.page q).inuse) fun q hq hne => by
        have hfar := h.apart hp hq (Ne.symm hne) q
        have hpos := Nat.two_pow_pos c.order
        rw [hl.page q fun hr => hfar ⟨hr, le_rfl, Nat.lt_add_of_pos_right hpos⟩]
    have := h.active
    change a = (c.slabs.map fun q => (t.page q).inuse).sum
    omega

end Cache

section Lists

variable {id : ℕ} {s : Pmm} {c : KmemCache} {others : List Block} {free : ℕ → List ℕ}
  {p : ℕ} {is : List ℕ}

lemma Sorted.update {hole : Option ℕ} (h : Sorted c free hole) (p : ℕ) (is : List ℕ) (hp : hole = none ∨ hole = some p) :
    Sorted c (Function.update free p is) (some p) := by
  have hne : ∀ q, some p ≠ some q → Function.update free p is q = free q ∧ hole ≠ some q := by
    intro q hq
    refine ⟨Function.update_of_ne (fun he => hq (congrArg some he.symm)) _ _, ?_⟩
    rcases hp with rfl | rfl
    · exact nofun
    · exact hq
  refine ⟨fun q hq hpq => ?_, fun q hq hpq => ?_, fun q hq hpq => ?_⟩
  all_goals rw [(hne q hpq).1]
  · exact h.partialSlabs q hq (hne q hpq).2
  · exact h.fullSlabs q hq (hne q hpq).2
  · exact h.emptySlabs q hq (hne q hpq).2

lemma Sorted.listDel (h : Sorted c free (some p)) (hn : c.slabs.Nodup) :
    Sorted (c.listDel p) free none := by
  obtain ⟨h₁, h₂, h₃, -⟩ := KmemCache.slabs_nodup.1 hn
  have hne : ∀ {q}, q ≠ p → some p ≠ some q := fun hq he => hq (Option.some.inj he).symm
  refine ⟨fun q hq _ => ?_, fun q hq _ => ?_, fun q hq _ => ?_⟩
  · obtain ⟨hqp, hq⟩ := h₁.mem_erase_iff.1 hq
    exact h.partialSlabs q hq (hne hqp)
  · obtain ⟨hqp, hq⟩ := h₂.mem_erase_iff.1 hq
    exact h.fullSlabs q hq (hne hqp)
  · obtain ⟨hqp, hq⟩ := h₃.mem_erase_iff.1 hq
    exact h.emptySlabs q hq (hne hqp)

lemma Sorted.addPartial_hole (h : Sorted c free none) : Sorted (c.addPartial p) free (some p) := by
  refine ⟨fun q hq hpq => ?_, fun q hq _ => h.fullSlabs q hq nofun,
    fun q hq _ => h.emptySlabs q hq nofun⟩
  rcases List.mem_cons.1 hq with rfl | hq
  · exact absurd rfl hpq
  · exact h.partialSlabs q hq nofun

lemma Sorted.addFull (h : Sorted c free none) (hp : free p = []) :
    Sorted (c.addFull p) free none := by
  refine ⟨h.partialSlabs, fun q hq _ => ?_, h.emptySlabs⟩
  rcases List.mem_cons.1 hq with rfl | hq
  · exact hp
  · exact h.fullSlabs q hq nofun

lemma Sorted.addEmpty (h : Sorted c free none) (hp : (free p).length = c.objsPerSlab) :
    Sorted (c.addEmpty p) free none := by
  refine ⟨h.partialSlabs, h.fullSlabs, fun q hq _ => ?_⟩
  rcases List.mem_cons.1 hq with rfl | hq
  · exact hp
  · exact h.emptySlabs q hq nofun

lemma Sorted.close (h : Sorted c free (some p)) (hn : c.slabs.Nodup) (hp : p ∈ c.partialSlabs)
    (hne : free p ≠ []) (hlt : (free p).length < c.objsPerSlab) : Sorted c free none := by
  obtain ⟨-, -, -, h₁, h₂, -⟩ := KmemCache.slabs_nodup.1 hn
  refine ⟨fun q hq _ => ?_, fun q hq _ => h.fullSlabs q hq ?_, fun q hq _ => h.emptySlabs q hq ?_⟩
  · by_cases hqp : q = p
    · exact hqp ▸ ⟨hne, hlt⟩
    · exact h.partialSlabs q hq fun he => hqp (Option.some.inj he).symm
  · rintro ⟨⟩
    exact h₁ hp hq
  · rintro ⟨⟩
    exact h₂ hp hq

lemma CacheInv.moveTo (h : CacheInv id s c others free) (hp : p ∈ c.slabs) {c' : KmemCache}
    (hl : c'.slabs.Perm (p :: (c.listDel p).slabs)) (hs : c'.shape = c.shape)
    (hn : c'.nrSlabs = c.nrSlabs) (ha : c'.activeObjs = c.activeObjs)
    (he : c'.emptySlabs.length ≤ 1) : CacheInv id s c' others free := by
  refine h.relist (hl.trans ?_) hs hn ha he
  rw [KmemCache.listDel_slabs h.nodup]
  exact KmemCache.erase_perm hp

lemma CacheInv.listDel_empty (h : CacheInv id s c others free) :
    (c.listDel p).emptySlabs.length ≤ 1 :=
  (List.length_erase_le (l := c.emptySlabs)).trans h.oneEmpty

end Lists

end Pmm

end MyOS.Memory
