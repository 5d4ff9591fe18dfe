import MyOS.Memory.BuddyRuns
import MyOS.Memory.Slab

/-! The invariant of one slab and of a cache. -/

namespace MyOS.Memory

open Library Library.Dyadic Library.Bytes

structure Shape where
  stride : ℕ
  order : ℕ
  objs : ℕ

structure Shape.Sound (w : Shape) : Prop where
  stride : minObj + redzone ≤ w.stride
  objs : 0 < w.objs
  fit : w.objs * w.stride ≤ pageSize * 2 ^ w.order
  order : w.order ≤ 3

def KmemCache.shape (c : KmemCache) : Shape := ⟨c.stride, c.order, c.objsPerSlab⟩

def Shape.phys (w : Shape) (p i : ℕ) : ℕ := pageToPhys p + i * w.stride
def Shape.addr (w : Shape) (p i : ℕ) : ℕ := pageToVirt p + i * w.stride

def Shape.Covers (w : Shape) (p i x : ℕ) : Prop := w.phys p i ≤ x ∧ x < w.phys p i + w.stride

section Shape

variable {w : Shape} {p i j x : ℕ}

lemma Shape.Sound.inside (hw : w.Sound) (hi : i < w.objs) (hx : w.Covers p i x) :
    pageToPhys p ≤ x ∧ x < pageToPhys (p + 2 ^ w.order) := by
  have hle : (i + 1) * w.stride ≤ w.objs * w.stride := Nat.mul_le_mul_right _ hi
  have := hw.fit
  simp only [Shape.Covers, Shape.phys, pageToPhys, Nat.add_mul, one_mul, Nat.mul_comm pageSize] at *
  omega

lemma Shape.Covers.index_eq (h : w.Covers p i x) (k : w.Covers p j x) : i = j := by
  simp only [Shape.Covers, Shape.phys] at h k
  by_contra hne
  rcases Nat.lt_or_gt_of_ne hne with hlt | hlt
  · have : (i + 1) * w.stride ≤ j * w.stride := Nat.mul_le_mul_right _ hlt
    simp only [Nat.add_mul, one_mul] at this
    omega
  · have : (j + 1) * w.stride ≤ i * w.stride := Nat.mul_le_mul_right _ hlt
    simp only [Nat.add_mul, one_mul] at this
    omega

def Shape.Fits (w : Shape) (p : ℕ) : Prop :=
  pageToPhys (p + 2 ^ w.order) ≤ vmallocStart - hhdmBase

lemma Shape.Sound.phys_bounds (hw : w.Sound) (hi : i < w.objs) :
    pageToPhys p ≤ w.phys p i ∧
      w.phys p i + w.stride ≤ pageToPhys (p + 2 ^ w.order) := by
  have := hw.stride
  have h₁ := hw.inside (p := p) hi (x := w.phys p i) ⟨le_rfl, by simp only [redzone] at *; omega⟩
  have h₂ := hw.inside (p := p) hi (x := w.phys p i + w.stride - 1)
    (by simp only [Shape.Covers, redzone] at *; omega)
  omega

lemma Shape.addr_eq : w.addr p i = w.phys p i + hhdmBase := by
  simp only [Shape.addr, Shape.phys, pageToVirt, physToVirt]
  omega

lemma Shape.Sound.addr_inside (hw : w.Sound) (hi : i < w.objs) :
    pageToVirt p ≤ w.addr p i ∧ w.addr p i + w.stride ≤ pageToVirt p + pageSize * 2 ^ w.order := by
  have h := hw.phys_bounds (p := p) hi
  have hpage : pageToPhys (p + 2 ^ w.order) = pageToPhys p + pageSize * 2 ^ w.order := by
    rw [pageToPhys, pageToPhys, Nat.add_mul, Nat.mul_comm pageSize]
  rw [Shape.addr_eq, pageToVirt, physToVirt]
  omega

lemma Shape.Sound.virtToPhys (hw : w.Sound) (hf : w.Fits p) (hi : i < w.objs) :
    virtToPhys (w.addr p i) = w.phys p i := by
  have h := (hw.phys_bounds (p := p) hi).2
  have : ¬ kernelVma ≤ w.addr p i := by
    rw [Shape.addr_eq]
    simp only [Shape.Fits, vmallocStart, hhdmBase, kernelVma] at *
    omega
  rw [MyOS.Memory.virtToPhys, if_neg this, Shape.addr_eq, Nat.add_sub_cancel]

lemma Shape.Sound.addr_bounds (hw : w.Sound) (hf : w.Fits p) (hi : i < w.objs) :
    0 < w.addr p i ∧ w.addr p i < 2 ^ 64 := by
  have h := (hw.phys_bounds (p := p) hi).2
  rw [Shape.addr_eq]
  simp only [Shape.Fits, vmallocStart, hhdmBase] at *
  omega

lemma Shape.Sound.virtToPage (hw : w.Sound) (hf : w.Fits p) (hi : i < w.objs) :
    p ≤ virtToPage (w.addr p i) ∧ virtToPage (w.addr p i) < p + 2 ^ w.order := by
  have h := hw.phys_bounds (p := p) hi
  have := hw.stride
  rw [MyOS.Memory.virtToPage, hw.virtToPhys hf hi]
  simp only [pageToPhys, pageSize, redzone] at *
  omega

end Shape

namespace Pmm

structure Redzone (s : Pmm) (w : Shape) (a : ℕ) : Prop where
  bytes : ∀ k < redzone, s.mem (a + w.stride - redzone + k) = rzByte

structure FreeObject (s : Pmm) (w : Shape) (a : ℕ) : Prop where
  mark : s.load64 (a + 8) = freeMagic
  poison : ∀ k, 16 ≤ k → k < w.stride - redzone → s.mem (a + k) = poisonFree
  redzone : Redzone s w a

structure UsedObject (s : Pmm) (w : Shape) (a : ℕ) : Prop where
  mark : s.load64 (a + 8) ≠ freeMagic
  redzone : Redzone s w a

def Chain (s : Pmm) (w : Shape) (p : ℕ) : ℕ → List ℕ → Prop
  | ptr, [] => ptr = 0
  | ptr, i :: is => ptr = w.addr p i ∧ Chain s w p (s.load64 (w.phys p i)) is

structure SlabInv (id : ℕ) (s : Pmm) (w : Shape) (p : ℕ) (is : List ℕ) : Prop where
  pages : ∀ q, p ≤ q → q < p + 2 ^ w.order →
    (s.page q).slab = true ∧ (s.page q).cache = some id ∧ (s.page q).slabHead = some p
  inuse : (s.page p).inuse + is.length = w.objs
  nodup : is.Nodup
  bound : ∀ i ∈ is, i < w.objs
  chain : Chain s w p (s.page p).freelist is
  free : ∀ i ∈ is, FreeObject s w (w.phys p i)
  used : ∀ i < w.objs, i ∉ is → UsedObject s w (w.phys p i)

section Objects

variable {s t : Pmm} {w : Shape} {p q i j x : ℕ} {is : List ℕ}

lemma Redzone.congr (hw : w.Sound) (h : Redzone s w (w.phys p i))
    (hm : ∀ x, w.Covers p i x → t.mem x = s.mem x) : Redzone t w (w.phys p i) :=
  ⟨fun k hk => (hm _ ⟨by have := hw.stride; simp only [redzone, minObj] at *; omega,
    by have := hw.stride; simp only [redzone, minObj] at *; omega⟩).trans (h.bytes k hk)⟩

lemma load64_congr {a : ℕ} (hm : ∀ x, a ≤ x → x < a + 8 → t.mem x = s.mem x) :
    t.load64 a = s.load64 a := read_congr hm
lemma load_object_congr (hw : w.Sound) {k : ℕ} (hk : k ≤ 16)
    (hm : ∀ x, w.Covers p i x → t.mem x = s.mem x) :
    t.load64 (w.phys p i + k) = s.load64 (w.phys p i + k) := by
  have := hw.stride
  simp only [redzone, minObj] at this
  exact load64_congr fun x h₁ h₂ => hm x ⟨by omega, by omega⟩

lemma FreeObject.congr (hw : w.Sound) (h : FreeObject s w (w.phys p i))
    (hm : ∀ x, w.Covers p i x → t.mem x = s.mem x) : FreeObject t w (w.phys p i) where
  mark := (load_object_congr hw (by omega) hm).trans h.mark
  poison k h₁ h₂ := (hm _ ⟨by omega, by omega⟩).trans (h.poison k h₁ h₂)
  redzone := h.redzone.congr hw hm

lemma UsedObject.congr (hw : w.Sound) (h : UsedObject s w (w.phys p i))
    (hm : ∀ x, w.Covers p i x → t.mem x = s.mem x) : UsedObject t w (w.phys p i) where
  mark := by
    rw [load_object_congr hw (by omega) hm]
    exact h.mark
  redzone := h.redzone.congr hw hm

lemma Chain.congr (hw : w.Sound) {ptr : ℕ} (h : Chain s w p ptr is)
    (hm : ∀ i ∈ is, ∀ x, w.Covers p i x → t.mem x = s.mem x) : Chain t w p ptr is := by
  induction is generalizing ptr with
  | nil => exact h
  | cons i is ih =>
    obtain ⟨hp, hrest⟩ := h
    have hload := load_object_congr (k := 0) hw (Nat.zero_le _) (hm i List.mem_cons_self)
    rw [add_zero] at hload
    refine ⟨hp, ?_⟩
    rw [hload]
    exact ih hrest fun j hj => hm j (List.mem_cons_of_mem _ hj)

structure Agree (s t : Pmm) (p order : ℕ) : Prop where
  page : ∀ q, p ≤ q → q < p + 2 ^ order → t.page q = s.page q
  mem : ∀ x, pageToPhys p ≤ x → x < pageToPhys (p + 2 ^ order) → t.mem x = s.mem x

lemma SlabInv.congr (hw : w.Sound) {id : ℕ} (h : SlabInv id s w p is) (ha : Agree s t p w.order) :
    SlabInv id t w p is := by
  have hm : ∀ i < w.objs, ∀ x, w.Covers p i x → t.mem x = s.mem x := fun i hi x hx =>
    ha.mem x (hw.inside hi hx).1 (hw.inside hi hx).2
  have hp : t.page p = s.page p := ha.page p le_rfl (Nat.lt_add_of_pos_right (Nat.two_pow_pos _))
  refine ⟨fun q h₁ h₂ => ?_, ?_, h.nodup, h.bound, ?_, fun i hi => ?_, fun i hi hn => ?_⟩
  · rw [ha.page q h₁ h₂]
    exact h.pages q h₁ h₂
  · rw [hp, h.inuse]
  · rw [hp]
    exact h.chain.congr hw fun i hi => hm i (h.bound i hi)
  · exact (h.free i hi).congr hw (hm i (h.bound i hi))
  · exact (h.used i hi hn).congr hw (hm i hi)

end Objects

section MakeFree

variable {s : Pmm} {w : Shape} {c : KmemCache} {p i next : ℕ}

structure MadeFree (s t : Pmm) (w : Shape) (p i next : ℕ) : Prop where
  page : t.page = s.page
  zone : t.zone = s.zone
  maxPfn : t.maxPfn = s.maxPfn
  mem : ∀ x, ¬ w.Covers p i x → t.mem x = s.mem x
  object : FreeObject t w (w.phys p i)
  next : t.load64 (w.phys p i) = next

@[simp] lemma makeFree_page (obj : ℕ) : (s.makeFree c obj next).page = s.page := by
  simp only [makeFree, store64_page, memset_page]

@[simp] lemma makeFree_zone (obj : ℕ) : (s.makeFree c obj next).zone = s.zone := by
  simp only [makeFree, store64_zone, memset_zone]

@[simp] lemma makeFree_maxPfn (obj : ℕ) : (s.makeFree c obj next).maxPfn = s.maxPfn := by
  simp only [makeFree, store64_maxPfn, memset_maxPfn]

lemma makeFree_mem (obj : ℕ) : (s.makeFree c obj next).mem =
    write (write (fill (fill s.mem (virtToPhys obj) c.body poisonFree)
      (virtToPhys obj + c.stride - redzone) redzone rzByte) (virtToPhys obj) 8 next)
      (virtToPhys obj + 8) 8 freeMagic := by
  simp only [makeFree, store64_mem, memset_mem]

lemma body_eq (hw : c.shape.Sound) : c.body = c.stride - redzone := by
  have h₁ : minObj + redzone ≤ c.stride := hw.stride
  have h₂ : c.objsPerSlab * c.stride ≤ pageSize * 2 ^ c.order := hw.fit
  have h₃ : 1 * c.stride ≤ c.objsPerSlab * c.stride := Nat.mul_le_mul_right _ hw.objs
  have h₄ : 2 ^ c.order ≤ 2 ^ 3 := Nat.pow_le_pow_right (by omega) hw.order
  simp only [KmemCache.body, redzone, minObj, pageSize] at *
  omega

lemma makeFree_spec (hw : c.shape.Sound) (hf : c.shape.Fits p) (hi : i < c.objsPerSlab)
    (hn : next < 2 ^ 64) :
    MadeFree s (s.makeFree c (c.shape.addr p i) next) c.shape p i next := by
  have hst : minObj + redzone ≤ c.stride := hw.stride
  have hphys := hw.virtToPhys hf hi
  have hbody := body_eq hw
  generalize ha : c.shape.phys p i = a at hphys
  have hmem : (s.makeFree c (c.shape.addr p i) next).mem = write (write (fill (fill s.mem a
      (c.stride - redzone) poisonFree) (a + c.stride - redzone) redzone rzByte) a 8 next)
      (a + 8) 8 freeMagic := by
    rw [makeFree_mem, hphys, hbody]
  have hload : ∀ b, (s.makeFree c (c.shape.addr p i) next).load64 b = read
      (s.makeFree c (c.shape.addr p i) next).mem b 8 := fun _ => rfl
  have hcov : ∀ x, c.shape.Covers p i x ↔ a ≤ x ∧ x < a + c.stride := fun x => by
    rw [Shape.Covers, ha]
    rfl
  have hstride : c.shape.stride = c.stride := rfl
  simp only [redzone, minObj] at hst hmem
  refine ⟨makeFree_page _, makeFree_zone _, makeFree_maxPfn _, fun x hx => ?_, ⟨?_, fun k h₁ h₂ => ?_, ⟨fun k hk => ?_⟩⟩, ?_⟩
  · rw [hcov] at hx
    rw [hmem, write_of_not_mem (by omega), write_of_not_mem (by omega),
      fill_of_not_mem (by omega), fill_of_not_mem (by omega)]
  · rw [hload, hmem, ha, read_write_self (by norm_num [freeMagic])]
  · simp only [hstride, redzone] at h₂
    rw [hmem, ha, write_of_not_mem (by omega), write_of_not_mem (by omega),
      fill_of_not_mem (by omega), fill_of_mem (by omega)]
  · simp only [redzone] at hk
    rw [hmem, ha, hstride, redzone, write_of_not_mem (by omega), write_of_not_mem (by omega),
      fill_of_mem (by omega)]
  · rw [hload, hmem, ha, read_write_of_disjoint (by omega), read_write_self (by simpa using hn)]

lemma Chain.ptr_lt (hw : w.Sound) (hf : w.Fits p) {ptr : ℕ} {is : List ℕ}
    (h : Chain s w p ptr is) (hb : ∀ i ∈ is, i < w.objs) : ptr < 2 ^ 64 := by
  cases is with
  | nil => exact h ▸ Nat.two_pow_pos 64
  | cons i is => exact h.1 ▸ (hw.addr_bounds hf (hb i List.mem_cons_self)).2

structure Threaded (s t : Pmm) (w : Shape) (p ptr : ℕ) (is : List ℕ) : Prop where
  page : t.page = s.page
  zone : t.zone = s.zone
  maxPfn : t.maxPfn = s.maxPfn
  mem : ∀ x, ¬ (pageToPhys p ≤ x ∧ x < pageToPhys (p + 2 ^ w.order)) → t.mem x = s.mem x
  chain : Chain t w p ptr is
  objects : ∀ i ∈ is, FreeObject t w (w.phys p i)

lemma carve_spec (hw : c.shape.Sound) (hf : c.shape.Fits p) {n : ℕ} (hn : n ≤ c.objsPerSlab)
    {is : List ℕ} (hb : ∀ i ∈ is, n ≤ i ∧ i < c.objsPerSlab) (hch : Chain s c.shape p next is)
    (hfree : ∀ i ∈ is, FreeObject s c.shape (c.shape.phys p i)) :
    Threaded s (carve c (pageToVirt p) n s next).1 c.shape p (carve c (pageToVirt p) n s next).2
      (List.range n ++ is) := by
  induction n generalizing s next is with
  | zero => exact ⟨rfl, rfl, rfl, fun _ _ => rfl, hch, hfree⟩
  | succ n ih =>
    have hlt : n < c.objsPerSlab := hn
    have hmade := makeFree_spec (s := s) hw hf hlt (hch.ptr_lt hw hf fun i hi => (hb i hi).2)
    have hsame : ∀ i ∈ is, ∀ x, c.shape.Covers p i x →
        (s.makeFree c (c.shape.addr p n) next).mem x = s.mem x := fun i hi x hx =>
      hmade.mem x fun hx' => by
        have := hx.index_eq hx'
        have := (hb i hi).1
        omega
    have hstep : Chain (s.makeFree c (c.shape.addr p n) next) c.shape p (c.shape.addr p n)
        (n :: is) := by
      refine ⟨rfl, ?_⟩
      rw [hmade.next]
      exact hch.congr hw hsame
    have hbound : ∀ i ∈ n :: is, n ≤ i ∧ i < c.objsPerSlab := fun i hi => by
      rcases List.mem_cons.1 hi with rfl | hi
      · exact ⟨le_rfl, hlt⟩
      · exact ⟨(Nat.le_succ n).trans (hb i hi).1, (hb i hi).2⟩
    have hrest := ih hlt.le hbound hstep fun i hi => by
      rcases List.mem_cons.1 hi with rfl | hi
      · exact hmade.object
      · exact (hfree i hi).congr hw (hsame i hi)
    rw [List.range_succ, List.append_assoc, List.singleton_append]
    refine ⟨hrest.page.trans hmade.page, hrest.zone.trans hmade.zone,
      hrest.maxPfn.trans hmade.maxPfn, fun x hx => ?_, hrest.chain, hrest.objects⟩
    exact (hrest.mem x hx).trans (hmade.mem x fun hx' => hx (hw.inside hlt hx'))

end MakeFree

section OneSlab

variable {id : ℕ} {s t : Pmm} {w : Shape} {p i : ℕ} {is : List ℕ}

lemma same_object (hm : ∀ x, ¬ w.Covers p i x → t.mem x = s.mem x) {j : ℕ} (hne : j ≠ i) (x : ℕ)
    (hx : w.Covers p j x) : t.mem x = s.mem x :=
  hm x fun hx' => hne (hx.index_eq hx')

structure Touched (s t : Pmm) (w : Shape) (p i : ℕ) : Prop where
  mem : ∀ x, ¬ w.Covers p i x → t.mem x = s.mem x
  page : ∀ q, (t.page q).slab = (s.page q).slab ∧ (t.page q).cache = (s.page q).cache ∧
    (t.page q).slabHead = (s.page q).slabHead
  others : ∀ q, q ≠ p → t.page q = s.page q

lemma Touched.pages (h : SlabInv id s w p is) (ht : Touched s t w p i) (q : ℕ) (h₁ : p ≤ q)
    (h₂ : q < p + 2 ^ w.order) : (t.page q).slab = true ∧ (t.page q).cache = some id ∧
      (t.page q).slabHead = some p := by
  obtain ⟨a, b, d⟩ := ht.page q
  rw [a, b, d]
  exact h.pages q h₁ h₂

lemma SlabInv.take (hw : w.Sound) (h : SlabInv id s w p (i :: is)) (ht : Touched s t w p i)
    (hfl : (t.page p).freelist = s.load64 (w.phys p i))
    (hin : (t.page p).inuse = (s.page p).inuse + 1) (hobj : UsedObject t w (w.phys p i)) :
    SlabInv id t w p is := by
  obtain ⟨hni, hnd⟩ := List.nodup_cons.1 h.nodup
  have hne : ∀ j ∈ is, j ≠ i := fun j hj he => hni (he ▸ hj)
  refine ⟨ht.pages h, ?_, hnd, fun j hj => h.bound j (List.mem_cons_of_mem _ hj), ?_,
    fun j hj => ?_, fun j hj hn => ?_⟩
  · have := h.inuse
    rw [List.length_cons] at this
    omega
  · rw [hfl]
    exact h.chain.2.congr hw fun j hj => same_object ht.mem (hne j hj)
  · exact (h.free j (List.mem_cons_of_mem _ hj)).congr hw (same_object ht.mem (hne j hj))
  · by_cases hji : j = i
    · exact hji ▸ hobj
    · exact (h.used j hj (by simp [hji, hn])).congr hw (same_object ht.mem hji)

lemma SlabInv.put (hw : w.Sound) (h : SlabInv id s w p is) (hi : i < w.objs) (hni : i ∉ is)
    (ht : Touched s t w p i) (hfl : (t.page p).freelist = w.addr p i)
    (hin : (t.page p).inuse = (s.page p).inuse - 1) (hobj : FreeObject t w (w.phys p i))
    (hnext : t.load64 (w.phys p i) = (s.page p).freelist) : SlabInv id t w p (i :: is) := by
  have hne : ∀ j ∈ is, j ≠ i := fun j hj he => hni (he ▸ hj)
  have hlen : (i :: is).length ≤ w.objs := by
    have hsub : (i :: is) ⊆ List.range w.objs := fun j hj => by
      rcases List.mem_cons.1 hj with rfl | hj
      · exact List.mem_range.2 hi
      · exact List.mem_range.2 (h.bound j hj)
    have := (List.subperm_of_subset (List.nodup_cons.2 ⟨hni, h.nodup⟩) hsub).length_le
    rwa [List.length_range] at this
  refine ⟨ht.pages h, ?_, List.nodup_cons.2 ⟨hni, h.nodup⟩, fun j hj => ?_, ⟨hfl, ?_⟩,
    fun j hj => ?_, fun j hj hn => ?_⟩
  · have := h.inuse
    rw [List.length_cons] at hlen ⊢
    omega
  · rcases List.mem_cons.1 hj with rfl | hj
    · exact hi
    · exact h.bound j hj
  · rw [hnext]
    exact h.chain.congr hw fun j hj => same_object ht.mem (hne j hj)
  · rcases List.mem_cons.1 hj with rfl | hj
    · exact hobj
    · exact (h.free j hj).congr hw (same_object ht.mem (hne j hj))
  · obtain ⟨hji, hjs⟩ := List.ne_and_not_mem_of_not_mem_cons hn
    exact (h.used j hj hjs).congr hw (same_object ht.mem hji)

lemma SlabInv.write (hw : w.Sound) (h : SlabInv id s w p is) (hni : i ∉ is)
    (hm : ∀ x, ¬ w.Covers p i x → t.mem x = s.mem x) (hp : t.page = s.page)
    (hobj : UsedObject t w (w.phys p i)) : SlabInv id t w p is := by
  have hne : ∀ j ∈ is, j ≠ i := fun j hj he => hni (he ▸ hj)
  refine ⟨?_, ?_, h.nodup, h.bound, ?_, fun j hj => ?_, fun j hj hn => ?_⟩
  · rw [hp]
    exact h.pages
  · rw [hp, h.inuse]
  · rw [hp]
    exact h.chain.congr hw fun j hj => same_object hm (hne j hj)
  · exact (h.free j hj).congr hw (same_object hm (hne j hj))
  · by_cases hji : j = i
    · exact hji ▸ hobj
    · exact (h.used j hj hn).congr hw (same_object hm hji)

end OneSlab

end Pmm

end MyOS.Memory
