import MyOS.Memory.SlabRuns

/-! `kmalloc`, `kzalloc`, `kfree` and `ksize`: twelve caches, and whole pages for larger sizes. -/

namespace MyOS.Memory

def kmallocMax : ℕ := 8192

def kmallocSizes : List ℕ := [16, 32, 64, 96, 128, 192, 256, 512, 1024, 2048, 4096, 8192]

def pagesToOrderLoop (n : ℕ) : ℕ → ℕ → ℕ
  | 0, order => order
  | rounds + 1, order => if 2 ^ order < n then pagesToOrderLoop n rounds (order + 1) else order

def pagesToOrder (n : ℕ) : ℕ := pagesToOrderLoop n 64 0

inductive OrderSearch (n : ℕ) : ℕ → ℕ → Prop
  | stop {order} (h : n ≤ 2 ^ order) : OrderSearch n order order
  | next {order r} (h : 2 ^ order < n) (hr : OrderSearch n (order + 1) r) : OrderSearch n order r

section Orders

variable {n order rounds r : ℕ}

lemma pagesToOrderLoop_search (h : n ≤ 2 ^ (order + rounds)) :
    OrderSearch n order (pagesToOrderLoop n rounds order) := by
  induction rounds generalizing order with
  | zero => exact .stop h
  | succ rounds ih =>
    rw [pagesToOrderLoop]
    split
    · rename_i hlt
      exact .next hlt (ih (by rwa [Nat.add_right_comm, Nat.add_assoc]))
    · rename_i hge
      exact .stop (not_lt.1 hge)

lemma pagesToOrder_search (h : n ≤ 2 ^ 64) : OrderSearch n 0 (pagesToOrder n) :=
  pagesToOrderLoop_search (by rwa [Nat.zero_add])

lemma OrderSearch.le_pow (h : OrderSearch n order r) : n ≤ 2 ^ r := by
  induction h with
  | stop h => exact h
  | next _ _ ih => exact ih

end Orders

structure Kernel where
  pmm : Pmm
  cache : ℕ → KmemCache
  largePages : ℕ := 0
  largeBytes : ℕ := 0
  largeAllocs : ℕ := 0
  largeFrees : ℕ := 0

inductive KfreePanic
  | outsideDirectMap
  | notAllocated
  | slab (e : SlabPanic)
  | pages (e : Panic)
  deriving DecidableEq, Repr

def kmallocIndex (size : ℕ) : Option ℕ :=
  if size ≤ kmallocMax then kmallocSizes.findIdx? fun c => decide (size ≤ c) else none

def kmallocOrder (size : ℕ) : ℕ := pagesToOrder ((size + pageSize - 1) % 2 ^ 64 / pageSize)

namespace Kernel

def cacheAlloc (k : Kernel) (i : ℕ) : Except SlabPanic (Option ℕ × Kernel) :=
  match Pmm.kmemCacheAlloc i k.pmm (k.cache i) with
  | .error e => .error e
  | .ok (a, s, c) => .ok (a, { k with pmm := s, cache := Function.update k.cache i c })

def cacheFree (k : Kernel) (i ptr : ℕ) : Except SlabPanic Kernel :=
  match Pmm.kmemCacheFree i k.pmm (k.cache i) ptr with
  | .error e => .error e
  | .ok (s, c) => .ok { k with pmm := s, cache := Function.update k.cache i c }

def largeAlloc (k : Kernel) (size : ℕ) : Option ℕ × Kernel :=
  let order := kmallocOrder size
  match k.pmm.allocPages order {} with
  | (none, s) => (none, { k with pmm := s })
  | (some p, s) => (some (pageToVirt p), { k with
      pmm := s.setPage p fun g => { g with inuse := min size (2 ^ 32 - 1) }
      largePages := (k.largePages + 2 ^ order) % 2 ^ 64
      largeBytes := (k.largeBytes + pageSize * 2 ^ order) % 2 ^ 64
      largeAllocs := (k.largeAllocs + 1) % 2 ^ 64 })

def kmalloc (k : Kernel) (size : ℕ) : Except SlabPanic (Option ℕ × Kernel) :=
  if size = 0 then .ok (none, k)
  else match kmallocIndex size with
    | some i => k.cacheAlloc i
    | none => .ok (k.largeAlloc size)

def kzalloc (k : Kernel) (size : ℕ) : Except SlabPanic (Option ℕ × Kernel) :=
  match k.kmalloc size with
  | .error e => .error e
  | .ok (none, k) => .ok (none, k)
  | .ok (some p, k) => .ok (some p, { k with pmm := k.pmm.memset (virtToPhys p) size 0 })

def largeFree (k : Kernel) (p : ℕ) : Except KfreePanic Kernel :=
  let order := (k.pmm.page p).order
  match k.pmm.freePages p order with
  | .error e => .error (.pages e)
  | .ok s => .ok { k with
      pmm := s
      largePages := (k.largePages + 2 ^ 64 - 2 ^ order) % 2 ^ 64
      largeBytes := (k.largeBytes + 2 ^ 64 - pageSize * 2 ^ order) % 2 ^ 64
      largeFrees := (k.largeFrees + 1) % 2 ^ 64 }

def kfree (k : Kernel) (ptr : ℕ) : Except KfreePanic Kernel :=
  if ptr = 0 then .ok k
  else if ptr < hhdmBase ∨ vmallocStart ≤ ptr then .error .outsideDirectMap
  else
    let pg := k.pmm.page (virtToPage ptr)
    match pg.slab, pg.cache with
    | true, none => .error (.slab .wrongCache)
    | true, some i =>
      match k.cacheFree i ptr with
      | .error e => .error (.slab e)
      | .ok k => .ok k
    | false, _ =>
      if pg.head = false ∨ ptr % pageSize ≠ 0 then .error .notAllocated
      else k.largeFree (virtToPage ptr)

def ksize (k : Kernel) (ptr : ℕ) : ℕ :=
  let pg := k.pmm.page (virtToPage ptr)
  match pg.slab, pg.cache with
  | true, some i => (k.cache i).size
  | true, none => 0
  | false, _ => pageSize * 2 ^ pg.order

end Kernel

end MyOS.Memory

/-! What the kernel has allocated, and how the twelve caches and the pages account for it. -/

namespace MyOS.Memory

open Library Library.Dyadic Function

inductive Home
  | object (cache : ℕ)
  | pages (b : Block)
  deriving DecidableEq, Repr

structure Allocation where
  addr : ℕ
  size : ℕ
  home : Home
  deriving DecidableEq, Repr

def Home.blocks : Home → List Block
  | .object _ => []
  | .pages b => [b]

def Home.bytes : Home → ℕ
  | .object i => kmallocSizes.getD i 0
  | .pages b => pageSize * 2 ^ b.order

def cacheIds : List ℕ := List.range 12

/-- The kernel with the allocations not yet freed and the blocks of pages of others, the slabs of
other caches among them. -/
structure KernelHeap where
  kernel : Kernel
  live : List Allocation
  others : List Block

lemma nodup_cacheIds : cacheIds.Nodup := List.nodup_range

def Kernel.slabBlocks (k : Kernel) (ids : List ℕ) : List Block := ids.flatMap fun i => (k.cache i).blocks

namespace KernelHeap

def pageBlocks (s : KernelHeap) : List Block := (s.live.flatMap fun x => x.home.blocks) ++ s.others

def beside (s : KernelHeap) (i : ℕ) : List Block := s.kernel.slabBlocks (cacheIds.erase i) ++ s.pageBlocks

def blocks (s : KernelHeap) : List Block := s.kernel.slabBlocks cacheIds ++ s.pageBlocks

def Objects (s : KernelHeap) (i a : ℕ) : Prop := ∃ x ∈ s.live, x.addr = a ∧ x.home = .object i

structure Accounts (s : KernelHeap) : Prop where
  good : s.kernel.pmm.Good s.blocks
  caches : ∀ i ∈ cacheIds, ∃ free, Pmm.Ready i s.kernel.pmm (s.kernel.cache i) (s.beside i) free ∧
    ∀ a, s.Objects i a ↔ Pmm.Live (s.kernel.cache i) free a
  geometry : ∀ i ∈ cacheIds, Geometry (s.kernel.cache i) (kmallocSizes.getD i 0) 8
  homes : ∀ x ∈ s.live, ∀ i, x.home = .object i → i ∈ cacheIds
  pages : ∀ x ∈ s.live, ∀ b, x.home = .pages b →
    x.addr = pageToVirt b.base ∧ (s.kernel.pmm.page b.base).head = true
  once : (s.live.map fun x => (x.addr, x.home)).Nodup
  marked : ∀ q, (s.kernel.pmm.page q).slab = true →
    0 < coverage (s.kernel.slabBlocks cacheIds) q ∨ 0 < coverage s.others q

section Blocks

variable {s : KernelHeap} {k : Kernel} {ids : List ℕ} {i j : ℕ} {c : KmemCache} {b : Block}

lemma slabBlocks_perm (h : i ∈ ids) :
    ((k.cache i).blocks ++ k.slabBlocks (ids.erase i)).Perm (k.slabBlocks ids) :=
  ((List.perm_cons_erase h).flatMap_right fun i => (k.cache i).blocks).symm

lemma beside_perm (h : i ∈ cacheIds) : ((s.kernel.cache i).blocks ++ s.beside i).Perm s.blocks := by
  rw [beside, ← List.append_assoc]
  exact (slabBlocks_perm h).append_right _

lemma slabBlocks_update (hn : ids.Nodup) (hk : k.cache = update s.kernel.cache i c) :
    k.slabBlocks (ids.erase i) = s.kernel.slabBlocks (ids.erase i) := by
  refine List.flatMap_congr fun j hj => ?_
  have hne : j ≠ i := ((hn.mem_erase_iff).1 hj).1
  rw [hk, update_of_ne hne]

lemma mem_slabBlocks (h : i ∈ ids) (hb : b ∈ (k.cache i).blocks) : b ∈ k.slabBlocks ids :=
  List.mem_flatMap.2 ⟨i, h, hb⟩

lemma mem_beside (hj : j ∈ cacheIds) (hne : j ≠ i) (hb : b ∈ (s.kernel.cache j).blocks) :
    b ∈ s.beside i :=
  List.mem_append_left _ (mem_slabBlocks ((List.mem_erase_of_ne hne).2 hj) hb)

lemma live_block {x : Allocation} (hx : x ∈ s.live) (hb : x.home = .pages b) :
    b ∈ s.live.flatMap fun x => x.home.blocks := by
  refine List.mem_flatMap.2 ⟨x, hx, ?_⟩
  rw [hb]
  exact List.mem_singleton_self b

end Blocks

section Steps

variable {s t : KernelHeap} {i : ℕ} {c : KmemCache} {free : ℕ → List ℕ}

lemma Accounts.cacheStep (h : Accounts s) (hi : i ∈ cacheIds) (hk : t.kernel.cache = update s.kernel.cache i c)
    (hothers : t.others = s.others)
    (hblocks : (t.live.flatMap fun x => x.home.blocks) = s.live.flatMap fun x => x.home.blocks)
    (hready : Pmm.Ready i t.kernel.pmm c (s.beside i) free) (hshape : c.shape = (s.kernel.cache i).shape)
    (hsize : c.size = (s.kernel.cache i).size)
    (hbeside : Pmm.Beside s.kernel.pmm t.kernel.pmm (s.kernel.cache i).blocks c.blocks (s.beside i))
    (hobj : ∀ a, t.Objects i a ↔ Pmm.Live c free a) (hsame : ∀ j, j ≠ i → ∀ a, t.Objects j a ↔ s.Objects j a)
    (hlive : ∀ x ∈ t.live, x ∈ s.live ∨ x.home = .object i)
    (honce : (t.live.map fun x => (x.addr, x.home)).Nodup) : Accounts t := by
  have hself : t.kernel.cache i = c := by rw [hk, update_self]
  have hpages : t.pageBlocks = s.pageBlocks := by rw [pageBlocks, pageBlocks, hblocks, hothers]
  have hrest : t.beside i = s.beside i := by
    rw [beside, beside, hpages, slabBlocks_update nodup_cacheIds hk]
  have hperm := beside_perm (s := t) hi
  rw [hself, hrest] at hperm
  have hgood := hready.inv.good.perm hperm
  refine ⟨hgood, fun j hj => ?_, fun j hj => ?_, fun x hx j hj => ?_, fun x hx b hb => ?_, honce, fun q hq => ?_⟩
  · by_cases hji : j = i
    · subst hji
      rw [hself, hrest]
      exact ⟨free, hready, hobj⟩
    · obtain ⟨free', hready', hlive'⟩ := h.caches j hj
      have hj' : t.kernel.cache j = s.kernel.cache j := by rw [hk, update_of_ne hji]
      refine ⟨free', ?_, fun a => by rw [hsame j hji, hlive', hj']⟩
      have hgood' := hgood.perm (beside_perm hj).symm
      rw [hj'] at hgood' ⊢
      exact hready'.foreign hgood' hbeside.maxPfn fun p hp =>
        hbeside.agree ⟨p, _⟩ (mem_beside hj hji (List.mem_map_of_mem hp))
  · by_cases hji : j = i
    · subst hji
      rw [hself]
      exact (h.geometry j hj).congr hshape hsize
    · rw [hk, update_of_ne hji]
      exact h.geometry j hj
  · rcases hlive x hx with hold | hnew
    · exact h.homes x hold j hj
    · rw [hnew] at hj
      cases hj
      exact hi
  · rcases hlive x hx with hold | hnew
    · obtain ⟨haddr, hhead⟩ := h.pages x hold b hb
      have hmem : b ∈ s.beside i := List.mem_append_right _ (List.mem_append_left _ (live_block hold hb))
      rw [(hbeside.agree b hmem).page b.base b.contains_base.1 b.contains_base.2]
      exact ⟨haddr, hhead⟩
    · rw [hnew] at hb
      cases hb
  · have hsplit := coverage_perm (slabBlocks_perm (k := t.kernel) hi) q
    rw [hself, slabBlocks_update nodup_cacheIds hk, coverage_append] at hsplit
    by_cases hc : coverage c.blocks q = 0
    · obtain ⟨hslab, hout⟩ := hbeside.marked q hq hc
      have hsplit' := coverage_perm (slabBlocks_perm (k := s.kernel) hi) q
      rw [coverage_append] at hsplit'
      rw [hothers]
      exact (h.marked q hslab).imp_left fun hpos => by omega
    · exact .inl (by omega)

lemma Accounts.pageStep (h : Accounts s) (hk : t.kernel.cache = s.kernel.cache) (hgood : t.kernel.pmm.Good t.blocks)
    (hmax : t.kernel.pmm.maxPfn = s.kernel.pmm.maxPfn)
    (hagree : ∀ b ∈ s.kernel.slabBlocks cacheIds, s.kernel.pmm.Agree t.kernel.pmm b.base b.order)
    (hsame : ∀ i a, t.Objects i a ↔ s.Objects i a)
    (hpages : ∀ x ∈ t.live, ∀ b, x.home = .pages b →
      x.addr = pageToVirt b.base ∧ (t.kernel.pmm.page b.base).head = true)
    (honce : (t.live.map fun x => (x.addr, x.home)).Nodup)
    (hmarked : ∀ q, (t.kernel.pmm.page q).slab = true →
      0 < coverage (t.kernel.slabBlocks cacheIds) q ∨ 0 < coverage t.others q) : Accounts t := by
  refine ⟨hgood, fun i hi => ?_, fun i hi => hk ▸ h.geometry i hi, fun x hx i hxi => ?_, hpages, honce, hmarked⟩
  · obtain ⟨free, hready, hlive⟩ := h.caches i hi
    have hgood' := hgood.perm (beside_perm hi).symm
    rw [hk] at hgood' ⊢
    exact ⟨free, hready.foreign hgood' hmax fun p hp =>
      hagree ⟨p, _⟩ (mem_slabBlocks hi (List.mem_map_of_mem hp)), fun a => (hsame i a).trans (hlive a)⟩
  · obtain ⟨y, hy, -, hyi⟩ := (hsame i x.addr).1 ⟨x, hx, rfl, hxi⟩
    exact h.homes y hy i hyi

end Steps

section Large

variable {s : KernelHeap} {x : Allocation} {b : Block} {p order n : ℕ} {k : Kernel}

lemma Accounts.ram (h : Accounts s) : s.kernel.pmm.maxPfn * pageSize ≤ vmallocStart - hhdmBase := by
  obtain ⟨free, hready, -⟩ := h.caches 0 (by decide)
  exact hready.inv.ram

lemma virtToPage_pageToVirt (h : p * pageSize ≤ vmallocStart - hhdmBase) : virtToPage (pageToVirt p) = p := by
  have hlow : ¬ kernelVma ≤ p * pageSize + hhdmBase := by
    simp only [vmallocStart, hhdmBase, kernelVma, pageSize] at *
    omega
  rw [virtToPage, pageToVirt, physToVirt, pageToPhys, virtToPhys, if_neg hlow, Nat.add_sub_cancel]
  exact Nat.mul_div_cancel p (by decide)

lemma Accounts.inside (h : Accounts s) (hb : b ∈ s.blocks) : b.base * pageSize < vmallocStart - hhdmBase := by
  have hpos := Nat.two_pow_pos b.order
  have hbelow := h.good.inv.held_below hb
  have hram := h.ram
  have hlt : (b.base + 1) * pageSize ≤ s.kernel.pmm.maxPfn * pageSize := Nat.mul_le_mul_right _ (by omega)
  simp only [pageSize] at *
  omega

lemma Accounts.block_mem (hx : x ∈ s.live) (hb : x.home = .pages b) : b ∈ s.blocks :=
  List.mem_append_right _ (List.mem_append_left _ (live_block hx hb))

lemma Accounts.not_slab (h : Accounts s) (hx : x ∈ s.live) (hb : x.home = .pages b) {q : ℕ} (hq : b.Contains q) :
    (s.kernel.pmm.page q).slab = false := by
  by_contra hne
  have hcover := h.good.inv.cover_le q
  have hpos := coverage_pos_of_mem (live_block hx hb) hq
  have hsplit : coverage s.blocks q = coverage (s.kernel.slabBlocks cacheIds) q +
      (coverage (s.live.flatMap fun x => x.home.blocks) q + coverage s.others q) := by
    rw [blocks, pageBlocks, coverage_append, coverage_append]
  rcases h.marked q (by simpa using hne) with hslab | hothers <;> omega

lemma Accounts.largeAlloc (h : Accounts s) (n : ℕ) : s.kernel.largeAlloc n = (none, s.kernel) ∨
    ∃ p k, s.kernel.largeAlloc n = (some (pageToVirt p), k) ∧
      Accounts ⟨k, ⟨pageToVirt p, n, .pages ⟨p, kmallocOrder n⟩⟩ :: s.live, s.others⟩ := by
  rw [Kernel.largeAlloc]
  generalize kmallocOrder n = order
  rcases Pmm.allocPages_spec order {} h.good with ⟨p, t, hr, hal⟩ | ⟨hr, -⟩
  · right
    let u := t.setPage p fun g => { g with inuse := min n (2 ^ 32 - 1) }
    have hharm : Pmm.Harmless t u := Pmm.setPage_harmless _ (fun _ => ⟨rfl, rfl⟩) fun _ => rfl
    have hne : ∀ q, q ≠ p → u.page q = t.page q := fun q hq => by simp [u, hq]
    have hfresh : ⟨p, order⟩ ∉ s.blocks := (List.nodup_cons.1 hal.good.inv.held_nodup).1
    have hagree : ∀ b ∈ s.blocks, s.kernel.pmm.Agree u b.base b.order := by
      refine fun b hb => ⟨fun q h₁ h₂ => ?_, (hal.agree hb).mem⟩
      have hqp : q ≠ p := by
        rintro rfl
        exact (List.pairwise_cons.1 hal.good.inv.held_apart).1 b hb q ⟨Block.contains_base ⟨q, order⟩, h₁, h₂⟩
      rw [hne q hqp, hal.page q (coverage_pos_of_mem hb ⟨h₁, h₂⟩)]
    have hslab : ∀ q, (u.page q).slab = (s.kernel.pmm.page q).slab := fun q => by
      rw [← (Pmm.allocPages_flags hr).2]
      by_cases hq : q = p
      · subst hq
        simp [u]
      · rw [hne q hq]
    have hgood : u.Good (⟨p, order⟩ :: s.blocks) := hal.good.of_harmless hharm (fun _ => rfl) fun q => by
      by_cases hq : q = p
      · subst hq
        simp [u]
      · rw [hne q hq]
    let k : Kernel := { s.kernel with
      pmm := u
      largePages := (s.kernel.largePages + 2 ^ order) % 2 ^ 64
      largeBytes := (s.kernel.largeBytes + pageSize * 2 ^ order) % 2 ^ 64
      largeAllocs := (s.kernel.largeAllocs + 1) % 2 ^ 64 }
    have hblocks : (⟨p, order⟩ :: s.blocks).Perm
        (KernelHeap.mk k (⟨pageToVirt p, n, .pages ⟨p, order⟩⟩ :: s.live) s.others).blocks := List.perm_middle.symm
    refine ⟨p, k, by rw [hr], h.pageStep rfl (hgood.perm hblocks) (hharm.maxPfn.trans hal.maxPfn)
      (fun b hb => hagree b (List.mem_append_left _ hb)) (fun i a => ?_) (fun x hx b hb => ?_) ?_ fun q hq => ?_⟩
    · simp [Objects]
    · rcases List.mem_cons.1 hx with rfl | hx
      · cases hb
        refine ⟨rfl, ?_⟩
        change (u.page p).head = true
        have hhead := (Pmm.allocPages_flags (q := p) hr).1
        rw [if_pos rfl] at hhead
        simpa [u] using hhead
      · obtain ⟨haddr, hhead⟩ := h.pages x hx b hb
        refine ⟨haddr, ?_⟩
        rw [← hhead]
        exact congrArg Page.head ((hagree b (block_mem hx hb)).page b.base b.contains_base.1 b.contains_base.2)
    · refine List.nodup_cons.2 ⟨fun hmem => ?_, h.once⟩
      obtain ⟨x, hx, heq⟩ := List.mem_map.1 hmem
      exact hfresh (block_mem hx (Prod.mk.inj heq).2)
    · exact h.marked q ((hslab q).symm.trans hq)
  · left
    rw [hr]

lemma Accounts.page_of_addr (h : Accounts s) (hb : b ∈ s.blocks) : virtToPage (pageToVirt b.base) = b.base :=
  virtToPage_pageToVirt (h.inside hb).le

lemma kfree_page (h : Accounts s) (hx : x ∈ s.live) (hb : x.home = .pages b) :
    s.kernel.kfree x.addr = s.kernel.largeFree b.base := by
  have hmem := Accounts.block_mem hx hb
  have hinside := h.inside hmem
  obtain ⟨haddr, hhead⟩ := h.pages x hx b hb
  have hslab := h.not_slab hx hb b.contains_base
  have hbounds : hhdmBase ≤ pageToVirt b.base ∧ pageToVirt b.base < vmallocStart ∧ pageToVirt b.base % pageSize = 0 := by
    simp only [pageToVirt, physToVirt, pageToPhys, vmallocStart, hhdmBase, pageSize] at *
    omega
  have hzero : pageToVirt b.base ≠ 0 := fun he => by
    rw [he] at hbounds
    exact absurd hbounds.1 (by decide)
  rw [haddr, Kernel.kfree, if_neg hzero, if_neg (by omega)]
  simp only [h.page_of_addr hmem, hslab, hhead, hbounds.2.2, Bool.true_eq_false, ne_eq, not_true_eq_false, or_self,
    if_false]

lemma erase_blocks (hx : x ∈ s.live) (hb : x.home = .pages b) (k : Kernel) (hk : k.cache = s.kernel.cache) :
    (s.blocks.erase b).Perm (KernelHeap.mk k (s.live.erase x) s.others).blocks := by
  have hlive := (List.perm_cons_erase hx).flatMap_right fun x => x.home.blocks
  rw [List.flatMap_cons, hb] at hlive
  have hslabs : k.slabBlocks cacheIds = s.kernel.slabBlocks cacheIds := by rw [Kernel.slabBlocks, hk]; rfl
  have hperm : s.blocks.Perm (b :: (KernelHeap.mk k (s.live.erase x) s.others).blocks) := by
    rw [blocks, blocks, pageBlocks, pageBlocks, hslabs]
    exact ((hlive.append_right _).append_left _).trans List.perm_middle
  have herase := hperm.erase b
  rwa [List.erase_cons_head] at herase

lemma Accounts.freePages (h : Accounts s) (hx : x ∈ s.live) (hb : x.home = .pages b) :
    ∃ k, s.kernel.kfree x.addr = .ok k ∧ Accounts ⟨k, s.live.erase x, s.others⟩ ∧ k.cache = s.kernel.cache ∧
      ∀ q, coverage k.pmm.freeBlocks q = coverage s.kernel.pmm.freeBlocks q + if b.Contains q then 1 else 0 := by
  have hmem := Accounts.block_mem hx hb
  obtain ⟨t, hr, hfr⟩ := Pmm.freePages_spec h.good hmem
  have horder := h.good.order b hmem
  let k : Kernel := { s.kernel with
    pmm := t
    largePages := (s.kernel.largePages + 2 ^ 64 - 2 ^ b.order) % 2 ^ 64
    largeBytes := (s.kernel.largeBytes + 2 ^ 64 - pageSize * 2 ^ b.order) % 2 ^ 64
    largeFrees := (s.kernel.largeFrees + 1) % 2 ^ 64 }
  have hrun : s.kernel.kfree x.addr = .ok k := by
    rw [kfree_page h hx hb, Kernel.largeFree, horder, hr]
  have hperm := erase_blocks hx hb k rfl
  have hsub : ∀ c ∈ (KernelHeap.mk k (s.live.erase x) s.others).blocks, s.kernel.pmm.Agree t c.base c.order :=
    fun c hc => hfr.agree (hperm.mem_iff.2 hc)
  refine ⟨k, hrun, h.pageStep rfl (hfr.good.perm hperm) hfr.maxPfn (fun c hc => hsub c (List.mem_append_left _ hc))
    (fun i a => ?_) (fun y hy c hc => ?_) ?_ fun q hq => ?_, rfl, fun q => ?_⟩
  · constructor
    · rintro ⟨y, hy, hya, hyi⟩
      exact ⟨y, List.mem_of_mem_erase hy, hya, hyi⟩
    · rintro ⟨y, hy, hya, hyi⟩
      refine ⟨y, (List.mem_erase_of_ne ?_).2 hy, hya, hyi⟩
      rintro rfl
      cases hyi.symm.trans hb
  · obtain ⟨haddr, hhead⟩ := h.pages y (List.mem_of_mem_erase hy) c hc
    refine ⟨haddr, ?_⟩
    rw [← hhead]
    refine congrArg Page.head ((hsub c ?_).page c.base c.contains_base.1 c.contains_base.2)
    exact Accounts.block_mem (s := ⟨k, s.live.erase x, s.others⟩) hy hc
  · exact h.once.sublist (List.erase_sublist.map _)
  · have hslab := (Pmm.freePages_flags (q := q) hr).2
    rw [show (t.page q).slab = true from hq] at hslab
    split_ifs at hslab
    exact h.marked q hslab.symm
  · have hold := h.good.inv.cover q
    have hnew := hfr.good.inv.cover q
    have herase := coverage_erase hmem q
    have hman : t.Managed q ↔ s.kernel.pmm.Managed q := by rw [Pmm.Managed, Pmm.Managed, hfr.maxPfn, hfr.reserved]
    rw [if_congr hman rfl rfl] at hnew
    change coverage t.freeBlocks q = _
    omega

end Large

section Small

variable {s : KernelHeap} {x : Allocation} {i n a : ℕ} {k : Kernel}

lemma Accounts.cacheAlloc (h : Accounts s) (hi : i ∈ cacheIds) (n : ℕ) :
    s.kernel.cacheAlloc i = .ok (none, s.kernel) ∨ ∃ a k, s.kernel.cacheAlloc i = .ok (some a, k) ∧
      Accounts ⟨k, ⟨a, n, .object i⟩ :: s.live, s.others⟩ := by
  obtain ⟨free, hready, hlive⟩ := h.caches i hi
  rw [Kernel.cacheAlloc]
  rcases Pmm.kmemCacheAlloc_spec hready with hr | ⟨a, t, c, free', hr, hready', hsh, hsz, hnew, hl, hbeside⟩
  · left
    rw [hr]
    simp only [update_eq_self]
  · right
    refine ⟨a, _, by rw [hr], h.cacheStep hi rfl rfl rfl hready' hsh hsz hbeside (fun b => ?_) (fun j hj b => ?_)
      (fun y hy => ?_) (List.nodup_cons.2 ⟨fun hmem => ?_, h.once⟩)⟩
    · rw [hl b, ← hlive b]
      simp [Objects, eq_comm]
    · simp [Objects, Ne.symm hj]
    · rcases List.mem_cons.1 hy with rfl | hy
      · exact .inr rfl
      · exact .inl hy
    · obtain ⟨y, hy, heq⟩ := List.mem_map.1 hmem
      obtain ⟨hya, hyi⟩ := Prod.mk.inj heq
      exact hnew ((hlive a).1 ⟨y, hy, hya, hyi⟩)

lemma Accounts.erase_objects (h : Accounts s) (hx : x ∈ s.live) (hxi : x.home = .object i) (k : Kernel) (j b : ℕ) :
    Objects ⟨k, s.live.erase x, s.others⟩ j b ↔ s.Objects j b ∧ (j = i → b ≠ x.addr) := by
  have hnd : s.live.Nodup := h.once.of_map _
  constructor
  · rintro ⟨y, hy, rfl, hyj⟩
    obtain ⟨hne, hy⟩ := (hnd.mem_erase_iff).1 hy
    refine ⟨⟨y, hy, rfl, hyj⟩, ?_⟩
    rintro rfl haddr
    exact hne (List.inj_on_of_nodup_map h.once hy hx (by rw [haddr, hyj, hxi]))
  · rintro ⟨⟨y, hy, rfl, hyj⟩, hne⟩
    refine ⟨y, (hnd.mem_erase_iff).2 ⟨?_, hy⟩, rfl, hyj⟩
    rintro rfl
    rw [hxi] at hyj
    cases hyj
    exact hne rfl rfl

lemma kfree_object (h : Accounts s) (hx : x ∈ s.live) (hxi : x.home = .object i) : s.kernel.kfree x.addr =
    match s.kernel.cacheFree i x.addr with
    | .error e => .error (.slab e)
    | .ok k => .ok k := by
  obtain ⟨free, hready, hlive⟩ := h.caches i (h.homes x hx i hxi)
  obtain ⟨p, hp, j, hj, -, haddr⟩ := (hlive x.addr).1 ⟨x, hx, rfl, hxi⟩
  have hinv := hready.inv
  obtain ⟨hlo, hhi⟩ := hinv.shape.virtToPage (hinv.fits hp) hj
  obtain ⟨hslab, hcache, -⟩ := (hinv.slab p hp).pages _ hlo hhi
  have hphys := hinv.shape.phys_bounds (p := p) hj
  have hfits := hinv.fits hp
  have hstride := hinv.shape.stride
  rw [← haddr] at hslab hcache
  have hbounds : hhdmBase ≤ x.addr ∧ x.addr < vmallocStart := by
    rw [haddr, Shape.addr_eq]
    simp only [Shape.Fits, vmallocStart, hhdmBase, redzone] at *
    omega
  have hzero : x.addr ≠ 0 := fun he => by
    rw [he] at hbounds
    exact absurd hbounds.1 (by decide)
  rw [Kernel.kfree, if_neg hzero, if_neg (by omega)]
  cases hf : s.kernel.cacheFree i x.addr <;> simp only [hslab, hcache, hf]

lemma flatMap_erase (l : List Allocation) (h : x.home = .object i) :
    ((l.erase x).flatMap fun y => y.home.blocks) = l.flatMap fun y => y.home.blocks := by
  induction l with
  | nil => rfl
  | cons y l ih =>
    by_cases hyx : y = x
    · subst hyx
      rw [List.erase_cons_head, List.flatMap_cons, h]
      rfl
    · rw [List.erase_cons_tail (by simpa using hyx), List.flatMap_cons, List.flatMap_cons, ih]

lemma Accounts.freeObject (h : Accounts s) (hx : x ∈ s.live) (hxi : x.home = .object i) :
    ∃ k, s.kernel.kfree x.addr = .ok k ∧ Accounts ⟨k, s.live.erase x, s.others⟩ := by
  have hi := h.homes x hx i hxi
  obtain ⟨free, hready, hlive⟩ := h.caches i hi
  obtain ⟨t, c, free', hr, hready', hsh, hsz, hl, hbeside⟩ :=
    Pmm.kmemCacheFree_spec hready ((hlive x.addr).1 ⟨x, hx, rfl, hxi⟩)
  let k : Kernel := { s.kernel with pmm := t, cache := update s.kernel.cache i c }
  have herase := h.erase_objects hx hxi k
  refine ⟨k, ?_, h.cacheStep hi rfl rfl (flatMap_erase s.live hxi) hready' hsh hsz hbeside (fun b => ?_)
    (fun j hj b => ?_) (fun y hy => .inl (List.mem_of_mem_erase hy)) (h.once.sublist (List.erase_sublist.map _))⟩
  · rw [kfree_object h hx hxi, Kernel.cacheFree, hr]
  · rw [herase, hl b, ← hlive b]
    simp
  · rw [herase]
    exact and_iff_left fun he => absurd he hj

end Small

end KernelHeap

end MyOS.Memory
