import MyOS.Memory.Kmalloc

/-! Every run of `kmalloc` and `kfree`, the writes of their callers and the rest of the kernel: which
sizes get the memory that was asked for. -/

namespace MyOS.Memory

open Library Library.Dyadic Library.Bytes

inductive HeapAction
  | kmalloc (n : ℕ)
  | kfree (x : Allocation)
  | write (x : Allocation) (m : ℕ → UInt8)
  | otherAlloc (order : ℕ) (gfp : Gfp)
  | otherFree (b : Block)
  | otherWrite (m : ℕ → UInt8)
  | otherPage (q : ℕ) (f : Page → Page)

def kmallocHome (n a : ℕ) : Home :=
  match kmallocIndex n with
  | some i => .object i
  | none => .pages ⟨virtToPage a, kmallocOrder n⟩

def Kernel.setMem (k : Kernel) (m : ℕ → UInt8) : Kernel := { k with pmm := { k.pmm with mem := m } }

/-- The calls, writes of the callers up to the size that they asked for, and what others do with
blocks of pages that are theirs. -/
inductive HeapStep : KernelHeap → HeapAction → KernelHeap → Prop
  | kmalloc {s n a k} (h : s.kernel.kmalloc n = .ok (some a, k)) :
      HeapStep s (.kmalloc n) ⟨k, ⟨a, n, kmallocHome n a⟩ :: s.live, s.others⟩
  | kmallocFail {s n k} (h : s.kernel.kmalloc n = .ok (none, k)) :
      HeapStep s (.kmalloc n) ⟨k, s.live, s.others⟩
  | kfree {s x k} (hx : x ∈ s.live) (h : s.kernel.kfree x.addr = .ok k) :
      HeapStep s (.kfree x) ⟨k, s.live.erase x, s.others⟩
  | write {s x m} (hx : x ∈ s.live)
      (hm : ∀ y, ¬ (virtToPhys x.addr ≤ y ∧ y < virtToPhys x.addr + x.size) → m y = s.kernel.pmm.mem y)
      (hmark : ∀ i, x.home = .object i → read m (virtToPhys x.addr + 8) 8 ≠ freeMagic) :
      HeapStep s (.write x m) ⟨s.kernel.setMem m, s.live, s.others⟩
  | otherAlloc {s order gfp p t} (h : s.kernel.pmm.allocPages order gfp = (some p, t)) :
      HeapStep s (.otherAlloc order gfp) ⟨{ s.kernel with pmm := t }, s.live, ⟨p, order⟩ :: s.others⟩
  | otherFree {s b t} (hb : b ∈ s.others) (hslab : ∀ q, b.Contains q → (s.kernel.pmm.page q).slab = false)
      (h : s.kernel.pmm.freePages b.base b.order = .ok t) :
      HeapStep s (.otherFree b) ⟨{ s.kernel with pmm := t }, s.live, s.others.erase b⟩
  | otherWrite {s m} (hm : ∀ b ∈ s.kernel.slabBlocks cacheIds, ∀ y, pageToPhys b.base ≤ y →
      y < pageToPhys (b.base + 2 ^ b.order) → m y = s.kernel.pmm.mem y) :
      HeapStep s (.otherWrite m) ⟨s.kernel.setMem m, s.live, s.others⟩
  | otherPage {s q f} (hq : 0 < coverage s.others q)
      (hf : ∀ g, (f g).reserved = g.reserved ∧ (f g).buddy = g.buddy ∧ (f g).order = g.order) :
      HeapStep s (.otherPage q f) ⟨{ s.kernel with pmm := s.kernel.pmm.setPage q f }, s.live, s.others⟩

def kmallocSystem : System KernelHeap HeapAction where
  init s := s.live = [] ∧ s.kernel.pmm.Good s.others ∧
    s.kernel.pmm.maxPfn * pageSize ≤ vmallocStart - hhdmBase ∧
    (∀ i ∈ cacheIds, cacheSetup (kmallocSizes.getD i 0) 8 = .ok (s.kernel.cache i)) ∧
    ∀ q, (s.kernel.pmm.page q).slab = true → 0 < coverage s.others q
  step := HeapStep

def Roomy (s : KernelHeap) (n : ℕ) : Prop :=
  n + pageSize ≤ 2 ^ 64 ∨ ∀ z o, o < maxOrder → s.kernel.pmm.list z o = []

def RoomyCall (s : KernelHeap) : HeapAction → Prop
  | .kmalloc n => Roomy s n
  | _ => True

structure KmallocSound (s : KernelHeap) (n : ℕ) : Prop where
  ends : OrderSearch ((n + pageSize - 1) % 2 ^ 64 / pageSize) 0 (kmallocOrder n)
  runs : ∃ r k, s.kernel.kmalloc n = .ok (r, k)
  room : ∀ a k, s.kernel.kmalloc n = .ok (some a, k) → n ≤ k.ksize a
  alone : ∀ a k, s.kernel.kmalloc n = .ok (some a, k) →
    (∀ x ∈ s.live, a + n ≤ x.addr ∨ x.addr + x.home.bytes ≤ a) ∧
    ∀ b ∈ k.pmm.freeBlocks ++ s.others, a + n ≤ pageToVirt b.base ∨ pageToVirt b.base + pageSize * 2 ^ b.order ≤ a
  back : ∀ a k, s.kernel.kmalloc n = .ok (some a, k) → ∃ k', k.kfree a = .ok k' ∧
    KernelHeap.Accounts ⟨k', s.live, s.others⟩ ∧ ∀ b, kmallocHome n a = .pages b → k'.cache = k.cache ∧
      ∀ q, coverage k'.pmm.freeBlocks q = coverage k.pmm.freeBlocks q + if b.Contains q then 1 else 0
  zero : ∀ a k, s.kernel.kzalloc n = .ok (some a, k) → ∃ k₀, s.kernel.kmalloc n = .ok (some a, k₀) ∧
    ∀ y, ¬ (virtToPhys a ≤ y ∧ y < virtToPhys a + k₀.ksize a) → k.pmm.mem y = k₀.pmm.mem y

section Sizes

variable {n i : ℕ}

lemma kmallocIndex_some (h : kmallocIndex n = some i) : i ∈ cacheIds ∧ n ≤ kmallocSizes.getD i 0 := by
  rw [kmallocIndex] at h
  split_ifs at h
  obtain ⟨hi, hle, -⟩ := List.findIdx?_eq_some_iff_getElem.1 h
  refine ⟨List.mem_range.2 hi, ?_⟩
  rw [List.getD_eq_getElem _ _ hi]
  simpa using hle

lemma kmallocIndex_none (h : kmallocIndex n = none) : kmallocMax < n := by
  by_contra hle
  rw [kmallocIndex, if_pos (not_lt.1 hle)] at h
  have hall := List.findIdx?_eq_none_iff.1 h kmallocMax (by decide)
  simp [not_lt.1 hle] at hall

lemma kmallocOrder_search : OrderSearch ((n + pageSize - 1) % 2 ^ 64 / pageSize) 0 (kmallocOrder n) := by
  have hle : (n + pageSize - 1) % 2 ^ 64 / pageSize ≤ 2 ^ 64 := by
    have := Nat.mod_lt (n + pageSize - 1) (Nat.two_pow_pos 64)
    exact (Nat.div_le_self _ _).trans this.le
  exact pagesToOrder_search hle

lemma le_kmallocOrder (h : n + pageSize ≤ 2 ^ 64) : n ≤ pageSize * 2 ^ kmallocOrder n := by
  have hpow := (kmallocOrder_search (n := n)).le_pow
  simp only [pageSize] at *
  omega

lemma kmallocOrder_wrap (hlt : n < 2 ^ 64) (h : 2 ^ 64 < n + pageSize) : kmallocOrder n = 0 := by
  have hzero : (n + pageSize - 1) % 2 ^ 64 / pageSize = 0 := by
    simp only [pageSize] at *
    omega
  rw [kmallocOrder, hzero]
  rfl

end Sizes

namespace KernelHeap

section Places

variable {s : KernelHeap} {x y : Allocation} {i n a : ℕ} {b c : Block}

lemma Accounts.kmalloc (h : Accounts s) (hn : n ≠ 0) : s.kernel.kmalloc n = .ok (none, s.kernel) ∨
    ∃ a k, s.kernel.kmalloc n = .ok (some a, k) ∧ Accounts ⟨k, ⟨a, n, kmallocHome n a⟩ :: s.live, s.others⟩ := by
  rw [Kernel.kmalloc, if_neg hn]
  simp only [kmallocHome]
  cases hidx : kmallocIndex n with
  | some i => exact h.cacheAlloc (kmallocIndex_some hidx).1 n
  | none =>
    rcases h.largeAlloc n with hnone | ⟨p, k, hr, hk⟩
    · exact .inl (by rw [hnone])
    · have hmem : (Block.mk p (kmallocOrder n)) ∈
          (KernelHeap.mk k (⟨pageToVirt p, n, .pages ⟨p, kmallocOrder n⟩⟩ :: s.live) s.others).blocks :=
        Accounts.block_mem List.mem_cons_self rfl
      have hpage := hk.page_of_addr hmem
      exact .inr ⟨_, k, by rw [hr], by rw [hpage]; exact hk⟩

def Within (s : KernelHeap) (x : Allocation) (b : Block) : Prop :=
  (match x.home with
    | .object i => i ∈ cacheIds ∧ b ∈ (s.kernel.cache i).blocks
    | .pages c => b = c) ∧
  pageToVirt b.base ≤ x.addr ∧ x.addr + x.home.bytes ≤ pageToVirt b.base + pageSize * 2 ^ b.order

lemma Accounts.within (h : Accounts s) (hx : x ∈ s.live) : ∃ b, s.Within x b := by
  cases hhome : x.home with
  | object i =>
    have hi := h.homes x hx i hhome
    obtain ⟨free, hready, hlive⟩ := h.caches i hi
    obtain ⟨p, hp, j, hj, -, haddr⟩ := (hlive x.addr).1 ⟨x, hx, rfl, hhome⟩
    have hgeo := h.geometry i hi
    have hbounds := hready.inv.shape.addr_inside (p := p) hj
    have hroom : kmallocSizes.getD i 0 + redzone ≤ (s.kernel.cache i).shape.stride := hgeo.room
    refine ⟨⟨p, (s.kernel.cache i).shape.order⟩, ?_⟩
    rw [Within, hhome, haddr]
    exact ⟨⟨hi, List.mem_map_of_mem hp⟩, hbounds.1, (Nat.add_le_add_left (le_of_add_le_left hroom) _).trans hbounds.2⟩
  | pages c =>
    refine ⟨c, ?_⟩
    rw [Within, hhome, (h.pages x hx c hhome).1]
    exact ⟨rfl, le_rfl, le_rfl⟩

lemma Accounts.within_mem (hx : x ∈ s.live) (hb : s.Within x b) :
    b ∈ s.kernel.slabBlocks cacheIds ++ s.live.flatMap fun x => x.home.blocks := by
  obtain ⟨hhome, -⟩ := hb
  cases hxh : x.home with
  | object i =>
    rw [hxh] at hhome
    exact List.mem_append_left _ (mem_slabBlocks hhome.1 hhome.2)
  | pages c =>
    rw [hxh] at hhome
    rw [hhome]
    exact List.mem_append_right _ (live_block hx hxh)

lemma bytes_apart (h : b.Apart c) : pageToVirt b.base + pageSize * 2 ^ b.order ≤ pageToVirt c.base ∨
    pageToVirt c.base + pageSize * 2 ^ c.order ≤ pageToVirt b.base := by
  have hsides := Block.apart_iff.1 h
  simp only [Block.stop, pageToVirt, physToVirt, pageToPhys, pageSize] at *
  omega

lemma Within.apart (hb : s.Within x b) (hc : s.Within y c) (h : b.Apart c) :
    x.addr + x.home.bytes ≤ y.addr ∨ y.addr + y.home.bytes ≤ x.addr := by
  obtain ⟨-, hlo, hhi⟩ := hb
  obtain ⟨-, hlo', hhi'⟩ := hc
  have := bytes_apart h
  omega

lemma Accounts.not_beside (h : Accounts s) (hi : i ∈ cacheIds) (hb : b ∈ (s.kernel.cache i).blocks) : b ∉ s.beside i := by
  have hnd := (h.good.perm (beside_perm hi).symm).inv.held_nodup
  exact (List.nodup_append'.1 hnd).2.2 hb

lemma Accounts.apart_same (h : Accounts s) (hx : x ∈ s.live) (hy : y ∈ s.live)
    (hne : (x.addr, x.home) ≠ (y.addr, y.home)) (hb : s.Within x b) (hc : s.Within y b) :
    x.addr + x.home.bytes ≤ y.addr ∨ y.addr + y.home.bytes ≤ x.addr := by
  have hbx := hb.1
  have hby := hc.1
  cases hxh : x.home with
  | pages c =>
    cases hyh : y.home with
    | pages d =>
      rw [hxh] at hbx
      rw [hyh] at hby
      refine absurd ?_ hne
      have hcd : c = d := hbx.symm.trans hby
      rw [hxh, hyh, (h.pages x hx c hxh).1, (h.pages y hy d hyh).1, hcd]
    | object j =>
      rw [hxh] at hbx
      rw [hyh] at hby
      have hmem := live_block hx hxh
      rw [← hbx] at hmem
      exact absurd (List.mem_append_right _ (List.mem_append_left _ hmem)) (h.not_beside hby.1 hby.2)
  | object i =>
    rw [hxh] at hbx
    cases hyh : y.home with
    | pages d =>
      rw [hyh] at hby
      have hmem := live_block hy hyh
      rw [← hby] at hmem
      exact absurd (List.mem_append_right _ (List.mem_append_left _ hmem)) (h.not_beside hbx.1 hbx.2)
    | object j =>
      rw [hyh] at hby
      obtain ⟨hi, hbi⟩ := hbx
      by_cases hij : j = i
      · subst hij
        obtain ⟨free, hready, hlive⟩ := h.caches j hi
        obtain ⟨p, hp, e, he, -, hxa⟩ := (hlive x.addr).1 ⟨x, hx, rfl, hxh⟩
        obtain ⟨q, hq, f, hf, -, hya⟩ := (hlive y.addr).1 ⟨y, hy, rfl, hyh⟩
        have haddr : x.addr ≠ y.addr := fun heq => hne (by rw [heq, hxh, hyh])
        rw [hxa, hya] at haddr ⊢
        have hroom : kmallocSizes.getD j 0 + redzone ≤ (s.kernel.cache j).stride := (h.geometry j hi).room
        have hfar := addr_apart hready.inv hp hq he hf haddr
        rw [Home.bytes]
        omega
      · exact absurd (mem_beside hby.1 hij hby.2) (h.not_beside hi hbi)

lemma Accounts.apart (h : Accounts s) (hx : x ∈ s.live) (hy : y ∈ s.live) (hne : (x.addr, x.home) ≠ (y.addr, y.home)) :
    x.addr + x.home.bytes ≤ y.addr ∨ y.addr + y.home.bytes ≤ x.addr := by
  obtain ⟨b, hb⟩ := h.within hx
  obtain ⟨c, hc⟩ := h.within hy
  by_cases hbc : b = c
  · exact h.apart_same hx hy hne hb (hbc ▸ hc)
  · have hsymm : Std.Symm Block.Apart := ⟨fun b d hbd q hq => hbd q hq.symm⟩
    have hpw := h.good.inv.held_apart
    rw [blocks, pageBlocks, ← List.append_assoc] at hpw
    exact hb.apart hc ((List.pairwise_append.1 hpw).1.forall (within_mem hx hb) (within_mem hy hc) hbc)

lemma Accounts.apart_blocks (h : Accounts s) (hx : x ∈ s.live) (hc : c ∈ s.kernel.pmm.freeBlocks ++ s.others) :
    x.addr + x.home.bytes ≤ pageToVirt c.base ∨ pageToVirt c.base + pageSize * 2 ^ c.order ≤ x.addr := by
  obtain ⟨b, hb⟩ := h.within hx
  have hmem := within_mem hx hb
  have hfar : b.Apart c := by
    rintro q ⟨hbq, hcq⟩
    have hpos := coverage_pos_of_mem hmem hbq
    have hle := h.good.inv.cover_le q
    rw [blocks, pageBlocks, ← List.append_assoc, coverage_append] at hle
    rcases List.mem_append.1 hc with hc | hc
    all_goals
      have := coverage_pos_of_mem hc hcq
      omega
  obtain ⟨-, hlo, hhi⟩ := hb
  have := bytes_apart hfar
  omega

lemma Accounts.ksize (h : Accounts s) (hx : x ∈ s.live) : s.kernel.ksize x.addr = x.home.bytes := by
  rw [Kernel.ksize]
  cases hxh : x.home with
  | object i =>
    have hi := h.homes x hx i hxh
    obtain ⟨free, hready, hlive⟩ := h.caches i hi
    obtain ⟨p, hp, j, hj, -, haddr⟩ := (hlive x.addr).1 ⟨x, hx, rfl, hxh⟩
    have hinv := hready.inv
    obtain ⟨hlo, hhi⟩ := hinv.shape.virtToPage (hinv.fits hp) hj
    obtain ⟨hslab, hcache, -⟩ := (hinv.slab p hp).pages _ hlo hhi
    rw [haddr]
    simp only [hslab, hcache]
    exact (h.geometry i hi).size
  | pages b =>
    have hmem := block_mem hx hxh
    have hslab := h.not_slab hx hxh b.contains_base
    rw [(h.pages x hx b hxh).1]
    simp only [h.page_of_addr hmem, hslab, h.good.order b hmem]
    rfl

lemma Accounts.kfree (h : Accounts s) (hx : x ∈ s.live) : ∃ k, s.kernel.kfree x.addr = .ok k ∧
    Accounts ⟨k, s.live.erase x, s.others⟩ ∧ ∀ b, x.home = .pages b → k.cache = s.kernel.cache ∧
      ∀ q, coverage k.pmm.freeBlocks q = coverage s.kernel.pmm.freeBlocks q + if b.Contains q then 1 else 0 := by
  cases hxh : x.home with
  | object i =>
    obtain ⟨k, hr, hk⟩ := h.freeObject hx hxh
    exact ⟨k, hr, hk, nofun⟩
  | pages b =>
    obtain ⟨k, hr, hk, hcache, hfree⟩ := h.freePages hx hxh
    refine ⟨k, hr, hk, fun c hc => ?_⟩
    cases hc
    exact ⟨hcache, hfree⟩

end Places

section Others

variable {s : KernelHeap} {x : Allocation} {m : ℕ → UInt8} {b : Block}

lemma Accounts.setMem (h : Accounts s) (hm : ∀ b ∈ s.kernel.slabBlocks cacheIds, ∀ y, pageToPhys b.base ≤ y →
    y < pageToPhys (b.base + 2 ^ b.order) → m y = s.kernel.pmm.mem y) :
    Accounts ⟨s.kernel.setMem m, s.live, s.others⟩ := by
  have hgood : Pmm.Good (s.kernel.setMem m).pmm s.blocks :=
    h.good.of_harmless (Pmm.harmless_of_eq rfl rfl rfl) (fun _ => rfl) fun _ => rfl
  exact h.pageStep rfl hgood rfl (fun b hb => ⟨fun _ _ _ => rfl, hm b hb⟩) (fun _ _ => Iff.rfl) h.pages h.once h.marked

lemma Accounts.write (h : Accounts s) (hx : x ∈ s.live) (hsize : x.size ≤ x.home.bytes)
    (hm : ∀ y, ¬ (virtToPhys x.addr ≤ y ∧ y < virtToPhys x.addr + x.size) → m y = s.kernel.pmm.mem y)
    (hmark : ∀ i, x.home = .object i → read m (virtToPhys x.addr + 8) 8 ≠ freeMagic) :
    Accounts ⟨s.kernel.setMem m, s.live, s.others⟩ := by
  cases hxh : x.home with
  | object i =>
    have hi := h.homes x hx i hxh
    obtain ⟨free, hready, hlive⟩ := h.caches i hi
    rw [hxh] at hsize
    have hroom : x.size + redzone ≤ (s.kernel.cache i).stride :=
      (Nat.add_le_add_right hsize redzone).trans (h.geometry i hi).room
    obtain ⟨hready', hbeside⟩ :=
      ready_write hready hroom ((hlive x.addr).1 ⟨x, hx, rfl, hxh⟩) hm (hmark i hxh)
    have hsame : (s.kernel.setMem m).cache = Function.update s.kernel.cache i (s.kernel.cache i) :=
      (Function.update_eq_self i s.kernel.cache).symm
    exact h.cacheStep hi hsame rfl rfl hready' rfl rfl hbeside hlive (fun _ _ _ => Iff.rfl) (fun _ hy => .inl hy) h.once
  | pages c =>
    have hmem := block_mem hx hxh
    have hinside := h.inside hmem
    refine h.setMem fun b hb y hlo hhi => hm y fun hy => ?_
    have hfar : b.Apart c := (List.pairwise_append.1 h.good.inv.held_apart).2.2 b hb c
      (List.mem_append_left _ (live_block hx hxh))
    have hphys : virtToPhys x.addr = pageToPhys c.base := by
      rw [(h.pages x hx c hxh).1, pageToVirt, physToVirt, virtToPhys, if_neg ?_, Nat.add_sub_cancel]
      simp only [pageToPhys, vmallocStart, hhdmBase, kernelVma, pageSize] at *
      omega
    rw [hphys] at hy
    rw [hxh] at hsize
    have hsides := Block.apart_iff.1 hfar
    simp only [Home.bytes, Block.stop, pageToPhys, pageSize] at *
    omega

lemma Accounts.live_page (h : Accounts s) {k : Kernel} (hagree : ∀ b ∈ s.blocks, s.kernel.pmm.Agree k.pmm b.base b.order) :
    ∀ x ∈ s.live, ∀ b, x.home = .pages b → x.addr = pageToVirt b.base ∧ (k.pmm.page b.base).head = true := by
  intro x hx b hb
  obtain ⟨haddr, hhead⟩ := h.pages x hx b hb
  rw [(hagree b (block_mem hx hb)).page b.base b.contains_base.1 b.contains_base.2]
  exact ⟨haddr, hhead⟩

lemma Accounts.otherAlloc {order p : ℕ} {gfp : Gfp} {t : Pmm} (h : Accounts s)
    (hr : s.kernel.pmm.allocPages order gfp = (some p, t)) :
    Accounts ⟨{ s.kernel with pmm := t }, s.live, ⟨p, order⟩ :: s.others⟩ := by
  rcases Pmm.allocPages_spec order gfp h.good with ⟨p', t', hr', hal⟩ | ⟨hr', -⟩
  · obtain ⟨hp, rfl⟩ := Prod.mk.inj (hr'.symm.trans hr)
    cases hp
    have hblocks : (⟨p, order⟩ :: s.blocks).Perm
        (KernelHeap.mk { s.kernel with pmm := t' } s.live (⟨p, order⟩ :: s.others)).blocks := by
      rw [blocks, blocks, pageBlocks, pageBlocks, ← List.append_assoc, ← List.append_assoc]
      exact List.perm_middle.symm
    refine h.pageStep rfl (hal.good.perm hblocks) hal.maxPfn (fun b hb => hal.agree (List.mem_append_left _ hb))
      (fun _ _ => Iff.rfl) (h.live_page fun b hb => hal.agree hb) h.once fun q hq => ?_
    have hslab := (Pmm.allocPages_flags (q := q) hr).2
    rw [show (t'.page q).slab = true from hq] at hslab
    refine (h.marked q hslab.symm).imp_right fun hpos => ?_
    rw [coverage_cons]
    omega
  · cases hr'.symm.trans hr

lemma Accounts.otherFree {t : Pmm} (h : Accounts s) (hb : b ∈ s.others)
    (hslab : ∀ q, b.Contains q → (s.kernel.pmm.page q).slab = false)
    (hr : s.kernel.pmm.freePages b.base b.order = .ok t) :
    Accounts ⟨{ s.kernel with pmm := t }, s.live, s.others.erase b⟩ := by
  have hmem : b ∈ s.blocks := List.mem_append_right _ (List.mem_append_right _ hb)
  obtain ⟨t', hr', hfr⟩ := Pmm.freePages_spec h.good hmem
  obtain rfl := Except.ok.inj (hr'.symm.trans hr)
  have hperm : s.blocks.Perm
      (b :: (KernelHeap.mk { s.kernel with pmm := t' } s.live (s.others.erase b)).blocks) := by
    rw [blocks, blocks, pageBlocks, pageBlocks, ← List.append_assoc, ← List.append_assoc]
    exact ((List.perm_cons_erase hb).append_left _).trans List.perm_middle
  have herase := hperm.erase b
  rw [List.erase_cons_head] at herase
  have hagree : ∀ c ∈ (KernelHeap.mk { s.kernel with pmm := t' } s.live (s.others.erase b)).blocks,
      s.kernel.pmm.Agree t' c.base c.order := fun c hc => hfr.agree (herase.mem_iff.2 hc)
  refine h.pageStep rfl (hfr.good.perm herase) hfr.maxPfn (fun c hc => hagree c (List.mem_append_left _ hc))
    (fun _ _ => Iff.rfl) (fun x hx c hc => ?_) h.once fun q hq => ?_
  · obtain ⟨haddr, hhead⟩ := h.pages x hx c hc
    refine ⟨haddr, ?_⟩
    rw [← hhead]
    refine congrArg Page.head ((hagree c ?_).page c.base c.contains_base.1 c.contains_base.2)
    exact block_mem (s := ⟨{ s.kernel with pmm := t' }, s.live, s.others.erase b⟩) hx hc
  · have hflag := (Pmm.freePages_flags (q := q) hr).2
    rw [show (t'.page q).slab = true from hq] at hflag
    split_ifs at hflag
    have hout : ¬ b.Contains q := fun hbq => by
      rw [hslab q hbq] at hflag
      cases hflag
    refine (h.marked q hflag.symm).imp_right fun hpos => ?_
    have hcov := coverage_erase hb q
    rw [if_neg hout] at hcov
    change 0 < coverage (s.others.erase b) q
    omega

lemma Accounts.otherPage {q : ℕ} {f : Page → Page} (h : Accounts s) (hq : 0 < coverage s.others q)
    (hf : ∀ g, (f g).reserved = g.reserved ∧ (f g).buddy = g.buddy ∧ (f g).order = g.order) :
    Accounts ⟨{ s.kernel with pmm := s.kernel.pmm.setPage q f }, s.live, s.others⟩ := by
  have hgood : (s.kernel.pmm.setPage q f).Good s.blocks :=
    h.good.of_harmless (Pmm.setPage_harmless f (fun g => ⟨(hf g).1, (hf g).2.1⟩) fun _ => (hf _).2.2)
      (fun _ => rfl) fun r => by
        by_cases hr : r = q
        · subst hr; simp [hf]
        · simp [hr]
  have hne : ∀ b ∈ s.kernel.slabBlocks cacheIds ++ s.live.flatMap (fun x => x.home.blocks), ∀ r, b.Contains r → r ≠ q := by
    rintro b hb r hr rfl
    have hpos := coverage_pos_of_mem hb hr
    have hle := h.good.inv.cover_le r
    rw [blocks, pageBlocks, ← List.append_assoc, coverage_append] at hle
    omega
  refine h.pageStep rfl hgood rfl (fun b hb => ⟨fun r h₁ h₂ => ?_, fun _ _ _ => rfl⟩) (fun _ _ => Iff.rfl)
    (fun x hx b hb => ?_) h.once fun r hr => ?_
  · simp [hne b (List.mem_append_left _ hb) r ⟨h₁, h₂⟩]
  · obtain ⟨haddr, hhead⟩ := h.pages x hx b hb
    have hout := hne b (List.mem_append_right _ (live_block hx hb)) b.base b.contains_base
    exact ⟨haddr, by simpa [hout] using hhead⟩
  · by_cases hrq : r = q
    · exact .inr (hrq ▸ hq)
    · refine h.marked r ?_
      simpa [hrq] using hr

end Others

end KernelHeap

section Runs

open KernelHeap

variable {s t : KernelHeap} {n : ℕ}

structure HeapGood (s : KernelHeap) : Prop where
  accounts : Accounts s
  sizes : ∀ x ∈ s.live, x.size ≤ x.home.bytes

lemma kmalloc_bytes (h : Accounts s) {a : ℕ} {k : Kernel} (hroom : Roomy s n) (hr : s.kernel.kmalloc n = .ok (some a, k)) :
    n ≤ (kmallocHome n a).bytes := by
  rw [kmallocHome]
  cases hidx : kmallocIndex n with
  | some i => exact (kmallocIndex_some hidx).2
  | none =>
    rcases hroom with hfit | hempty
    · exact le_kmallocOrder hfit
    · have hn : n ≠ 0 := by
        have := kmallocIndex_none hidx
        omega
      rw [Kernel.kmalloc, if_neg hn] at hr
      simp only [hidx, Kernel.largeAlloc, Pmm.allocPages_empty h.good hempty] at hr
      cases hr

lemma heapGood_init (h : kmallocSystem.init s) : HeapGood s := by
  obtain ⟨hlive, hgood, hram, hsetup, hslab⟩ := h
  have hfit : ∀ i ∈ cacheIds, SetupFits (kmallocSizes.getD i 0) 8 := fun i hi =>
    ⟨.inr ⟨3, rfl⟩, (by decide : ∀ i ∈ cacheIds, max (kmallocSizes.getD i 0) minObj + redzone + max 8 8 - 1 < 2 ^ 64) i hi⟩
  have hslabGood : ∀ i (hi : i ∈ cacheIds), SlabGood i (kmallocSizes.getD i 0) 8
      ⟨s.kernel.pmm, s.kernel.cache i, s.others, []⟩ := fun i hi =>
    slabGood_init (hfit i hi) ⟨rfl, hsetup i hi, hgood, hram⟩
  have hblocks : ∀ i ∈ cacheIds, (s.kernel.cache i).blocks = [] := fun i hi => by
    obtain ⟨-, hnil, -⟩ := cacheSetup_geometry (hfit i hi) (hsetup i hi)
    rw [KmemCache.blocks, hnil]
    rfl
  have hnil : ∀ ids ⊆ cacheIds, s.kernel.slabBlocks ids = [] := fun ids hids =>
    List.flatMap_eq_nil_iff.2 fun i hi => hblocks i (hids hi)
  have hpages : s.pageBlocks = s.others := by rw [pageBlocks, hlive]; rfl
  refine ⟨⟨?_, fun i hi => ?_, fun i hi => (hslabGood i hi).geometry, ?_, ?_, ?_, fun q hq => .inr (hslab q hq)⟩, ?_⟩
  · rwa [blocks, hnil _ (List.Subset.refl _), hpages]
  · obtain ⟨free, hready, -, hl⟩ := (hslabGood i hi).ready
    refine ⟨free, ?_, fun a => ?_⟩
    · rwa [beside, hnil _ (List.erase_subset), hpages]
    · rw [← hl a]
      simp [Objects, hlive]
  all_goals simp [hlive]

lemma HeapStep.good {x : HeapAction} (h : HeapGood s) (hroom : RoomyCall s x) (hs : HeapStep s x t) : HeapGood t := by
  obtain ⟨hacc, hsizes⟩ := h
  cases hs with
  | @kmalloc n a k hr =>
    have hn : n ≠ 0 := by
      rintro rfl
      cases hr
    rcases hacc.kmalloc hn with hnone | ⟨a', k', hr', hk⟩
    · cases hnone.symm.trans hr
    · cases hr'.symm.trans hr
      exact ⟨hk, List.forall_mem_cons.2 ⟨kmalloc_bytes hacc hroom hr, hsizes⟩⟩
  | @kmallocFail n k hr =>
    by_cases hn : n = 0
    · subst hn
      cases hr
      exact ⟨hacc, hsizes⟩
    · rcases hacc.kmalloc hn with hnone | ⟨a', k', hr', -⟩
      · cases hnone.symm.trans hr
        exact ⟨hacc, hsizes⟩
      · cases hr'.symm.trans hr
  | kfree hx hr =>
    obtain ⟨k', hr', hk, -⟩ := hacc.kfree hx
    cases hr'.symm.trans hr
    exact ⟨hk, fun y hy => hsizes y (List.mem_of_mem_erase hy)⟩
  | write hx hm hmark => exact ⟨hacc.write hx (hsizes _ hx) hm hmark, hsizes⟩
  | otherAlloc hr => exact ⟨hacc.otherAlloc hr, hsizes⟩
  | otherFree hb hslab hr => exact ⟨hacc.otherFree hb hslab hr, hsizes⟩
  | otherWrite hm => exact ⟨hacc.setMem hm, hsizes⟩
  | otherPage hq hf => exact ⟨hacc.otherPage hq hf, hsizes⟩

lemma kmallocSound_of_bytes (h : Accounts s) (hn : 0 < n)
    (hbytes : ∀ a k, s.kernel.kmalloc n = .ok (some a, k) → n ≤ (kmallocHome n a).bytes) : KmallocSound s n := by
  have hcall := h.kmalloc hn.ne'
  have hnew : ∀ a k, s.kernel.kmalloc n = .ok (some a, k) →
      Accounts ⟨k, ⟨a, n, kmallocHome n a⟩ :: s.live, s.others⟩ := by
    intro a k hr
    rcases hcall with hnone | ⟨a', k', hr', hk⟩
    · cases hnone.symm.trans hr
    · cases hr'.symm.trans hr
      exact hk
  have hsize : ∀ a k, s.kernel.kmalloc n = .ok (some a, k) → k.ksize a = (kmallocHome n a).bytes :=
    fun a k hr => (hnew a k hr).ksize List.mem_cons_self
  refine ⟨kmallocOrder_search, ?_, fun a k hr => ?_, fun a k hr => ⟨fun x hx => ?_, fun b hb => ?_⟩, fun a k hr => ?_,
    fun a k hr => ?_⟩
  · rcases hcall with hnone | ⟨a, k, hr, -⟩
    · exact ⟨_, _, hnone⟩
    · exact ⟨_, _, hr⟩
  · rw [hsize a k hr]
    exact hbytes a k hr
  · have hk := hnew a k hr
    have hle := hbytes a k hr
    have hfresh : (a, kmallocHome n a) ≠ (x.addr, x.home) := fun heq =>
      (List.nodup_cons.1 hk.once).1 (List.mem_map.2 ⟨x, hx, heq.symm⟩)
    have hfar := hk.apart List.mem_cons_self (List.mem_cons_of_mem _ hx) hfresh
    simp only at hfar
    omega
  · have hfar := (hnew a k hr).apart_blocks List.mem_cons_self hb
    have hle := hbytes a k hr
    simp only at hfar
    omega
  · obtain ⟨k', hr', hk', hpages⟩ := (hnew a k hr).kfree List.mem_cons_self
    rw [List.erase_cons_head] at hk'
    exact ⟨k', hr', hk', hpages⟩
  · rw [Kernel.kzalloc] at hr
    rcases hcall with hnone | ⟨a', k', hr', hk⟩
    · simp only [hnone] at hr
      cases hr
    · simp only [hr'] at hr
      cases hr
      refine ⟨k', hr', fun y hy => ?_⟩
      rw [hsize a k' hr'] at hy
      have hle := hbytes a k' hr'
      exact fill_of_not_mem (by omega)

lemma not_kmallocSound (h : Accounts s) (hlt : n < 2 ^ 64) (hroom : ¬ Roomy s n) : ¬ KmallocSound s n := by
  intro hsound
  obtain ⟨hwrap, hpage⟩ := not_or.1 hroom
  have hbig : 2 ^ 64 < n + pageSize := not_le.1 hwrap
  have hn : n ≠ 0 := by
    rintro rfl
    exact absurd hbig (by decide)
  have hidx : kmallocIndex n = none := by
    rw [kmallocIndex, if_neg]
    simp only [kmallocMax, pageSize] at *
    omega
  rcases h.kmalloc hn with hnone | ⟨a, k, hr, hk⟩
  · refine hpage fun z o ho => ?_
    rw [Kernel.kmalloc, if_neg hn] at hnone
    simp only [hidx, Kernel.largeAlloc, kmallocOrder_wrap hlt hbig] at hnone
    rcases Pmm.allocPages_spec 0 {} h.good with ⟨p, t, hal, -⟩ | ⟨-, hempty⟩
    · rw [hal] at hnone
      cases hnone
    · exact hempty z (by cases z <;> decide) o (Nat.zero_le o) ho
  · have hle := hsound.room a k hr
    rw [hk.ksize List.mem_cons_self, kmallocHome, hidx, Home.bytes, kmallocOrder_wrap hlt hbig] at hle
    simp only [pageSize] at *
    omega

theorem kmallocSound_iff_roomy (h : (kmallocSystem.guarded RoomyCall).Reachable s) (hn : 0 < n) (hlt : n < 2 ^ 64) :
    KmallocSound s n ↔ Roomy s n := by
  have hgood : HeapGood s := h.invariant (fun _ hi => heapGood_init hi) fun _ _ _ hs hst => hst.2.good hs hst.1
  constructor
  · intro hsound
    by_contra hroom
    exact not_kmallocSound hgood.accounts hlt hroom hsound
  · exact fun hroom => kmallocSound_of_bytes hgood.accounts hn fun a k hr => kmalloc_bytes hgood.accounts hroom hr

end Runs

section TwoPages

def twoPageKernel : Kernel where
  pmm := Pmm.pmmInit 0x2000 (fun _ => 0) [⟨0, 0x2000⟩]
  cache i := (cacheSetup (kmallocSizes.getD i 0) 8).toOption.getD ⟨0, 0, 0, 0, [], [], [], 0, 0, 0, 0⟩

lemma twoPageKernel_init : kmallocSystem.init ⟨twoPageKernel, [], []⟩ := by
  refine ⟨rfl, Pmm.pmmInit_good (List.pairwise_singleton _ _) (by decide), by decide +kernel, fun i hi => ?_,
    fun q hq => absurd hq (by rw [twoPageKernel, Pmm.pmmInit_flags.2]; decide)⟩
  have hok : ∀ i ∈ cacheIds, (cacheSetup (kmallocSizes.getD i 0) 8).toOption.isSome = true := by decide +kernel
  have hi := hok i hi
  rw [twoPageKernel]
  rcases hc : cacheSetup (kmallocSizes.getD i 0) 8 with e | c
  · rw [hc] at hi
    cases hi
  · change _ = Except.ok ((cacheSetup (kmallocSizes.getD i 0) 8).toOption.getD _)
    rw [hc]
    rfl

theorem kmallocSound_iff_roomy_twoPages :
    KmallocSound ⟨twoPageKernel, [], []⟩ 100 ↔ Roomy ⟨twoPageKernel, [], []⟩ 100 :=
  kmallocSound_iff_roomy (.init twoPageKernel_init) (by decide) (by decide)

theorem not_kmallocSound_twoPages : ¬ ∀ s n, kmallocSystem.Reachable s → 0 < n → n < 2 ^ 64 → KmallocSound s n := by
  intro h
  refine not_kmallocSound (heapGood_init twoPageKernel_init).accounts (n := 2 ^ 64 - 1) (by decide) ?_
    (h _ _ (.init twoPageKernel_init) (by decide) (by decide))
  rintro (hfit | hempty)
  · exact absurd hfit (by decide)
  · have hlist : twoPageKernel.pmm.list .dma32 1 ≠ [] := by decide +kernel
    exact hlist (hempty .dma32 1 (by decide))

end TwoPages

end MyOS.Memory
