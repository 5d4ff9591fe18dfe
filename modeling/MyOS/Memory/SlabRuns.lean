import MyOS.Memory.SlabOps

/-! Every cache that `cache_setup` builds, over every run of its clients and of the other users
of the page allocator. -/

namespace MyOS.Memory

open Library Library.Dyadic Library.Bytes

section Setup

variable {size align : ℕ} {c : KmemCache}

lemma slabOrder_le (stride n order : ℕ) : slabOrder stride n order ≤ order + n := by
  induction n generalizing order with
  | zero => exact le_rfl
  | succ n ih =>
    simp only [slabOrder]
    split
    · omega
    · have := ih (order + 1)
      omega

def SetupFits (size align : ℕ) : Prop :=
  (align < 8 ∨ Nat.isPowerOfTwo align) ∧ max size minObj + redzone + max align 8 - 1 < 2 ^ 64

structure Geometry (c : KmemCache) (size align : ℕ) : Prop where
  shape : c.shape.Sound
  room : size + redzone ≤ c.stride
  size : c.size = size
  stride : max align 8 ∣ c.stride
  base : max align 8 ∣ pageSize * 2 ^ c.order

lemma cacheSetup_geometry (hfit : SetupFits size align) (h : cacheSetup size align = .ok c) :
    Geometry c size align ∧ c.slabs = [] ∧ c.nrSlabs = 0 ∧ c.activeObjs = 0 := by
  obtain ⟨hal, hsz⟩ := hfit
  obtain ⟨k, hk⟩ : ∃ k, max align 8 = 2 ^ k := by
    rcases hal with hlt | ⟨k, rfl⟩
    · exact ⟨3, by omega⟩
    · by_cases h8 : 2 ^ k < 8
      · exact ⟨3, by omega⟩
      · exact ⟨k, by omega⟩
  have hk64 : k ≤ 64 := by
    by_contra hk'
    have := Nat.pow_lt_pow_right (a := 2) (by omega) (not_le.1 hk')
    omega
  have hif : (if align < 8 then 8 else align) = 2 ^ k := by
    rw [← hk]
    split <;> omega
  have hmod : (max size minObj + redzone) % 2 ^ 64 = max size minObj + redzone :=
    Nat.mod_eq_of_lt (by have := Nat.two_pow_pos k; omega)
  have hst := alignUp_spec (x := max size minObj + redzone) hk64 (hk ▸ hsz)
  simp only [cacheSetup, hif, hmod] at h
  generalize alignUp (max size minObj + redzone) (2 ^ k) = stride at h hst
  split at h
  · cases h
  · split at h
    · cases h
    · rename_i hobjs
      cases h
      have hord : slabOrder stride 3 0 ≤ 3 := slabOrder_le stride 3 0
      generalize slabOrder stride 3 0 = order at hobjs hord
      have hfit := Nat.div_mul_le_self (pageSize * 2 ^ order) stride
      have hone : 1 * stride ≤ pageSize * 2 ^ order / stride * stride :=
        Nat.mul_le_mul_right _ (Nat.pos_of_ne_zero hobjs)
      have hbytes : pageSize * 2 ^ order = 2 ^ (12 + order) := by
        rw [pow_add]
        rfl
      have hle : 2 ^ k ≤ 2 ^ (12 + order) := by
        have : 2 ^ k ≤ stride := Nat.le_of_dvd (by simp only [minObj] at hst; omega) hst.1
        omega
      have hkle : k ≤ 12 + order := (Nat.pow_le_pow_iff_right (by omega)).1 hle
      refine ⟨⟨⟨?_, Nat.pos_of_ne_zero hobjs, hfit, hord⟩, ?_, rfl, hk ▸ hst.1, ?_⟩, rfl, rfl, rfl⟩
      · change minObj + redzone ≤ stride
        omega
      · change size + redzone ≤ stride
        omega
      · rw [hk]
        change 2 ^ k ∣ pageSize * 2 ^ order
        rw [hbytes]
        exact pow_dvd_pow 2 hkle

end Setup

/-- A cache and its surroundings: the objects not yet freed and the page blocks of others. -/
structure SlabState where
  pmm : Pmm
  cache : KmemCache
  others : List Block
  live : List ℕ

inductive SlabAction
  | alloc
  | free (a : ℕ)
  | write (a : ℕ) (m : ℕ → UInt8)
  | otherAlloc (order : ℕ) (gfp : Gfp)
  | otherFree (b : Block)
  | otherWrite (m : ℕ → UInt8)
  | otherPage (q : ℕ) (f : Page → Page)

/-- The calls on cache `id`, the writes of its clients to their objects, and what the rest of the
kernel does with the page allocator, its own pages and its own memory. -/
inductive SlabStep (id : ℕ) : SlabState → SlabAction → SlabState → Prop
  | alloc {s t c c' others live a} (h : Pmm.kmemCacheAlloc id s c = .ok (some a, t, c')) :
      SlabStep id ⟨s, c, others, live⟩ .alloc ⟨t, c', others, a :: live⟩
  | allocFail {s t c c' others live} (h : Pmm.kmemCacheAlloc id s c = .ok (none, t, c')) :
      SlabStep id ⟨s, c, others, live⟩ .alloc ⟨t, c', others, live⟩
  | free {s t c c' others live a} (ha : a ∈ live) (h : Pmm.kmemCacheFree id s c a = .ok (t, c')) :
      SlabStep id ⟨s, c, others, live⟩ (.free a) ⟨t, c', others, live.erase a⟩
  | write {s c others live a m} (ha : a ∈ live)
      (hm : ∀ x, ¬ (virtToPhys a ≤ x ∧ x < virtToPhys a + c.size) → m x = s.mem x)
      (hmark : read m (virtToPhys a + 8) 8 ≠ freeMagic) :
      SlabStep id ⟨s, c, others, live⟩ (.write a m) ⟨{ s with mem := m }, c, others, live⟩
  | otherAlloc {s t c others live order gfp p} (h : s.allocPages order gfp = (some p, t)) :
      SlabStep id ⟨s, c, others, live⟩ (.otherAlloc order gfp) ⟨t, c, ⟨p, order⟩ :: others, live⟩
  | otherFree {s t c others live b} (hb : b ∈ others) (h : s.freePages b.base b.order = .ok t) :
      SlabStep id ⟨s, c, others, live⟩ (.otherFree b) ⟨t, c, others.erase b, live⟩
  | otherWrite {s c others live m} (hm : ∀ p ∈ c.slabs, ∀ x, pageToPhys p ≤ x →
      x < pageToPhys (p + 2 ^ c.order) → m x = s.mem x) :
      SlabStep id ⟨s, c, others, live⟩ (.otherWrite m) ⟨{ s with mem := m }, c, others, live⟩
  | otherPage {s c others live q f} (hq : ∃ b ∈ others, b.Contains q)
      (hf : ∀ g, (f g).reserved = g.reserved ∧ (f g).buddy = g.buddy ∧ (f g).order = g.order) :
      SlabStep id ⟨s, c, others, live⟩ (.otherPage q f) ⟨s.setPage q f, c, others, live⟩

def slabSystem (id size align : ℕ) : System SlabState SlabAction where
  init s := s.live = [] ∧ cacheSetup size align = .ok s.cache ∧ s.pmm.Good s.others ∧
    s.pmm.maxPfn * pageSize ≤ vmallocStart - hhdmBase
  step := SlabStep id

structure SlabView (s : SlabState) (free : ℕ → List ℕ) (p : ℕ) : Prop where
  chain : s.pmm.Chain s.cache.shape p (s.pmm.page p).freelist (free p)
  nodup : (free p).Nodup
  objects : ∀ i, i ∈ free p ↔ i < s.cache.objsPerSlab ∧ s.cache.shape.addr p i ∉ s.live
  length : (s.pmm.page p).inuse + (free p).length = s.cache.objsPerSlab
  partialSlab : p ∈ s.cache.partialSlabs ↔
    0 < (s.pmm.page p).inuse ∧ (s.pmm.page p).inuse < s.cache.objsPerSlab
  fullSlab : p ∈ s.cache.fullSlabs ↔ (s.pmm.page p).inuse = s.cache.objsPerSlab
  emptySlab : p ∈ s.cache.emptySlabs ↔ (s.pmm.page p).inuse = 0

structure CacheView (id align : ℕ) (s : SlabState) : Prop where
  lists : s.cache.slabs.Nodup
  slabs : ∃ free, ∀ p ∈ s.cache.slabs, SlabView s free p
  oneEmpty : s.cache.emptySlabs.length ≤ 1
  nrSlabs : s.cache.nrSlabs = s.cache.slabs.length
  activeObjs : s.cache.activeObjs = (s.cache.slabs.map fun p => (s.pmm.page p).inuse).sum
  liveNodup : s.live.Nodup
  inside : ∀ a ∈ s.live, max align 8 ∣ a ∧ ∃ p ∈ s.cache.slabs, pageToVirt p ≤ a ∧
    a + s.cache.stride ≤ pageToVirt p + pageSize * 2 ^ s.cache.order
  room : s.cache.size + redzone ≤ s.cache.stride
  apart : ∀ a ∈ s.live, ∀ b ∈ s.live, a ≠ b →
    a + s.cache.stride ≤ b ∨ b + s.cache.stride ≤ a
  fresh : ∀ a t c, Pmm.kmemCacheAlloc id s.pmm s.cache = .ok (some a, t, c) → a ∉ s.live
  allocRuns : (Pmm.kmemCacheAlloc id s.pmm s.cache).isOk = true
  freeRuns : ∀ a ∈ s.live, (Pmm.kmemCacheFree id s.pmm s.cache a).isOk = true

/-- Every cache of this object size and alignment keeps the invariant over every run. -/
def CacheSafe (size align : ℕ) : Prop :=
  ∀ id s, (slabSystem id size align).Reachable s → CacheView id align s

structure SlabGood (id size align : ℕ) (s : SlabState) : Prop where
  geometry : Geometry s.cache size align
  ready : ∃ free, Pmm.Ready id s.pmm s.cache s.others free ∧ s.live.Nodup ∧
    ∀ a, a ∈ s.live ↔ Pmm.Live s.cache free a

section Runs

variable {id size align : ℕ} {s t : SlabState}

lemma Geometry.congr {c c' : KmemCache} (h : Geometry c size align) (hsh : c'.shape = c.shape)
    (hsz : c'.size = c.size) : Geometry c' size align := by
  have hst : c'.stride = c.stride := congrArg Shape.stride hsh
  have ho : c'.order = c.order := congrArg Shape.order hsh
  exact ⟨hsh ▸ h.shape, hst ▸ h.room, hsz.trans h.size, hst ▸ h.stride, ho ▸ h.base⟩

lemma slabGood_init (hfit : SetupFits size align) (h : (slabSystem id size align).init s) :
    SlabGood id size align s := by
  obtain ⟨hlive, hc, hgood, hram⟩ := h
  obtain ⟨hgeo, hslabs, hnr, hact⟩ := cacheSetup_geometry hfit hc
  have hlists := List.append_eq_nil_iff.1 hslabs
  have hlists' := List.append_eq_nil_iff.1 hlists.1
  have hblocks : s.cache.blocks = [] := by rw [KmemCache.blocks, hslabs, List.map_nil]
  refine ⟨hgeo, fun _ => [], ⟨⟨hgeo.shape, hram, by rwa [hblocks, List.nil_append], ?_, ?_, ?_, ?_⟩,
    ⟨?_, ?_, ?_⟩⟩, ?_, fun a => ?_⟩
  · simp [hslabs]
  · simp [hlists.2]
  · simp [hslabs, hnr]
  · simp [hslabs, hact]
  · simp [hlists'.1]
  · simp [hlists'.2]
  · simp [hlists.2]
  · simp [hlive]
  · simp [hlive, Pmm.Live, hslabs]

lemma SlabGood.foreign {u : Pmm} {others : List Block} (h : SlabGood id size align s)
    (hgood : u.Good (s.cache.blocks ++ others)) (hmax : u.maxPfn = s.pmm.maxPfn)
    (ha : ∀ p ∈ s.cache.slabs, Pmm.Agree s.pmm u p s.cache.order) :
    SlabGood id size align ⟨u, s.cache, others, s.live⟩ := by
  obtain ⟨hgeo, free, hready, hlive⟩ := h
  exact ⟨hgeo, free, hready.foreign hgood hmax ha, hlive⟩

lemma SlabGood.good (h : SlabGood id size align s) : s.pmm.Good (s.cache.blocks ++ s.others) := by
  obtain ⟨-, free, hready, -⟩ := h
  exact hready.inv.good

lemma apart_of_good {u : Pmm} {c : KmemCache} {others : List Block}
    (h : u.Good (c.blocks ++ others)) {p q : ℕ} (hp : p ∈ c.slabs) {b : Block} (hb : b ∈ others)
    (hpq : p ≤ q ∧ q < p + 2 ^ c.order) : ¬ b.Contains q := fun hbq =>
  (List.pairwise_append.1 h.inv.held_apart).2.2 _ (List.mem_map_of_mem hp) b hb q ⟨hpq, hbq⟩

lemma ready_write {id a size : ℕ} {s : Pmm} {c : KmemCache} {others : List Block} {free : ℕ → List ℕ} {m : ℕ → UInt8}
    (h : Pmm.Ready id s c others free) (hroom : size + redzone ≤ c.stride) (ha : Pmm.Live c free a)
    (hm : ∀ x, ¬ (virtToPhys a ≤ x ∧ x < virtToPhys a + size) → m x = s.mem x)
    (hmark : read m (virtToPhys a + 8) 8 ≠ freeMagic) :
    Pmm.Ready id { s with mem := m } c others free ∧
      Pmm.Beside s { s with mem := m } c.blocks c.blocks others := by
  obtain ⟨hinv, hsort⟩ := h
  obtain ⟨p, hp, i, hi, hni, rfl⟩ := ha
  have hw := hinv.shape
  rw [hw.virtToPhys (hinv.fits hp) hi] at hm hmark
  have hst : c.shape.stride = c.stride := rfl
  have hcov : ∀ x, ¬ c.shape.Covers p i x → m x = s.mem x := fun x hx =>
    hm x fun hx' => hx ⟨hx'.1, by omega⟩
  have hslab := hinv.slab p hp
  have hobj : Pmm.UsedObject { s with mem := m } c.shape (c.shape.phys p i) :=
    ⟨hmark, ⟨fun k hk => (hm _ (by omega)).trans ((hslab.used i hi hni).redzone.bytes k hk)⟩⟩
  have hwi : Pmm.Within s { s with mem := m } c.shape p :=
    ⟨Pmm.harmless_of_eq rfl rfl rfl, fun _ => rfl, fun _ => rfl, fun _ _ => rfl,
      fun x hx => hcov x fun hx' => hx (hw.inside hi hx')⟩
  have hnew := hinv.within (a := c.activeObjs) (b := c.allocs) (d := c.frees) hp
    hwi (hslab.write hw hni hcov rfl hobj) rfl
  rw [Function.update_eq_self] at hnew
  exact ⟨⟨hnew, hsort⟩, hinv.beside hp hwi⟩

lemma SlabGood.write {a : ℕ} {m : ℕ → UInt8} (h : SlabGood id size align s) (ha : a ∈ s.live)
    (hm : ∀ x, ¬ (virtToPhys a ≤ x ∧ x < virtToPhys a + s.cache.size) → m x = s.pmm.mem x)
    (hmark : read m (virtToPhys a + 8) 8 ≠ freeMagic) :
    SlabGood id size align ⟨{ s.pmm with mem := m }, s.cache, s.others, s.live⟩ := by
  obtain ⟨hgeo, free, hready, hnd, hlive⟩ := h
  have hroom : s.cache.size + redzone ≤ s.cache.stride := hgeo.size ▸ hgeo.room
  exact ⟨hgeo, free, (ready_write hready hroom ((hlive a).1 ha) hm hmark).1, hnd, hlive⟩

lemma SlabGood.otherAlloc {u : Pmm} {order p : ℕ} {gfp : Gfp} (h : SlabGood id size align s)
    (hr : s.pmm.allocPages order gfp = (some p, u)) :
    SlabGood id size align ⟨u, s.cache, ⟨p, order⟩ :: s.others, s.live⟩ := by
  rcases Pmm.allocPages_spec order gfp h.good with ⟨p', u', hr', hal⟩ | ⟨hr', -⟩
  · obtain ⟨hp, rfl⟩ := Prod.mk.inj (hr'.symm.trans hr)
    cases hp
    have hgood := hal.good.perm List.perm_middle.symm
    exact h.foreign hgood hal.maxPfn fun q hq =>
      hal.agree (b := ⟨q, _⟩) (List.mem_append_left _ (List.mem_map_of_mem hq))
  · cases hr'.symm.trans hr

lemma SlabGood.otherFree {u : Pmm} {b : Block} (h : SlabGood id size align s) (hb : b ∈ s.others)
    (hr : s.pmm.freePages b.base b.order = .ok u) :
    SlabGood id size align ⟨u, s.cache, s.others.erase b, s.live⟩ := by
  obtain ⟨u', hr', hfr⟩ := Pmm.freePages_spec h.good (List.mem_append_right _ hb)
  cases hr'.symm.trans hr
  have hnot : b ∉ s.cache.blocks := fun hb' =>
    (List.nodup_append'.1 h.good.inv.held_nodup).2.2 hb' hb
  have hgood := hfr.good
  rw [List.erase_append_right _ hnot] at hgood
  refine h.foreign hgood hfr.maxPfn fun q hq => hfr.agree (c := ⟨q, _⟩) ?_
  rw [List.erase_append_right _ hnot]
  exact List.mem_append_left _ (List.mem_map_of_mem hq)

lemma SlabGood.otherPage {q : ℕ} {f : Page → Page} (h : SlabGood id size align s)
    (hq : ∃ b ∈ s.others, b.Contains q)
    (hf : ∀ g, (f g).reserved = g.reserved ∧ (f g).buddy = g.buddy ∧ (f g).order = g.order) :
    SlabGood id size align ⟨s.pmm.setPage q f, s.cache, s.others, s.live⟩ := by
  obtain ⟨b, hb, hbq⟩ := hq
  have hgood : (s.pmm.setPage q f).Good (s.cache.blocks ++ s.others) :=
    h.good.of_harmless (Pmm.setPage_harmless f (fun g => ⟨(hf g).1, (hf g).2.1⟩)
      fun _ => (hf _).2.2) (fun _ => rfl) fun r => by
        by_cases hr : r = q
        · subst hr; simp [hf]
        · simp [hr]
  refine h.foreign hgood rfl fun p hp => ⟨fun r h₁ h₂ => ?_, fun _ _ _ => rfl⟩
  have hne : r ≠ q := by
    rintro rfl
    exact apart_of_good h.good hp hb ⟨h₁, h₂⟩ hbq
  simp [hne]

lemma SlabStep.good {x : SlabAction} (h : SlabGood id size align s) (hst : SlabStep id s x t) :
    SlabGood id size align t := by
  cases hst with
  | alloc hr =>
    obtain ⟨hgeo, free, hready, hnd, hlive⟩ := h
    rcases Pmm.kmemCacheAlloc_spec hready with hnone | ⟨a, u, c', free', hr', hready', hsh, hsz, hnew, hl, -⟩
    · cases hnone.symm.trans hr
    · cases hr'.symm.trans hr
      refine ⟨hgeo.congr hsh hsz, free', hready', List.nodup_cons.2 ⟨?_, hnd⟩, fun b => ?_⟩
      · exact fun ha => hnew ((hlive _).1 ha)
      · rw [hl, List.mem_cons, hlive]
  | allocFail hr =>
    obtain ⟨hgeo, free, hready, hlive⟩ := h
    rcases Pmm.kmemCacheAlloc_spec hready with hnone | ⟨a, u, c', free', hr', -⟩
    · cases hnone.symm.trans hr
      exact ⟨hgeo, free, hready, hlive⟩
    · cases hr'.symm.trans hr
  | free ha hr =>
    obtain ⟨hgeo, free, hready, hnd, hlive⟩ := h
    obtain ⟨u, c', free', hr', hready', hsh, hsz, hl, -⟩ :=
      Pmm.kmemCacheFree_spec hready ((hlive _).1 ha)
    cases hr'.symm.trans hr
    refine ⟨hgeo.congr hsh hsz, free', hready', hnd.erase _, fun b => ?_⟩
    rw [hnd.mem_erase_iff, hl, hlive, and_comm]
  | write ha hm hmark => exact h.write ha hm hmark
  | otherAlloc hr => exact h.otherAlloc hr
  | otherFree hb hr => exact h.otherFree hb hr
  | otherWrite hm =>
    exact h.foreign (h.good.of_harmless (Pmm.harmless_of_eq rfl rfl rfl) (fun _ => rfl)
      fun _ => rfl) rfl fun p hp => ⟨fun _ _ _ => rfl, hm p hp⟩
  | otherPage hq hf => exact h.otherPage hq hf

lemma SlabGood.slabView {free : ℕ → List ℕ} (h : Pmm.Ready id s.pmm s.cache s.others free)
    (hlive : ∀ a, a ∈ s.live ↔ Pmm.Live s.cache free a) {p : ℕ} (hp : p ∈ s.cache.slabs) :
    SlabView s free p := by
  have hsl := h.inv.slab p hp
  have hlen : (s.pmm.page p).inuse + (free p).length = s.cache.objsPerSlab := hsl.inuse
  have hobjs : 0 < s.cache.objsPerSlab := h.inv.shape.objs
  have hpart : p ∈ s.cache.partialSlabs → 0 < (s.pmm.page p).inuse ∧
      (s.pmm.page p).inuse < s.cache.objsPerSlab := fun hq => by
    obtain ⟨hne, hlt⟩ := h.sorted.partialSlabs p hq nofun
    have := List.length_pos_of_ne_nil hne
    omega
  have hfull : p ∈ s.cache.fullSlabs → (s.pmm.page p).inuse = s.cache.objsPerSlab := fun hq => by
    rw [h.sorted.fullSlabs p hq nofun, List.length_nil] at hlen
    omega
  have hempty : p ∈ s.cache.emptySlabs → (s.pmm.page p).inuse = 0 := fun hq => by
    have := h.sorted.emptySlabs p hq nofun
    omega
  have hone := KmemCache.mem_slabs.1 hp
  refine ⟨hsl.chain, hsl.nodup, fun i => ?_, hlen, ⟨hpart, fun _ => ?_⟩, ⟨hfull, fun _ => ?_⟩,
    ⟨hempty, fun _ => ?_⟩⟩
  · constructor
    · refine fun hi => ⟨hsl.bound i hi, fun ha => ?_⟩
      obtain ⟨q, hq, j, hj, hnj, he⟩ := (hlive _).1 ha
      obtain ⟨rfl, rfl⟩ := h.inv.addr_inj hp hq (hsl.bound i hi) hj he
      exact hnj hi
    · rintro ⟨hi, ha⟩
      by_contra hni
      exact ha ((hlive _).2 ⟨p, hp, i, hi, hni, rfl⟩)
  all_goals
    rcases hone with hq | hq | hq
    · have := hpart hq
      first | exact hq | omega
    · have := hfull hq
      first | exact hq | omega
    · have := hempty hq
      first | exact hq | omega

lemma addr_aligned {c : KmemCache} {p i : ℕ} (hgeo : Geometry c size align) (hp : 2 ^ c.order ∣ p) :
    max align 8 ∣ c.shape.addr p i := by
  have hhhdm : pageSize * 2 ^ c.order ∣ hhdmBase :=
    (mul_dvd_mul_left pageSize (pow_dvd_pow 2 hgeo.shape.order)).trans (by decide)
  have hpage : pageSize * 2 ^ c.order ∣ pageToPhys p := by
    rw [pageToPhys, mul_comm p]
    exact mul_dvd_mul_left _ hp
  exact dvd_add (dvd_add (hgeo.base.trans hpage) (hgeo.base.trans hhhdm))
    (dvd_mul_of_dvd_right hgeo.stride i)

lemma addr_apart {free : ℕ → List ℕ} {c : KmemCache} {u : Pmm} {others : List Block}
    (h : Pmm.CacheInv id u c others free) {p q i j : ℕ} (hp : p ∈ c.slabs) (hq : q ∈ c.slabs)
    (hi : i < c.objsPerSlab) (hj : j < c.objsPerSlab) (hne : c.shape.addr p i ≠ c.shape.addr q j) :
    c.shape.addr p i + c.stride ≤ c.shape.addr q j ∨
      c.shape.addr q j + c.stride ≤ c.shape.addr p i := by
  by_cases hpq : p = q
  · subst hpq
    have hij : i ≠ j := fun he => hne (he ▸ rfl)
    have hst : c.shape.stride = c.stride := rfl
    simp only [Shape.addr, hst]
    rcases Nat.lt_or_gt_of_ne hij with hlt | hlt
    · have := Nat.mul_le_mul_right c.stride (Nat.succ_le_of_lt hlt)
      rw [Nat.succ_mul] at this
      omega
    · have := Nat.mul_le_mul_right c.stride (Nat.succ_le_of_lt hlt)
      rw [Nat.succ_mul] at this
      omega
  · have hfar := h.apart hp hq hpq
    have hpos := Nat.two_pow_pos c.order
    have h₁ := h.shape.phys_bounds (p := p) hi
    have h₂ := h.shape.phys_bounds (p := q) hj
    have hor : p + 2 ^ c.order ≤ q ∨ q + 2 ^ c.order ≤ p := by
      by_contra hno
      exact hfar (max p q) (by omega)
    have hst : c.shape.stride = c.stride := rfl
    have ho : c.shape.order = c.order := rfl
    simp only [Shape.addr_eq, pageToPhys, pageSize, hst, ho] at *
    omega

lemma SlabGood.view (h : SlabGood id size align s) : CacheView id align s := by
  obtain ⟨hgeo, free, hready, hnd, hlive⟩ := h
  have hinv := hready.inv
  have hfresh : ∀ a t c, Pmm.kmemCacheAlloc id s.pmm s.cache = .ok (some a, t, c) → a ∉ s.live := by
    intro a t c hr ha
    rcases Pmm.kmemCacheAlloc_spec hready with hr' | ⟨a', t', c', free', hr', -, -, -, hnew, -⟩
    · cases hr'.symm.trans hr
    · cases hr'.symm.trans hr
      exact hnew ((hlive a).1 ha)
  refine ⟨hinv.nodup, ⟨free, fun p hp => SlabGood.slabView hready hlive hp⟩, hinv.oneEmpty,
    hinv.nrSlabs, hinv.active, hnd, fun a ha => ?_, hgeo.size ▸ hgeo.room, fun a ha b hb hne => ?_,
    hfresh, ?_, fun a ha => ?_⟩
  · obtain ⟨p, hp, i, hi, -, rfl⟩ := (hlive a).1 ha
    have hal := (hinv.good.inv.held ⟨p, s.cache.order⟩
      (List.mem_append_left _ (List.mem_map_of_mem hp))).2.1
    exact ⟨addr_aligned hgeo hal, p, hp, hinv.shape.addr_inside hi⟩
  · obtain ⟨p, hp, i, hi, -, rfl⟩ := (hlive a).1 ha
    obtain ⟨q, hq, j, hj, -, rfl⟩ := (hlive b).1 hb
    exact addr_apart hinv hp hq hi hj hne
  · rcases Pmm.kmemCacheAlloc_spec hready with hr | ⟨a, t, c, free', hr, -⟩
    · rw [hr]
      rfl
    · rw [hr]
      rfl
  · obtain ⟨t, c, free', hr, -⟩ := Pmm.kmemCacheFree_spec hready ((hlive a).1 ha)
    rw [hr]
    rfl

theorem cacheSafe_of_setupFits (hfit : SetupFits size align) : CacheSafe size align :=
  fun _ _ h => SlabGood.view (h.invariant (fun _ hi => slabGood_init hfit hi)
    fun _ _ _ hs hst => hst.good hs)

theorem cacheSafe_of_setupFits_page : SetupFits 100 64 ∧ CacheSafe 100 64 :=
  have hfit : SetupFits 100 64 := ⟨Or.inr ⟨6, rfl⟩, by decide⟩
  ⟨hfit, cacheSafe_of_setupFits hfit⟩

end Runs

theorem not_cacheSafe_of_wrap : ¬ CacheSafe (2 ^ 64 - 7) 8 := by
  intro h
  have hc : cacheSetup (2 ^ 64 - 7) 8 =
      .ok { size := 2 ^ 64 - 7, stride := 8, order := 0, objsPerSlab := 512 } := by decide +kernel
  have hgood : (Pmm.pmmInit 0x10000 (fun _ => 0) [⟨0x1000, 0x9000⟩]).Good [] :=
    Pmm.pmmInit_good (List.pairwise_singleton _ _) (by decide)
  have hram : (Pmm.pmmInit 0x10000 (fun _ => 0) [⟨0x1000, 0x9000⟩]).maxPfn * pageSize ≤
      vmallocStart - hhdmBase := by decide +kernel
  have hfail : (Pmm.kmemCacheAlloc 1 (Pmm.pmmInit 0x10000 (fun _ => 0) [⟨0x1000, 0x9000⟩])
      { size := 2 ^ 64 - 7, stride := 8, order := 0, objsPerSlab := 512 }).isOk = false := by
    decide +kernel
  generalize Pmm.pmmInit 0x10000 (fun _ => 0) [⟨0x1000, 0x9000⟩] = s at hgood hram hfail
  generalize KmemCache.mk (2 ^ 64 - 7) 8 0 512 [] [] [] 0 0 0 0 = c at hc hfail
  have hview := h 1 ⟨s, c, [], []⟩ (.init ⟨rfl, hc, hgood, hram⟩)
  rw [hview.allocRuns] at hfail
  cases hfail

end MyOS.Memory
