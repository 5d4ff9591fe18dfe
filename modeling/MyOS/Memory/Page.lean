import MyOS.Library.Bytes
import MyOS.Library.Dyadic

/-! The page array `mem_map`, the two zones and their free lists. -/

namespace MyOS.Memory

open Library Library.Dyadic Function

def maxOrder : ℕ := 11
def pageShift : ℕ := 12
def pageSize : ℕ := 4096
def pfn4G : ℕ := 0x100000000 / pageSize

/-- `struct page`; the bits of `flags` are the first four fields, `slabHead` is the pointer
`head` of a slab's pages to the first of them. -/
structure Page where
  reserved : Bool := false
  buddy : Bool := false
  slab : Bool := false
  head : Bool := false
  refcount : ℤ := 0
  order : ℕ := 0
  mapcount : ℕ := 0
  cache : Option ℕ := none
  freelist : ℕ := 0
  inuse : ℕ := 0
  slabHead : Option ℕ := none
  deriving DecidableEq, Repr

inductive ZoneId
  | dma32
  | normal
  deriving DecidableEq, Repr

structure FreeArea where
  list : List ℕ := []
  count : ℕ := 0
  deriving DecidableEq, Repr

structure Zone where
  startPfn : ℕ := 0
  endPfn : ℕ := 0
  freeArea : ℕ → FreeArea := fun _ => {}
  freePages : ℕ := 0
  managedPages : ℕ := 0

/-- The allocator's state and the bytes of physical memory. A free list holds the frame
numbers of its blocks' first pages. -/
structure Pmm where
  page : ℕ → Page
  maxPfn : ℕ
  zone : ZoneId → Zone
  mem : ℕ → UInt8

structure Gfp where
  zero : Bool := false
  dma32 : Bool := false
  deriving DecidableEq, Repr

def pfnZone (pfn : ℕ) : ZoneId := if pfn < pfn4G then .dma32 else .normal

namespace Pmm

def setPage (s : Pmm) (p : ℕ) (f : Page → Page) : Pmm :=
  { s with page := update s.page p (f (s.page p)) }

def setZone (s : Pmm) (z : ZoneId) (f : Zone → Zone) : Pmm :=
  { s with zone := update s.zone z (f (s.zone z)) }

def setArea (s : Pmm) (z : ZoneId) (o : ℕ) (f : FreeArea → FreeArea) : Pmm :=
  s.setZone z fun a => { a with freeArea := update a.freeArea o (f (a.freeArea o)) }

def list (s : Pmm) (z : ZoneId) (o : ℕ) : List ℕ := ((s.zone z).freeArea o).list
def count (s : Pmm) (z : ZoneId) (o : ℕ) : ℕ := ((s.zone z).freeArea o).count

def listDel (s : Pmm) (p : ℕ) : Pmm :=
  { s with zone := fun z => { s.zone z with
      freeArea := fun o => { (s.zone z).freeArea o with
        list := ((s.zone z).freeArea o).list.erase p } } }

def setPages (s : Pmm) (p n : ℕ) (f : Page → Page) : Pmm :=
  { s with page := fun q => if p ≤ q ∧ q < p + n then f (s.page q) else s.page q }

def memset (s : Pmm) (a len : ℕ) (v : UInt8) : Pmm := { s with mem := Bytes.fill s.mem a len v }

def store64 (s : Pmm) (a v : ℕ) : Pmm := { s with mem := Bytes.write s.mem a 8 v }

def load64 (s : Pmm) (a : ℕ) : ℕ := Bytes.read s.mem a 8

section Fields

variable (s : Pmm) (p q : ℕ) (z y : ZoneId) (o i : ℕ)

@[simp] lemma setPage_page (f : Page → Page) :
    (s.setPage p f).page = update s.page p (f (s.page p)) := rfl

@[simp] lemma setPage_zone (f : Page → Page) : (s.setPage p f).zone = s.zone := rfl
@[simp] lemma setPage_maxPfn (f : Page → Page) : (s.setPage p f).maxPfn = s.maxPfn := rfl
@[simp] lemma setPage_mem (f : Page → Page) : (s.setPage p f).mem = s.mem := rfl
@[simp] lemma setPage_list (f : Page → Page) : (s.setPage p f).list z o = s.list z o := rfl
@[simp] lemma setPage_count (f : Page → Page) : (s.setPage p f).count z o = s.count z o := rfl

@[simp] lemma setZone_page (f : Zone → Zone) : (s.setZone z f).page = s.page := rfl
@[simp] lemma setZone_maxPfn (f : Zone → Zone) : (s.setZone z f).maxPfn = s.maxPfn := rfl
@[simp] lemma setZone_mem (f : Zone → Zone) : (s.setZone z f).mem = s.mem := rfl
@[simp] lemma setZone_zone (f : Zone → Zone) :
    (s.setZone z f).zone = update s.zone z (f (s.zone z)) := rfl

@[simp] lemma setArea_page (f : FreeArea → FreeArea) : (s.setArea z o f).page = s.page := rfl
@[simp] lemma setArea_maxPfn (f : FreeArea → FreeArea) :
    (s.setArea z o f).maxPfn = s.maxPfn := rfl
@[simp] lemma setArea_mem (f : FreeArea → FreeArea) : (s.setArea z o f).mem = s.mem := rfl

lemma setArea_freeArea (f : FreeArea → FreeArea) :
    ((s.setArea z o f).zone y).freeArea i =
      if y = z ∧ i = o then f ((s.zone y).freeArea i) else (s.zone y).freeArea i := by
  by_cases hy : y = z
  · subst hy
    by_cases hi : i = o
    · subst hi; simp [setArea]
    · simp [setArea, hi]
  · simp [setArea, hy]

lemma setArea_zone_fields (f : FreeArea → FreeArea) :
    ((s.setArea z o f).zone y).startPfn = (s.zone y).startPfn ∧
      ((s.setArea z o f).zone y).endPfn = (s.zone y).endPfn ∧
      ((s.setArea z o f).zone y).freePages = (s.zone y).freePages := by
  by_cases hy : y = z
  · subst hy; simp [setArea]
  · simp [setArea, hy]

@[simp] lemma listDel_page : (s.listDel p).page = s.page := rfl
@[simp] lemma listDel_maxPfn : (s.listDel p).maxPfn = s.maxPfn := rfl
@[simp] lemma listDel_mem : (s.listDel p).mem = s.mem := rfl
@[simp] lemma listDel_list : (s.listDel p).list z o = (s.list z o).erase p := rfl
@[simp] lemma listDel_count : (s.listDel p).count z o = s.count z o := rfl

@[simp] lemma setPages_zone (f : Page → Page) : (s.setPages p q f).zone = s.zone := rfl
@[simp] lemma setPages_maxPfn (f : Page → Page) : (s.setPages p q f).maxPfn = s.maxPfn := rfl
@[simp] lemma setPages_mem (f : Page → Page) : (s.setPages p q f).mem = s.mem := rfl

@[simp] lemma store64_page : (s.store64 p q).page = s.page := rfl
@[simp] lemma store64_zone : (s.store64 p q).zone = s.zone := rfl
@[simp] lemma store64_maxPfn : (s.store64 p q).maxPfn = s.maxPfn := rfl

@[simp] lemma store64_mem : (s.store64 p q).mem = Bytes.write s.mem p 8 q := rfl

@[simp] lemma memset_mem (len : ℕ) (v : UInt8) :
    (s.memset p len v).mem = Bytes.fill s.mem p len v := rfl
@[simp] lemma memset_page (len : ℕ) (v : UInt8) : (s.memset p len v).page = s.page := rfl
@[simp] lemma memset_zone (len : ℕ) (v : UInt8) : (s.memset p len v).zone = s.zone := rfl
@[simp] lemma memset_maxPfn (len : ℕ) (v : UInt8) : (s.memset p len v).maxPfn = s.maxPfn := rfl

end Fields

def slots : List (ZoneId × ℕ) :=
  [ZoneId.dma32, .normal].flatMap fun z => (List.range maxOrder).map fun o => (z, o)

def freeBlocks (s : Pmm) : List Block :=
  slots.flatMap fun i => (s.list i.1 i.2).map fun p => ⟨p, i.2⟩

lemma mem_slots {z : ZoneId} {o : ℕ} : (z, o) ∈ slots ↔ o < maxOrder := by
  cases z <;> simp [slots]

lemma slots_nodup : slots.Nodup := by decide

lemma mem_freeBlocks {s : Pmm} {b : Block} :
    b ∈ s.freeBlocks ↔ b.order < maxOrder ∧ ∃ z, b.base ∈ s.list z b.order := by
  simp only [freeBlocks, List.mem_flatMap, List.mem_map, Prod.exists, mem_slots]
  constructor
  · rintro ⟨z, o, ho, p, hp, rfl⟩
    exact ⟨ho, z, hp⟩
  · rintro ⟨ho, z, hp⟩
    exact ⟨z, b.order, ho, b.base, hp, rfl⟩

lemma coverage_freeBlocks (s : Pmm) (q : ℕ) :
    coverage s.freeBlocks q =
      (slots.map fun i => (s.list i.1 i.2).countP fun p => decide ((Block.mk p i.2).Contains q)).sum := by
  simp only [coverage, freeBlocks, List.countP_flatMap, Function.comp_def, List.countP_map]

end Pmm

end MyOS.Memory

/-! Addresses: the layout of the address space, alignment, frames and their direct map. -/

namespace MyOS.Memory

def userSpaceStart : ℕ := 0x400000
def userSpaceEnd : ℕ := 0x7FFFFFFFF000
def userStackTop : ℕ := userSpaceEnd
def userStackMax : ℕ := 8 * 2 ^ 20
def mmapTop : ℕ := 0x700000000000

def pageToPhys (p : ℕ) : ℕ := p * pageSize

def hhdmBase : ℕ := 0xFFFF800000000000
def vmallocStart : ℕ := 0xFFFFC00000000000
def kernelVma : ℕ := 0xFFFFFFFF80000000

def physToVirt (a : ℕ) : ℕ := a + hhdmBase

def virtToPhys (v : ℕ) : ℕ := if kernelVma ≤ v then v - kernelVma else v - hhdmBase

def pageToVirt (p : ℕ) : ℕ := physToVirt (pageToPhys p)

def virtToPage (v : ℕ) : ℕ := virtToPhys v / pageSize

def alignDown (x align : ℕ) : ℕ := x &&& (2 ^ 64 - align)

def alignUp (x align : ℕ) : ℕ := alignDown ((x + align - 1) % 2 ^ 64) align

lemma alignDown_eq {x k : ℕ} (hx : x < 2 ^ 64) (hk : k ≤ 64) :
    alignDown x (2 ^ k) = x / 2 ^ k * 2 ^ k := by
  have hpos := Nat.two_pow_pos k
  rw [alignDown, ← Nat.shiftRight_eq_div_pow, ← Nat.shiftLeft_eq]
  refine Nat.eq_of_testBit_eq fun j => ?_
  have hmask : (2 ^ 64 - 2 ^ k).testBit j = (decide (j < 64) && !decide (j < k)) := by
    have hlt : 2 ^ k - 1 < 2 ^ 64 := by
      have := Nat.pow_le_pow_right (Nat.zero_lt_two) hk
      omega
    have := Nat.testBit_two_pow_sub_succ hlt j
    rwa [Nat.sub_add_cancel hpos, Nat.testBit_two_pow_sub_one] at this
  rw [Nat.testBit_and, hmask, Nat.testBit_shiftLeft, Nat.testBit_shiftRight]
  by_cases hjk : j < k
  · simp [hjk]
  · by_cases hj : j < 64
    · simp [hj, not_lt.1 hjk]
    · have : x.testBit j = false := Nat.testBit_lt_two_pow
        (hx.trans_le (Nat.pow_le_pow_right (Nat.zero_lt_two) (not_lt.1 hj)))
      simp [hjk, hj, Nat.add_sub_of_le (not_lt.1 hjk), this]

lemma alignUp_spec {x k : ℕ} (hk : k ≤ 64) (hx : x + 2 ^ k - 1 < 2 ^ 64) :
    2 ^ k ∣ alignUp x (2 ^ k) ∧ x ≤ alignUp x (2 ^ k) := by
  have hpos := Nat.two_pow_pos k
  rw [alignUp, Nat.mod_eq_of_lt hx, alignDown_eq hx hk]
  refine ⟨dvd_mul_left _ _, ?_⟩
  have h₁ := Nat.div_add_mod (x + 2 ^ k - 1) (2 ^ k)
  rw [Nat.mul_comm] at h₁
  omega

lemma dvd_alignDown {x : ℕ} (hx : x < 2 ^ 64) :
    pageSize ∣ alignDown x pageSize ∧ alignDown x pageSize ≤ x ∧ x < alignDown x pageSize + pageSize := by
  have h := alignDown_eq (k := 12) hx (by decide)
  have hp : pageSize = 2 ^ 12 := rfl
  rw [hp, h]
  exact ⟨dvd_mul_left _ _, by omega, by omega⟩

lemma le_alignDown {x start : ℕ} (hx : x < 2 ^ 64) (hs : pageSize ∣ start) (hle : start ≤ x) :
    start ≤ alignDown x pageSize := by
  obtain ⟨⟨a, ha⟩, -, hup⟩ := dvd_alignDown hx
  obtain ⟨b, rfl⟩ := hs
  rw [ha] at hup ⊢
  simp only [pageSize] at *
  omega

lemma alignDown_of_dvd {x : ℕ} (hx : x < 2 ^ 64) (hd : pageSize ∣ x) : alignDown x pageSize = x :=
  le_antisymm (dvd_alignDown hx).2.1 (le_alignDown hx hd le_rfl)

lemma alignUp_lt (x : ℕ) : alignUp x pageSize < 2 ^ 64 := by
  have hmod := Nat.mod_lt (x + pageSize - 1) (by decide : 0 < 2 ^ 64)
  exact (dvd_alignDown hmod).2.1.trans_lt hmod

lemma dvd_alignUp (x : ℕ) : pageSize ∣ alignUp x pageSize :=
  (dvd_alignDown (Nat.mod_lt _ (by decide))).1

lemma alignUp_le {x bound : ℕ} (hx : x ≤ bound) (hb : pageSize ∣ bound) (hlt : bound < 2 ^ 63) :
    alignUp x pageSize ≤ bound := by
  have hp : pageSize = 2 ^ 12 := rfl
  obtain ⟨k, rfl⟩ := hb
  have hmod : (x + pageSize - 1) % 2 ^ 64 = x + pageSize - 1 := by
    rw [hp] at *
    omega
  rw [alignUp, hmod, hp, alignDown_eq (by rw [hp] at *; omega) (by decide)]
  rw [hp] at *
  omega

end MyOS.Memory
