import MyOS.Memory.Page

/-! The buddy allocator: free lists, splitting and coalescing, `alloc_pages`, `free_pages`
and the boot-time hand-over of the free regions. -/

namespace MyOS.Memory

open Library.Dyadic

inductive Panic
  | noSuchPage
  | reservedPage
  | doubleFree
  | misaligned
  | wrongOrder
  | negativeRefcount
  | activeTables
  deriving DecidableEq, Repr

namespace Pmm

def addFree (s : Pmm) (z : ZoneId) (p order : ℕ) : Pmm :=
  (s.setPage p fun g => { g with buddy := true, order := order }).setArea z order
    fun a => { list := p :: a.list, count := a.count + 1 }

def delFree (s : Pmm) (z : ZoneId) (p order : ℕ) : Pmm :=
  ((s.listDel p).setPage p fun g => { g with buddy := false }).setArea z order
    fun a => { a with count := a.count - 1 }

/-- The test of `buddy_free`: the buddy lies in the zone, is free and has the same order. -/
def mergeable (s : Pmm) (z : ZoneId) (pfn order : ℕ) : Bool :=
  let buddyPfn := pfn ^^^ 2 ^ order
  !(buddyPfn < (s.zone z).startPfn || (s.zone z).endPfn < buddyPfn + 2 ^ order) &&
    ((s.page buddyPfn).buddy && (s.page buddyPfn).order == order)

def coalesce : ℕ → Pmm → ZoneId → ℕ → ℕ → Pmm
  | 0, s, z, pfn, order => s.addFree z pfn order
  | n + 1, s, z, pfn, order =>
    if s.mergeable z pfn order then
      coalesce n (s.delFree z (pfn ^^^ 2 ^ order) order) z (clearBit pfn order) (order + 1)
    else s.addFree z pfn order

def buddyFree (s : Pmm) (z : ZoneId) (pfn order : ℕ) : Pmm :=
  coalesce (maxOrder - 1 - order) s z pfn order

/-- `while (o > order) { o--; add_free(z, p + (1UL << o), o); }` with `o = order + d`. -/
def split : ℕ → Pmm → ZoneId → ℕ → ℕ → Pmm
  | 0, s, _, _, _ => s
  | d + 1, s, z, p, order =>
    split d (s.addFree z (p + 2 ^ (order + d)) (order + d)) z p order

def allocFrom : ℕ → ℕ → Pmm → ZoneId → ℕ → Option ℕ × Pmm
  | 0, _, s, _, _ => (none, s)
  | n + 1, d, s, z, order =>
    match s.list z (order + d) with
    | [] => allocFrom n (d + 1) s z order
    | p :: _ => (some p, split d (s.delFree z p (order + d)) z p order)

def buddyAlloc (s : Pmm) (z : ZoneId) (order : ℕ) : Option ℕ × Pmm :=
  allocFrom (maxOrder - order) 0 s z order

def zonesFor (gfp : Gfp) : List ZoneId :=
  if gfp.dma32 then [.dma32] else [.normal, .dma32]

def markAllocated (s : Pmm) (z : ZoneId) (p order : ℕ) (gfp : Gfp) : Pmm :=
  let s := s.setZone z fun a => { a with freePages := a.freePages - 2 ^ order }
  let s := s.setPage p fun g =>
    { g with head := true, order := order, refcount := 1, mapcount := 0 }
  if gfp.zero then s.memset (pageToPhys p) (pageSize * 2 ^ order) 0 else s

def allocZones : List ZoneId → Pmm → ℕ → Gfp → Option ℕ × Pmm
  | [], s, _, _ => (none, s)
  | z :: zs, s, order, gfp =>
    match s.buddyAlloc z order with
    | (none, s) => allocZones zs s order gfp
    | (some p, s) => (some p, s.markAllocated z p order gfp)

def allocPages (s : Pmm) (order : ℕ) (gfp : Gfp) : Option ℕ × Pmm :=
  if maxOrder ≤ order then (none, s) else allocZones (zonesFor gfp) s order gfp

def freePages (s : Pmm) (pfn order : ℕ) : Except Panic Pmm :=
  if s.maxPfn ≤ pfn then .error .noSuchPage
  else if (s.page pfn).reserved then .error .reservedPage
  else if (s.page pfn).buddy then .error .doubleFree
  else if pfn % 2 ^ order ≠ 0 then .error .misaligned
  else if (s.page pfn).head ∧ (s.page pfn).order ≠ order then .error .wrongOrder
  else
    let s := s.setPage pfn fun g =>
      { g with head := false, slab := false, refcount := 0, cache := none }
    let z := pfnZone pfn
    let s := s.buddyFree z pfn order
    .ok (s.setZone z fun a => { a with freePages := a.freePages + 2 ^ order })

def getPage (s : Pmm) (pfn : ℕ) : Pmm :=
  s.setPage pfn fun g => { g with refcount := g.refcount + 1 }

def putPage (s : Pmm) (pfn : ℕ) : Except Panic Pmm :=
  let s := s.setPage pfn fun g => { g with refcount := g.refcount - 1 }
  if (s.page pfn).refcount = 0 then s.freePages pfn (s.page pfn).order
  else if (s.page pfn).refcount < 0 then .error .negativeRefcount
  else .ok s

/-- `while (order > 0 && (start is misaligned || start + (1UL << order) > zone_end)) order--;` -/
def fitOrder (start zoneEnd : ℕ) : ℕ → ℕ
  | 0 => 0
  | order + 1 =>
    if start % 2 ^ (order + 1) ≠ 0 ∨ zoneEnd < start + 2 ^ (order + 1) then
      fitOrder start zoneEnd order
    else order + 1

def clearReserved (s : Pmm) (start len : ℕ) : Pmm :=
  s.setPages start len fun g => { g with reserved := false }

def freeRangeStep (s : Pmm) (start stop : ℕ) : Pmm × ℕ :=
  let z := pfnZone start
  let zoneEnd := min stop (s.zone z).endPfn
  let order := fitOrder start zoneEnd (maxOrder - 1)
  let s := s.clearReserved start (2 ^ order)
  let s := s.buddyFree z start order
  (s.setZone z fun a => { a with
    freePages := a.freePages + 2 ^ order, managedPages := a.managedPages + 2 ^ order },
    start + 2 ^ order)

/-- Every round advances `start`, so `end - start` rounds are enough. -/
def freeRangeLoop : ℕ → Pmm → ℕ → ℕ → Pmm
  | 0, s, _, _ => s
  | n + 1, s, start, stop =>
    if start < stop then
      freeRangeLoop n (s.freeRangeStep start stop).1 (s.freeRangeStep start stop).2 stop
    else s

def freeRange (s : Pmm) (start stop : ℕ) : Pmm := freeRangeLoop (stop - start) s start stop

end Pmm

structure Region where
  base : ℕ
  stop : ℕ
  deriving DecidableEq, Repr

def Region.Disjoint (r r' : Region) : Prop :=
  ∀ a, r.base ≤ a → a < r.stop → r'.base ≤ a → r'.stop ≤ a

namespace Pmm

/-- The state of `pmm_init` before the regions are handed over: every page is reserved. -/
def blank (maxRam : ℕ) (mem : ℕ → UInt8) : Pmm where
  page _ := { reserved := true }
  maxPfn := maxRam / pageSize
  zone
    | .dma32 => { startPfn := 0, endPfn := min (maxRam / pageSize) pfn4G }
    | .normal => { startPfn := pfn4G, endPfn := max (maxRam / pageSize) pfn4G }
  mem := mem

/-- `memblock` hands over disjoint regions and keeps `max_ram` at or above every end. -/
def pmmInit (maxRam : ℕ) (mem : ℕ → UInt8) (regions : List Region) : Pmm :=
  regions.foldl (fun s r => s.freeRange (r.base / pageSize) (r.stop / pageSize)) (blank maxRam mem)

end Pmm

end MyOS.Memory
