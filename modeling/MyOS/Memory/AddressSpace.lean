import MyOS.Memory.PageTable

/-! Address spaces: the VMA list, mapping and unmapping, the heap, page faults and `fork`. -/

namespace MyOS.Memory

open Library.Dyadic Library.Radix

def protRead : ℕ := 1
def protWrite : ℕ := 2
def protExec : ℕ := 4

def vmaAnon : ℕ := 1
def vmaStack : ℕ := 2
def vmaHeap : ℕ := 4
def vmaElf : ℕ := 8

structure Vma where
  start : ℕ
  stop : ℕ
  prot : ℕ
  flags : ℕ
  deriving DecidableEq, Repr

def Vma.allows (v : Vma) (bit : ℕ) : Bool := v.prot &&& bit != 0

def Vma.has (v : Vma) (flag : ℕ) : Bool := v.flags &&& flag != 0

/-- `struct mm`. `active` says that a CPU has the PML4 in CR3, `tlb` is what that CPU has cached
of the last-level entries, by page number. -/
structure Mm where
  pml4 : Pml4
  vmas : List Vma := []
  brkStart : ℕ := 0
  brk : ℕ := 0
  active : Bool := false
  tlb : ℕ → Option Pte := fun _ => none

/-- What a call of an object cache does to the page allocator: it gets by with its slabs, it
fails, it takes the pages of a new slab or it gives a slab's pages back. -/
inductive CacheEvent
  | serve
  | refuse
  | grow (order : ℕ)
  | shrink (b : Block)
  deriving DecidableEq

/-- The page allocator, the blocks that the rest of the kernel holds, the slabs among them, and
what the caches of `struct mm` and `struct vma` do at their next calls. -/
structure Machine where
  pmm : Pmm
  kernel : List Block := []
  caches : List CacheEvent := []

namespace Machine

def kmemCacheAlloc (m : Machine) : Bool × Machine :=
  match m.caches with
  | [] => (true, m)
  | .refuse :: rest => (false, { m with caches := rest })
  | .grow order :: rest =>
    match m.pmm.allocPages order {} with
    | (none, s) => (false, { m with pmm := s, caches := rest })
    | (some p, s) => (true, { pmm := s, kernel := ⟨p, order⟩ :: m.kernel, caches := rest })
  | _ :: rest => (true, { m with caches := rest })

def kmemCacheFree (m : Machine) : Except Panic Machine :=
  match m.caches with
  | [] => .ok m
  | .shrink b :: rest =>
    if b ∈ m.kernel then
      match m.pmm.freePages b.base b.order with
      | .error e => .error e
      | .ok s => .ok { pmm := s, kernel := m.kernel.erase b, caches := rest }
    else .ok { m with caches := rest }
  | _ :: rest => .ok { m with caches := rest }

def kmemCacheFrees : ℕ → Machine → Except Panic Machine
  | 0, m => .ok m
  | n + 1, m =>
    match m.kmemCacheFree with
    | .error e => .error e
    | .ok m => kmemCacheFrees n m

end Machine

def mmCreate (m : Machine) : Except Panic (Option Mm × Machine) :=
  match m.kmemCacheAlloc with
  | (false, m) => .ok (none, m)
  | (true, m) =>
    match m.pmm.pmmAllocPage { zero := true } with
    | (some p, s) => .ok (some { pml4 := emptyTable p }, { m with pmm := s })
    | (none, s) =>
      match ({ m with pmm := s } : Machine).kmemCacheFree with
      | .error e => .error e
      | .ok m => .ok (none, m)

def mmDestroy (m : Machine) (mm : Mm) : Except Panic Machine :=
  match m.kmemCacheFrees mm.vmas.length with
  | .error e => .error e
  | .ok m =>
    if mm.active then .error .activeTables
    else match m.pmm.destroyTables 4 mm.pml4 with
      | .error e => .error e
      | .ok s => ({ m with pmm := s } : Machine).kmemCacheFree

def findVma (vmas : List Vma) (addr : ℕ) : Option Vma :=
  vmas.find? fun v => v.start ≤ addr && addr < v.stop

def rangeFree (vmas : List Vma) (start stop : ℕ) : Bool :=
  vmas.all fun v => !(start < v.stop && v.start < stop)

def insertVma : List Vma → Vma → List Vma
  | [], nv => [nv]
  | v :: vs, nv => if nv.start < v.start then nv :: v :: vs else v :: insertVma vs nv

def freeAreaPass (len : ℕ) : List Vma → ℕ → Bool → Option (ℕ × Bool)
  | [], candidate, moved => some (candidate, moved)
  | v :: vs, candidate, moved =>
    if candidate < (v.stop + pageSize) % 2 ^ 64 ∧ v.start < (candidate + len + pageSize) % 2 ^ 64 then
      if v.start < (len + 2 * pageSize + userSpaceStart) % 2 ^ 64 then none
      else freeAreaPass len vs ((v.start + 2 * 2 ^ 64 - len - pageSize) % 2 ^ 64) true
    else freeAreaPass len vs candidate moved

/-- Every VMA moves the candidate at most once, so a pass more than there are VMAs is enough. -/
def freeAreaLoop (len : ℕ) (vmas : List Vma) : ℕ → ℕ → ℕ
  | 0, _ => 0
  | n + 1, candidate =>
    match freeAreaPass len vmas candidate false with
    | none => 0
    | some (c, true) => freeAreaLoop len vmas n c
    | some (c, false) => if userSpaceStart ≤ c then c else 0

def findFreeArea (vmas : List Vma) (len : ℕ) : ℕ :=
  freeAreaLoop len vmas (vmas.length + 1) ((mmapTop + 2 ^ 64 - len) % 2 ^ 64)

def mmMap (m : Machine) (mm : Mm) (addr len prot flags : ℕ) :
    Except Panic (ℕ × Machine × Mm) :=
  let len := alignUp len pageSize
  if len = 0 then .ok (0, m, mm)
  else match m.kmemCacheAlloc with
    | (false, m) => .ok (0, m, mm)
    | (true, m) =>
      let addr := if addr = 0 then findFreeArea mm.vmas len else addr
      let stop := (addr + len) % 2 ^ 64
      if addr = 0 ∨ addr % pageSize ≠ 0 ∨ addr < userSpaceStart ∨ stop < addr ∨
          userSpaceEnd < stop ∨ rangeFree mm.vmas addr stop = false then
        match m.kmemCacheFree with
        | .error e => .error e
        | .ok m => .ok (0, m, mm)
      else .ok (addr, m, { mm with
        vmas := insertVma mm.vmas { start := addr, stop := stop, prot := prot, flags := flags } })

namespace Mm

def flushPage (mm : Mm) (va : ℕ) : Mm :=
  if mm.active then { mm with tlb := Function.update mm.tlb (va / pageSize) none } else mm

def flushAll (mm : Mm) : Mm := if mm.active then { mm with tlb := fun _ => none } else mm

def vmmUnmapPage (mm : Mm) (va : ℕ) : Option Pte × Mm :=
  match mm.pml4.get va with
  | none => (none, mm)
  | some pte => (some pte, ({ mm with pml4 := mm.pml4.put va none } : Mm).flushPage va)

end Mm

def pagesIn (start stop : ℕ) : ℕ := (stop - start + pageSize - 1) / pageSize

def unmapPages : ℕ → Machine → Mm → ℕ → Except Panic (Machine × Mm)
  | 0, m, mm, _ => .ok (m, mm)
  | n + 1, m, mm, va =>
    match mm.vmmUnmapPage va with
    | (none, mm) => unmapPages n m mm (va + pageSize)
    | (some pte, mm) =>
      if pte.frame = 0 then unmapPages n m mm (va + pageSize)
      else match m.pmm.dropMapping pte.frame with
        | .error e => .error e
        | .ok s => unmapPages n { m with pmm := s } mm (va + pageSize)

def unmapRange (m : Machine) (mm : Mm) (start stop : ℕ) : Except Panic (Machine × Mm) :=
  match unmapPages (pagesIn start stop) m mm start with
  | .error e => .error e
  | .ok (m, mm) =>
    match m.pmm.pruneTables mm.pml4 start stop with
    | .error e => .error e
    | .ok (s, t, freed) =>
      let mm := { mm with pml4 := t }
      .ok ({ m with pmm := s }, if freed then mm.flushAll else mm)

lemma unmapRange_aux {x : Except Panic (Machine × Mm)}
    {prune : Pmm → Pml4 → ℕ → ℕ → Except Panic (Pmm × Pml4 × Bool)} {start stop : ℕ}
    {r : Machine × Mm} :
    (match x with
      | .error e => Except.error e
      | .ok (m, mm) =>
        match prune m.pmm mm.pml4 start stop with
        | .error e => Except.error e
        | .ok (s, t, freed) =>
          let mm := { mm with pml4 := t }
          Except.ok ({ m with pmm := s }, if freed then mm.flushAll else mm)) = .ok r ↔
    ∃ m mm s t freed, x = .ok (m, mm) ∧ prune m.pmm mm.pml4 start stop = .ok (s, t, freed) ∧
      r = ({ m with pmm := s },
        if freed then ({ mm with pml4 := t } : Mm).flushAll else { mm with pml4 := t }) := by
  refine ⟨fun h => ?_, ?_⟩
  · rcases x with e | ⟨m, mm⟩
    · cases h
    rcases hp : prune m.pmm mm.pml4 start stop with e | ⟨s, t, freed⟩
    · simp only [hp] at h
      cases h
    · simp only [hp, Except.ok.injEq] at h
      exact ⟨m, mm, s, t, freed, rfl, hp, h.symm⟩
  · rintro ⟨m, mm, s, t, freed, rfl, hp, rfl⟩
    simp only [hp]

lemma unmapRange_ok {m : Machine} {mm : Mm} {start stop : ℕ} {r : Machine × Mm} :
    unmapRange m mm start stop = .ok r ↔
    ∃ m₁ mm₁ s t freed, unmapPages (pagesIn start stop) m mm start = .ok (m₁, mm₁) ∧
      m₁.pmm.pruneTables mm₁.pml4 start stop = .ok (s, t, freed) ∧
      r = ({ m₁ with pmm := s },
        if freed then ({ mm₁ with pml4 := t } : Mm).flushAll else { mm₁ with pml4 := t }) :=
  unmapRange_aux

/-- What `mm_unmap` leaves of a VMA that it cuts, and the upper part that it splits off. -/
def cutVma (v : Vma) (cutStart cutEnd : ℕ) (split : Bool) : Option Vma × Option Vma :=
  if cutStart = v.start ∧ cutEnd = v.stop then (none, none)
  else if cutStart = v.start then (some { v with start := cutEnd }, none)
  else if cutEnd = v.stop then (some { v with stop := cutStart }, none)
  else if split then (some { v with stop := cutStart }, some { v with start := cutEnd })
  else (some v, none)

/-- The loop of `mm_unmap`: the VMAs that are left and the one that was split off. `split` says
that the spare VMA is still there. -/
def unmapLoop (addr stop : ℕ) : List Vma → Bool → Machine → Mm →
    Except Panic (List Vma × Option Vma × Machine × Mm)
  | [], _, m, mm => .ok ([], none, m, mm)
  | v :: vs, split, m, mm =>
    if stop ≤ v.start ∨ v.stop ≤ addr then
      match unmapLoop addr stop vs split m mm with
      | .error e => .error e
      | .ok (vs, upper, m, mm) => .ok (v :: vs, upper, m, mm)
    else
      let cutStart := max addr v.start
      let cutEnd := min stop v.stop
      match unmapRange m mm cutStart cutEnd with
      | .error e => .error e
      | .ok (m, mm) =>
        match cutVma v cutStart cutEnd split with
        | (none, _) =>
          match m.kmemCacheFree with
          | .error e => .error e
          | .ok m => unmapLoop addr stop vs split m mm
        | (some v, none) =>
          match unmapLoop addr stop vs split m mm with
          | .error e => .error e
          | .ok (vs, upper, m, mm) => .ok (v :: vs, upper, m, mm)
        | (some v, some u) =>
          -- the spare VMA is used up; `insert_vma` finds its place in the finished list
          match unmapLoop addr stop vs false m mm with
          | .error e => .error e
          | .ok (vs, _, m, mm) => .ok (v :: vs, some u, m, mm)

def mmUnmap (m : Machine) (mm : Mm) (addr len : ℕ) : Except Panic (Bool × Machine × Mm) :=
  let len := alignUp len pageSize
  let stop := (addr + len) % 2 ^ 64
  if addr % pageSize ≠ 0 ∨ len = 0 ∨ stop < addr then .ok (false, m, mm)
  else
    let (split, m) := m.kmemCacheAlloc
    match unmapLoop addr stop mm.vmas split m mm with
    | .error e => .error e
    | .ok (vmas, some u, m, mm) => .ok (true, m, { mm with vmas := insertVma vmas u })
    | .ok (vmas, none, m, mm) =>
      match if split then m.kmemCacheFree else .ok m with
      | .error e => .error e
      | .ok m => .ok (true, m, { mm with vmas := vmas })

def findHeap : List Vma → Option (List Vma × Vma × List Vma)
  | [] => none
  | v :: vs =>
    match findHeap vs with
    | some (before, heap, after) => some (v :: before, heap, after)
    | none => if v.has vmaHeap then some ([], v, vs) else none

def newBrk (brk : ℕ) (inc : ℤ) : ℕ := ((brk + inc) % 2 ^ 64).toNat

def mmSbrk (m : Machine) (mm : Mm) (inc : ℤ) : Except Panic (Option ℕ × Machine × Mm) :=
  let brk := newBrk mm.brk inc
  match findHeap mm.vmas with
  | none => .ok (none, m, mm)
  | some (before, heap, after) =>
    if (0 < inc ∧ brk < mm.brk) ∨ (inc < 0 ∧ brk < mm.brkStart) ∨ mmapTop < brk then
      .ok (none, m, mm)
    else
      let newEnd := max (alignUp brk pageSize) (heap.start + pageSize)
      let vmas := before ++ { heap with stop := newEnd } :: after
      if heap.stop < newEnd then
        if after.head?.any fun next => next.start < newEnd then .ok (none, m, mm)
        else .ok (some mm.brk, m, { mm with vmas := vmas, brk := brk })
      else if newEnd < heap.stop then
        match unmapRange m mm newEnd heap.stop with
        | .error e => .error e
        | .ok (m, mm) => .ok (some mm.brk, m, { mm with vmas := vmas, brk := brk })
      else .ok (some mm.brk, m, { mm with brk := brk })

def Pmm.copyFrame (s : Pmm) (src dst : ℕ) : Pmm :=
  { s with mem := fun a =>
      if pageToPhys dst ≤ a ∧ a < pageToPhys dst + pageSize then
        s.mem (pageToPhys src + (a - pageToPhys dst)) else s.mem a }

def Vma.pte (v : Vma) (frame : ℕ) : Pte :=
  { frame := frame, writable := v.allows protWrite, nx := !v.allows protExec }

def Pmm.setMapcount (s : Pmm) (frame : ℕ) (n : ℕ) : Pmm :=
  s.setPage frame fun g => { g with mapcount := n }

def breakCow (m : Machine) (mm : Mm) (v : Vma) (page : ℕ) (pte : Pte) :
    Except Panic (Bool × Machine × Mm) :=
  if (m.pmm.page pte.frame).refcount = 1 then
    .ok (true, m, ({ mm with
      pml4 := mm.pml4.put page (some { pte with writable := true, cow := false }) } : Mm).flushPage page)
  else match m.pmm.allocPages 0 {} with
    | (none, s) => .ok (false, { m with pmm := s }, mm)
    | (some p, s) =>
      match ((s.copyFrame pte.frame p).setMapcount p 1).dropMapping pte.frame with
      | .error e => .error e
      | .ok s => .ok (true, { m with pmm := s },
          ({ mm with pml4 := mm.pml4.put page (some (v.pte p)) } : Mm).flushPage page)

def faultPage (m : Machine) (mm : Mm) (v : Vma) (page : ℕ) (write : Bool) :
    Except Panic (Bool × Machine × Mm) :=
  let (ok, s, t) := m.pmm.walkCreate 3 mm.pml4 (page / pageSize)
  let m := { m with pmm := s }
  let mm := { mm with pml4 := t }
  if ok = false then .ok (false, m, mm)
  else match mm.pml4.get page with
    | none =>
      match m.pmm.allocPages 0 { zero := true } with
      | (none, s) => .ok (false, { m with pmm := s }, mm)
      | (some p, s) => .ok (true, { m with pmm := s.setMapcount p 1 },
          { mm with pml4 := mm.pml4.put page (some (v.pte p)) })
    | some pte =>
      if write && pte.cow then breakCow m mm v page pte
      else .ok (!write || pte.writable, m, mm)

/-- The result is the grown VMA and the list with it; `prev` is the node before the list. -/
def growStack (addr : ℕ) : Option Vma → List Vma → Option (Vma × List Vma)
  | _, [] => none
  | prev, v :: vs =>
    if v.has vmaStack = false ∨ v.start ≤ addr then
      match growStack addr (some v) vs with
      | none => none
      | some (u, vs) => some (u, v :: vs)
    else if addr < userStackTop - userStackMax then none
    else
      let newStart := alignDown addr pageSize
      if prev.any fun p => newStart < p.stop + pageSize then none
      else some ({ v with start := newStart }, { v with start := newStart } :: vs)

def vmaFor (mm : Mm) (addr : ℕ) : Option (Vma × Mm) :=
  match findVma mm.vmas addr with
  | some v => some (v, mm)
  | none =>
    match growStack addr none mm.vmas with
    | none => none
    | some (v, vmas) => some (v, { mm with vmas := vmas })

def mmHandleFault (m : Machine) (mm : Mm) (addr err : ℕ) : Except Panic (Bool × Machine × Mm) :=
  let write := err.testBit 1
  let ifetch := err.testBit 4
  if isUserAddress addr = false then .ok (false, m, mm)
  else match vmaFor mm addr with
    | none => .ok (false, m, mm)
    | some (v, mm) =>
      if (write && !v.allows protWrite) || (ifetch && !v.allows protExec) then .ok (false, m, mm)
      else faultPage m mm v (alignDown addr pageSize) write

def prefaultPages (write : Bool) : ℕ → Machine → Mm → ℕ → Except Panic (Bool × Machine × Mm)
  | 0, m, mm, _ => .ok (true, m, mm)
  | n + 1, m, mm, page =>
    match vmaFor mm page with
    | none => .ok (false, m, mm)
    | some (v, mm) =>
      if write && !v.allows protWrite then .ok (false, m, mm)
      else match faultPage m mm v page write with
        | .error e => .error e
        | .ok (false, m, mm) => .ok (false, m, mm)
        | .ok (true, m, mm) => prefaultPages write n m mm (page + pageSize)

def mmPrefault (m : Machine) (mm : Mm) (addr len : ℕ) (write : Bool) :
    Except Panic (Bool × Machine × Mm) :=
  if len = 0 then .ok (true, m, mm)
  else
    let stop := (addr + len) % 2 ^ 64
    if stop < addr ∨ isUserAddress addr = false ∨ userSpaceEnd < stop then .ok (false, m, mm)
    else
      let page := alignDown addr pageSize
      prefaultPages write (pagesIn page stop) m mm page

def mmPopulate (m : Machine) (mm : Mm) (addr len : ℕ) : Except Panic (Bool × Machine × Mm) :=
  mmPrefault m mm addr len false

def Pte.shared (pte : Pte) : Pte :=
  if pte.writable then { pte with writable := false, cow := true } else pte

def Pmm.shareFrame (s : Pmm) (frame : ℕ) : Pmm :=
  (s.getPage frame).setPage frame fun g => { g with mapcount := g.mapcount + 1 }

/-- The body of `copy_user_tables` for the page number `key`; the trees are the parent's and the
child's. -/
def copyEntry (s : Pmm) (parent child : Pml4) (key : ℕ) : Except Panic (Bool × Pmm × Pml4 × Pml4) :=
  match lookup ptes 3 parent key with
  | none => .ok (true, s, parent, child)
  | some pte =>
    let parent := if pte.writable then setLeaf ptes 3 parent key (some pte.shared) else parent
    let (ok, s, child) := (s.shareFrame pte.frame).walkCreate 3 child key
    if ok then .ok (true, s, parent, setLeaf ptes 3 child key (some pte.shared))
    else match s.putPage pte.frame with
      | .error e => .error e
      | .ok s => .ok (false, s, parent, child)

def copyEntries : List ℕ → Pmm → Pml4 → Pml4 → Except Panic (Bool × Pmm × Pml4 × Pml4)
  | [], s, parent, child => .ok (true, s, parent, child)
  | key :: rest, s, parent, child =>
    match copyEntry s parent child key with
    | .error e => .error e
    | .ok (false, s, parent, child) => .ok (false, s, parent, child)
    | .ok (true, s, parent, child) => copyEntries rest s parent child

def copyUserTables (s : Pmm) (parent child : Pml4) : Except Panic (Bool × Pmm × Pml4 × Pml4) :=
  copyEntries (keys ptes width 3 parent) s parent child

def copyVmas : List Vma → Machine → Bool × List Vma × Machine
  | [], m => (true, [], m)
  | v :: vs, m =>
    match m.kmemCacheAlloc with
    | (false, m) => (false, [], m)
    | (true, m) =>
      let (ok, copies, m) := copyVmas vs m
      (ok, v :: copies, m)

def mmFork (m : Machine) (parent : Mm) : Except Panic (Machine × Mm × Option Mm) :=
  match mmCreate m with
  | .error e => .error e
  | .ok (none, m) => .ok (m, parent, none)
  | .ok (some child, m) =>
    let (ok, vmas, m) := copyVmas parent.vmas m
    let child := { child with brkStart := parent.brkStart, brk := parent.brk, vmas := vmas }
    match if ok then copyUserTables m.pmm parent.pml4 child.pml4
        else .ok (false, m.pmm, parent.pml4, child.pml4) with
    | .error e => .error e
    | .ok (ok, s, parentTables, childTables) =>
      let m := { m with pmm := s }
      let parent := ({ parent with pml4 := parentTables } : Mm).flushAll
      let child := { child with pml4 := childTables }
      if ok then .ok (m, parent, some child)
      else match mmDestroy m child with
        | .error e => .error e
        | .ok m => .ok (m, parent, none)

/-- A `PT_LOAD` segment of positive size; its bytes in the file are left out. -/
structure Segment where
  vaddr : ℕ
  memsz : ℕ
  filesz : ℕ
  prot : ℕ
  deriving DecidableEq, Repr

def Segment.stop (g : Segment) : ℕ := (g.vaddr + g.memsz) % 2 ^ 64

def loadSegment (m : Machine) (mm : Mm) (g : Segment) : Except Panic (Bool × Machine × Mm) :=
  if g.stop < g.vaddr ∨ g.vaddr < userSpaceStart ∨ mmapTop < g.stop then .ok (false, m, mm)
  else
    let vstart := alignDown g.vaddr pageSize
    match mmMap m mm vstart (alignUp g.stop pageSize - vstart) g.prot vmaElf with
    | .error e => .error e
    | .ok (addr, m, mm) =>
      if addr = 0 then .ok (false, m, mm)
      else if g.filesz = 0 then .ok (true, m, mm)
      else mmPopulate m mm g.vaddr g.filesz

def elfLoad : List Segment → Machine → Mm → Except Panic (Bool × Machine × Mm)
  | [], m, mm => .ok (true, m, mm)
  | g :: rest, m, mm =>
    match loadSegment m mm g with
    | .error e => .error e
    | .ok (false, m, mm) => .ok (false, m, mm)
    | .ok (true, m, mm) => elfLoad rest m mm

def initialStack : ℕ := 64 * 1024

/-- The part of `load_image` after `elf_load`: the heap, the stack and its two top pages. -/
def mapHeapAndStack (m : Machine) (mm : Mm) : Except Panic (Bool × Machine × Mm) :=
  match mmMap m mm mm.brkStart pageSize (protRead ||| protWrite) (vmaHeap ||| vmaAnon) with
  | .error e => .error e
  | .ok (addr, m, mm) =>
    if addr = 0 then .ok (false, m, mm)
    else match mmMap m mm (userStackTop - initialStack) initialStack (protRead ||| protWrite)
        (vmaStack ||| vmaAnon) with
      | .error e => .error e
      | .ok (addr, m, mm) =>
        if addr = 0 then .ok (false, m, mm)
        else mmPopulate m mm (userStackTop - pageSize * 2) (pageSize * 2)

def loadImage (m : Machine) (segments : List Segment) (entry : ℕ) :
    Except Panic (Option Mm × Machine) :=
  match mmCreate m with
  | .error e => .error e
  | .ok (none, m) => .ok (none, m)
  | .ok (some mm, m) =>
    match elfLoad segments m mm with
    | .error e => .error e
    | .ok (ok, m, mm) =>
      let entryOk := segments.any fun g =>
        g.vaddr ≤ entry && entry < g.stop && g.prot &&& protExec != 0
      let highest := (segments.map Segment.stop).foldl max userSpaceStart
      let brk := alignUp highest pageSize
      match if ok && entryOk then mapHeapAndStack m { mm with brkStart := brk, brk := brk }
          else .ok (false, m, mm) with
      | .error e => .error e
      | .ok (true, m, mm) => .ok (some mm, m)
      | .ok (false, m, mm) =>
        match mmDestroy m mm with
        | .error e => .error e
        | .ok m => .ok (none, m)

end MyOS.Memory
