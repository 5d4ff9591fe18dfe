import MyOS.Memory.Buddy

/-! The slab allocator: `cache_setup`, `kmem_cache_alloc` and `kmem_cache_free`. Pointers are
addresses of the direct map, and a slab is named by the frame number of its first page. -/

namespace MyOS.Memory

def redzone : ℕ := 8
def rzByte : UInt8 := 0xBB
def poisonFree : UInt8 := 0x6B
def freeMagic : ℕ := 0xF4EEF4EEF4EEF4EE
def minObj : ℕ := 16

inductive SlabPanic
  | objectTooBig
  | divideByZero
  | redzoneBroken
  | markBroken
  | useAfterFree
  | wrongCache
  | notAnObject
  | doubleFree
  | pages (e : Panic)
  deriving DecidableEq, Repr

/-- `struct kmem_cache`. The constructor, which `kmem_cache_alloc` calls last, is a client that
writes to its object. -/
structure KmemCache where
  size : ℕ
  stride : ℕ
  order : ℕ
  objsPerSlab : ℕ
  partialSlabs : List ℕ := []
  fullSlabs : List ℕ := []
  emptySlabs : List ℕ := []
  nrSlabs : ℕ := 0
  activeObjs : ℕ := 0
  allocs : ℕ := 0
  frees : ℕ := 0
  deriving DecidableEq, Repr

def slabOrder (stride : ℕ) : ℕ → ℕ → ℕ
  | 0, order => order
  | n + 1, order =>
    let bytes := pageSize * 2 ^ order
    let objs := bytes / stride
    if 8 ≤ objs ∧ (bytes - objs * stride) * 8 ≤ bytes then order
    else slabOrder stride n (order + 1)

def cacheSetup (size align : ℕ) : Except SlabPanic KmemCache :=
  let align := if align < 8 then 8 else align
  let obj := max size minObj
  let stride := alignUp ((obj + redzone) % 2 ^ 64) align
  if stride = 0 then .error .divideByZero
  else
    let order := slabOrder stride 3 0
    let objs := pageSize * 2 ^ order / stride
    if objs = 0 then .error .objectTooBig
    else .ok { size := size, stride := stride, order := order, objsPerSlab := objs }

namespace KmemCache

def body (c : KmemCache) : ℕ := (c.stride + 2 ^ 64 - redzone) % 2 ^ 64

def listDel (c : KmemCache) (p : ℕ) : KmemCache :=
  { c with
    partialSlabs := c.partialSlabs.erase p
    fullSlabs := c.fullSlabs.erase p
    emptySlabs := c.emptySlabs.erase p }

def addPartial (c : KmemCache) (p : ℕ) : KmemCache := { c with partialSlabs := p :: c.partialSlabs }
def addFull (c : KmemCache) (p : ℕ) : KmemCache := { c with fullSlabs := p :: c.fullSlabs }
def addEmpty (c : KmemCache) (p : ℕ) : KmemCache := { c with emptySlabs := p :: c.emptySlabs }

end KmemCache

namespace Pmm

def makeFree (s : Pmm) (c : KmemCache) (obj next : ℕ) : Pmm :=
  let s := s.memset (virtToPhys obj) c.body poisonFree
  let s := s.memset (virtToPhys obj + c.stride - redzone) redzone rzByte
  let s := s.store64 (virtToPhys obj) next
  s.store64 (virtToPhys obj + 8) freeMagic

def redzoneIntact (s : Pmm) (c : KmemCache) (obj : ℕ) : Bool :=
  (List.range redzone).all fun i => s.mem (virtToPhys obj + c.stride - redzone + i) == rzByte

def poisonIntact (s : Pmm) (c : KmemCache) (obj : ℕ) : Bool :=
  (List.range (c.body - 16)).all fun i => s.mem (virtToPhys obj + 16 + i) == poisonFree

def checkFreeObject (s : Pmm) (c : KmemCache) (obj : ℕ) : Except SlabPanic Unit :=
  if s.load64 (virtToPhys obj + 8) ≠ freeMagic then .error .markBroken
  else if s.poisonIntact c obj = false then .error .useAfterFree
  else if s.redzoneIntact c obj = false then .error .redzoneBroken
  else .ok ()

def carve (c : KmemCache) (base : ℕ) : ℕ → Pmm → ℕ → Pmm × ℕ
  | 0, s, next => (s, next)
  | n + 1, s, next =>
    carve c base n (s.makeFree c (base + n * c.stride) next) (base + n * c.stride)

def claimPages (s : Pmm) (id p order : ℕ) : Pmm :=
  s.setPages p (2 ^ order) fun g => { g with slab := true, cache := some id, slabHead := some p }

def newSlab (id : ℕ) (s : Pmm) (c : KmemCache) : Option ℕ × Pmm × KmemCache :=
  match s.allocPages c.order {} with
  | (none, s) => (none, s, c)
  | (some head, s) =>
    let r := carve c (pageToVirt head) c.objsPerSlab (s.claimPages id head c.order) 0
    (some head, r.1.setPage head fun g => { g with freelist := r.2, inuse := 0 },
      { c with nrSlabs := c.nrSlabs + 1 })

/-- The first part of `kmem_cache_alloc`: a slab with a free object, at the head of `partial`. -/
def pickSlab (id : ℕ) (s : Pmm) (c : KmemCache) : Option ℕ × Pmm × KmemCache :=
  match c.partialSlabs with
  | slab :: _ => (some slab, s, c)
  | [] =>
    match c.emptySlabs with
    | slab :: _ => (some slab, s, (c.listDel slab).addPartial slab)
    | [] =>
      match newSlab id s c with
      | (none, s, c) => (none, s, c)
      | (some slab, s, c) => (some slab, s, c.addPartial slab)

def popObject (s : Pmm) (slab obj : ℕ) : Pmm :=
  (s.setPage slab fun g => { g with
    freelist := s.load64 (virtToPhys obj), inuse := g.inuse + 1 }).store64 (virtToPhys obj + 8) 0

def takeObject (s : Pmm) (c : KmemCache) (slab : ℕ) : Except SlabPanic (ℕ × Pmm × KmemCache) :=
  let obj := (s.page slab).freelist
  match s.checkFreeObject c obj with
  | .error e => .error e
  | .ok () =>
    let s := s.popObject slab obj
    let c := if (s.page slab).inuse = c.objsPerSlab then (c.listDel slab).addFull slab else c
    .ok (obj, s, { c with activeObjs := c.activeObjs + 1, allocs := c.allocs + 1 })

def kmemCacheAlloc (id : ℕ) (s : Pmm) (c : KmemCache) :
    Except SlabPanic (Option ℕ × Pmm × KmemCache) :=
  match pickSlab id s c with
  | (none, s, c) => .ok (none, s, c)
  | (some slab, s, c) =>
    match takeObject s c slab with
    | .error e => .error e
    | .ok (obj, s, c) => .ok (some obj, s, c)

def freeSlabPages (s : Pmm) (c : KmemCache) (slab : ℕ) : Except SlabPanic (Pmm × KmemCache) :=
  let s := s.setPages slab (2 ^ c.order) fun g =>
    { g with slab := false, cache := none, slabHead := none }
  match s.freePages slab c.order with
  | .error e => .error (.pages e)
  | .ok s => .ok (s, { c with nrSlabs := c.nrSlabs - 1 })

/-- The last part of `kmem_cache_free`: the slab changes its list, one empty slab is kept. -/
def settleSlab (s : Pmm) (c : KmemCache) (slab : ℕ) (wasFull : Bool) :
    Except SlabPanic (Pmm × KmemCache) :=
  let c := if wasFull then (c.listDel slab).addPartial slab else c
  if (s.page slab).inuse = 0 then
    let c := c.listDel slab
    if c.emptySlabs = [] then .ok (s, c.addEmpty slab) else freeSlabPages s c slab
  else .ok (s, c)

def putObject (s : Pmm) (c : KmemCache) (slab obj : ℕ) : Pmm :=
  (s.makeFree c obj (s.page slab).freelist).setPage slab fun g =>
    { g with freelist := obj, inuse := g.inuse - 1 }

def kmemCacheFree (id : ℕ) (s : Pmm) (c : KmemCache) (obj : ℕ) :
    Except SlabPanic (Pmm × KmemCache) :=
  let g := s.page (virtToPage obj)
  match g.slabHead with
  | none => .error .wrongCache
  | some slab =>
    if g.slab = false ∨ g.cache ≠ some id then .error .wrongCache
    else if (obj - pageToVirt slab) % c.stride ≠ 0 then .error .notAnObject
    else if s.load64 (virtToPhys obj + 8) = freeMagic then .error .doubleFree
    else if s.redzoneIntact c obj = false then .error .redzoneBroken
    else settleSlab (s.putObject c slab obj)
      { c with activeObjs := c.activeObjs - 1, frees := c.frees + 1 } slab
      ((s.page slab).inuse == c.objsPerSlab)

end Pmm

end MyOS.Memory
