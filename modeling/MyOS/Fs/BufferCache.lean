import MyOS.Fs.Partition
import MyOS.Library.System

/-! The buffer cache: `bget`, `bread`, `bwrite`, `brelse` and the device writes that bypass it. -/

namespace MyOS.Fs

open Library Function

def bcacheMax : ℕ := 1024

structure BufKey where
  bd : ℕ
  block : ℕ
  size : ℕ
  deriving DecidableEq

structure Buf where
  key : BufKey
  data : ℕ → UInt8
  valid : Bool
  refcount : ℕ
  lock : Option ℕ

structure DeviceInfo where
  disk : ℕ
  dev : BlockDevice

structure Region where
  disk : ℕ
  base : ℕ
  len : ℕ

def Region.Mem (r : Region) (d x : ℕ) : Prop := d = r.disk ∧ r.base ≤ x ∧ x < r.base + r.len

/-- Where a process is in one use of a buffer, from `bread` to `brelse`. At `missed` it has found no
buffer and allocates one, at `allocated` the new buffer is not in the list yet. `dirty` is not in
the source: the data was changed, and not written successfully since. -/
inductive BufPc
  | idle
  | missed (k : BufKey)
  | allocated (k : BufKey) (b : ℕ)
  | got (k : BufKey) (b : ℕ)
  | locked (k : BufKey) (b : ℕ)
  | held (k : BufKey) (b : ℕ) (dirty : Bool)
  | failed (k : BufKey) (b : ℕ)
  | unlocked (k : BufKey) (b : ℕ)
  deriving DecidableEq

/-- `p` is one use of a buffer, by any process; a process can have several at a time. -/
inductive BufAction
  | bget (p : ℕ) (k : BufKey)
  | alloc (p b : ℕ) (data : ℕ → UInt8)
  | nomem (p : ℕ)
  | insert (p : ℕ)
  | lock (p : ℕ)
  | fill (p : ℕ)
  | fillError (p : ℕ) (data : ℕ → UInt8)
  | modify (p : ℕ) (data : ℕ → UInt8)
  | write (p : ℕ)
  | writeError (p : ℕ) (left : ℕ → UInt8)
  | unlock (p : ℕ)
  | unref (p : ℕ)
  | raw (bd lba : ℕ) (sec : Sector)
  | invalidate (bd : ℕ)

structure CacheState where
  disk : ℕ → ℕ → UInt8
  lru : List ℕ
  count : ℕ
  buf : ℕ → Buf
  pc : ℕ → BufPc

namespace CacheState

def setPc (s : CacheState) (p : ℕ) (pc : BufPc) : CacheState :=
  { s with pc := update s.pc p pc }

def setBuf (s : CacheState) (b : ℕ) (v : Buf) : CacheState :=
  { s with buf := update s.buf b v }

def lookup (s : CacheState) (k : BufKey) : Option ℕ := s.lru.find? fun b => (s.buf b).key = k

def victim (s : CacheState) : Option ℕ :=
  if bcacheMax ≤ s.count then (s.lru.filter fun b => (s.buf b).refcount = 0).getLast? else none

def toFront (s : CacheState) (b : ℕ) : CacheState := { s with lru := b :: s.lru.erase b }

def ref (s : CacheState) (b : ℕ) : CacheState :=
  s.setBuf b { s.buf b with refcount := (s.buf b).refcount + 1 }

def putRegion (s : CacheState) (r : Region) (data : ℕ → UInt8) : CacheState :=
  { s with disk := update s.disk r.disk fun x =>
      if r.base ≤ x ∧ x < r.base + r.len then data (x - r.base) else s.disk r.disk x }

/-- The data of a buffer after a read: the bytes behind the sectors stay as they are. -/
def getRegion (s : CacheState) (r : Region) (data : ℕ → UInt8) : ℕ → UInt8 := fun x =>
  if x < r.len then s.disk r.disk (r.base + x) else data x

end CacheState

structure Cache where
  device : ℕ → DeviceInfo

namespace Cache

variable (C : Cache)

def request (bd lba count : ℕ) : Option Region :=
  match (C.device bd).dev.rw lba count with
  | .nothing => some ⟨(C.device bd).disk, 0, 0⟩
  | .einval => none
  | .driver l c => some ⟨(C.device bd).disk, l * 512, c * 512⟩

def region (k : BufKey) : Option Region :=
  C.request k.bd (k.block * (k.size / 512) % 2 ^ 64) (k.size / 512)

open CacheState in
inductive Step : CacheState → BufAction → CacheState → Prop
  -- the first part of `bget`, under `bcache_lock`
  | hit {s p k b} (h : s.pc p = .idle) (hl : s.lookup k = some b) :
      Step s (.bget p k) (((s.setPc p (.got k b)).ref b).toFront b)
  | reuse {s p k b} (h : s.pc p = .idle) (hl : s.lookup k = none) (hv : s.victim = some b)
      (hk : (s.buf b).key.size = k.size) :
      Step s (.bget p k)
        (((s.setPc p (.got k b)).setBuf b
          { s.buf b with key := k, valid := false, refcount := 1 }).toFront b)
  | evict {s p k b} (h : s.pc p = .idle) (hl : s.lookup k = none) (hv : s.victim = some b)
      (hk : (s.buf b).key.size ≠ k.size) :
      Step s (.bget p k)
        { s.setPc p (.missed k) with lru := s.lru.erase b, count := s.count - 1 }
  | miss {s p k} (h : s.pc p = .idle) (hl : s.lookup k = none) (hv : s.victim = none) :
      Step s (.bget p k) (s.setPc p (.missed k))
  -- the new buffer is none that is in use
  | alloc {s p k b data} (h : s.pc p = .missed k) (hb : b ∉ s.lru)
      (hf : ∀ q l, s.pc q ≠ .allocated l b) :
      Step s (.alloc p b data)
        ((s.setPc p (.allocated k b)).setBuf b ⟨k, data, false, 1, none⟩)
  | nomem {s p k} (h : s.pc p = .missed k) : Step s (.nomem p) (s.setPc p .idle)
  -- the second part of `bget`, under `bcache_lock`
  | insert {s p k b} (h : s.pc p = .allocated k b) (hl : s.lookup k = none) :
      Step s (.insert p)
        { s.setPc p (.got k b) with lru := b :: s.lru, count := s.count + 1 }
  | dup {s p k b d} (h : s.pc p = .allocated k b) (hl : s.lookup k = some d) :
      Step s (.insert p) ((s.setPc p (.got k d)).ref d)
  | lock {s p k b} (h : s.pc p = .got k b) (hl : (s.buf b).lock = none) :
      Step s (.lock p) ((s.setPc p (.locked k b)).setBuf b { s.buf b with lock := some p })
  | valid {s p k b} (h : s.pc p = .locked k b) (hv : (s.buf b).valid = true) :
      Step s (.fill p) (s.setPc p (.held k b false))
  | fill {s p k b r} (h : s.pc p = .locked k b) (hv : (s.buf b).valid = false)
      (hr : C.region k = some r) :
      Step s (.fill p)
        ((s.setPc p (.held k b false)).setBuf b
          { s.buf b with data := s.getRegion r (s.buf b).data, valid := true })
  | fillError {s p k b data} (h : s.pc p = .locked k b) (hv : (s.buf b).valid = false) :
      Step s (.fillError p data)
        ((s.setPc p (.failed k b)).setBuf b { s.buf b with data := data })
  | modify {s p k b dirty data} (h : s.pc p = .held k b dirty) :
      Step s (.modify p data)
        ((s.setPc p (.held k b true)).setBuf b { s.buf b with data := data })
  | write {s p k b dirty r} (h : s.pc p = .held k b dirty)
      (hr : C.region (s.buf b).key = some r) :
      Step s (.write p) ((s.setPc p (.held k b false)).putRegion r (s.buf b).data)
  -- a transfer that fails leaves anything in the block
  | writeError {s p k b dirty r left} (h : s.pc p = .held k b dirty)
      (hr : C.region (s.buf b).key = some r) :
      Step s (.writeError p left) ((s.setPc p (.held k b true)).putRegion r left)
  -- `brelse` unlocks first and drops the reference then
  | unlock {s p k b dirty} (h : s.pc p = .held k b dirty ∨ s.pc p = .failed k b) :
      Step s (.unlock p) ((s.setPc p (.unlocked k b)).setBuf b { s.buf b with lock := none })
  | unref {s p k b} (h : s.pc p = .unlocked k b) :
      Step s (.unref p)
        ((s.setPc p .idle).setBuf b { s.buf b with refcount := (s.buf b).refcount - 1 })
  -- one sector that `bdev_write` writes, with whatever a failed transfer leaves
  | raw {s bd lba sec r} (hr : C.request bd lba 1 = some r) :
      Step s (.raw bd lba sec) (s.putRegion r sec)
  | invalidate {s bd} :
      Step s (.invalidate bd)
        { s with buf := fun b =>
            if b ∈ s.lru ∧ (s.buf b).key.bd = bd ∧ (s.buf b).refcount = 0 then
              { s.buf b with valid := false }
            else s.buf b }

def system : System CacheState BufAction where
  init s := s.lru = [] ∧ s.count = 0 ∧ ∀ p, s.pc p = .idle
  step := C.Step

end Cache

end MyOS.Fs
