import MyOS.Library.System

/-! The inode cache of an ext2 file system, used by any number of processes at once. -/

namespace MyOS.Fs

open Library Function

structure Ext2Inode where
  mode : BitVec 16 := 0
  uid : BitVec 16 := 0
  size : BitVec 32 := 0
  atime : BitVec 32 := 0
  ctime : BitVec 32 := 0
  mtime : BitVec 32 := 0
  dtime : BitVec 32 := 0
  gid : BitVec 16 := 0
  linksCount : BitVec 16 := 0
  blocks : BitVec 32 := 0
  flags : BitVec 32 := 0
  osd1 : BitVec 32 := 0
  block : Vector (BitVec 32) 15 := Vector.replicate 15 0
  generation : BitVec 32 := 0
  fileAcl : BitVec 32 := 0
  sizeHigh : BitVec 32 := 0
  faddr : BitVec 32 := 0
  osd2 : BitVec 96 := 0
  deriving DecidableEq

def isReg (mode : ℕ) : Bool := mode &&& 0xF000 = 0x8000
def isChr (mode : ℕ) : Bool := mode &&& 0xF000 = 0x2000
def isBlk (mode : ℕ) : Bool := mode &&& 0xF000 = 0x6000

def mkdev (major minor : ℕ) : ℕ := (major <<< 20 ||| minor) % 2 ^ 32

structure Inode where
  mode : ℕ
  uid : ℕ
  gid : ℕ
  nlink : ℕ
  size : ℕ
  atime : ℕ
  mtime : ℕ
  ctime : ℕ
  rdev : ℕ
  raw : Ext2Inode

def Ext2Inode.load (r : Ext2Inode) : Inode where
  mode := r.mode.toNat
  uid := r.uid.toNat
  gid := r.gid.toNat
  nlink := r.linksCount.toNat
  size := if isReg r.mode.toNat then r.size.toNat ||| r.sizeHigh.toNat <<< 32 else r.size.toNat
  atime := r.atime.toNat
  mtime := r.mtime.toNat
  ctime := r.ctime.toNat
  rdev :=
    if isChr r.mode.toNat ∨ isBlk r.mode.toNat then
      let d := if r.block[0] ≠ 0 then r.block[0].toNat else r.block[1].toNat
      if r.block[0] ≠ 0 then mkdev (d >>> 8 &&& 0xFF) (d &&& 0xFF)
      else mkdev (d >>> 8 &&& 0xFFF) (d &&& 0xFF ||| (d >>> 12 &&& 0xFFF00))
    else 0
  raw := r

def Inode.store (i : Inode) : Ext2Inode :=
  { i.raw with
    mode := BitVec.ofNat 16 i.mode
    uid := BitVec.ofNat 16 i.uid
    gid := BitVec.ofNat 16 i.gid
    linksCount := BitVec.ofNat 16 i.nlink
    size := BitVec.ofNat 32 i.size
    sizeHigh := if isReg i.mode then BitVec.ofNat 32 (i.size >>> 32) else i.raw.sizeHigh
    atime := BitVec.ofNat 32 i.atime
    mtime := BitVec.ofNat 32 i.mtime
    ctime := BitVec.ofNat 32 i.ctime }

/-- A `loading` structure is known to one `ext2_iget` only; a `live` one is in the list, even when
its last reference is gone; a `deleted` one has been taken off it. -/
inductive NodePhase
  | unused
  | loading
  | live
  | deleted
  deriving DecidableEq

/-- A `struct inode`. `synced`, `seen` and `dirty` are not in the source: what the disk's copy was
when this structure last read or wrote it, how often it had been written when it was read, and
whether a field has changed since. -/
structure Ext2Node where
  ino : ℕ := 0
  refcount : ℕ := 0
  inode : Inode := Ext2Inode.load {}
  phase : NodePhase := .unused
  synced : Ext2Inode := {}
  seen : ℕ := 0
  dirty : Bool := false

inductive IgetPc
  | idle
  | missed (ino : ℕ)
  | loaded (n : ℕ)
  deriving DecidableEq

/-- `disk` is the block cache's view of the inode tables, `writes` counts the calls of
`write_inode` for each number. -/
structure Icache where
  inodesCount : ℕ
  readOnly : Bool
  disk : ℕ → Ext2Inode
  writes : ℕ → ℕ := fun _ => 0
  node : ℕ → Ext2Node := fun _ => {}
  list : List ℕ := []
  pc : ℕ → IgetPc := fun _ => .idle

inductive IcacheAction
  | find (t ino : ℕ)
  | load (t n : ℕ)
  | fail (t : ℕ)
  | insert (t : ℕ)
  | iget (n : ℕ)
  | iput (n : ℕ)
  | del (n : ℕ)
  | change (n : ℕ) (i : Inode)
  | write (n : ℕ)
  | writeFail (n : ℕ)
  | free (n : ℕ)

namespace Icache

def setNode (s : Icache) (n : ℕ) (m : Ext2Node) : Icache :=
  { s with node := update s.node n m }

def setPc (s : Icache) (t : ℕ) (pc : IgetPc) : Icache := { s with pc := update s.pc t pc }

/-- `icache_find` without its reference: the first entry that is not being destroyed. -/
def find (s : Icache) (ino : ℕ) : Option ℕ :=
  s.list.find? fun n => (s.node n).ino = ino ∧ 0 < (s.node n).refcount

def addRef (s : Icache) (n : ℕ) : Icache :=
  s.setNode n { s.node n with refcount := (s.node n).refcount + 1 }

def copy (s : Icache) (ino : ℕ) : Ext2Node where
  ino := ino
  refcount := 1
  inode := (s.disk ino).load
  phase := .loading
  synced := s.disk ino
  seen := s.writes ino

def lookup (s : Icache) (t ino : ℕ) : Icache :=
  match s.find ino with
  | some n => s.addRef n
  | none => s.setPc t (.missed ino)

/-- The second critical section of `ext2_iget`: the structure at `n` is given up or inserted. -/
def insert (s : Icache) (t n : ℕ) : Icache :=
  match s.find (s.node n).ino with
  | some m => ((s.setNode n {}).addRef m).setPc t .idle
  | none => { (s.setNode n { s.node n with phase := .live }).setPc t .idle with list := n :: s.list }

def write (s : Icache) (n : ℕ) : Icache :=
  let r := (s.node n).inode.store
  { s.setNode n { s.node n with
      inode := { (s.node n).inode with raw := r }, synced := r, dirty := false } with
    disk := update s.disk (s.node n).ino r
    writes := update s.writes (s.node n).ino (s.writes (s.node n).ino + 1) }

/-- Who may change and write an inode: those with a reference, and `ext2_free_inode` when it deletes
the file. -/
def Writable (s : Icache) (n : ℕ) : Prop :=
  (s.node n).phase = .live ∧ 0 < (s.node n).refcount ∨
    (s.node n).phase = .deleted ∧ (s.node n).inode.nlink = 0 ∧ s.readOnly = false

inductive Step : Icache → IcacheAction → Icache → Prop
  | find {s t ino} (hp : s.pc t = .idle) (hi : 1 ≤ ino) (hc : ino ≤ s.inodesCount) :
      Step s (.find t ino) (s.lookup t ino)
  | load {s t n ino} (hp : s.pc t = .missed ino) (hn : (s.node n).phase = .unused) :
      Step s (.load t n) ((s.setNode n (s.copy ino)).setPc t (.loaded n))
  -- No memory, or the block cannot be read.
  | fail {s t ino} (hp : s.pc t = .missed ino) : Step s (.fail t) (s.setPc t .idle)
  | insert {s t n} (hp : s.pc t = .loaded n) : Step s (.insert t) (s.insert t n)
  | iget {s n} (hn : (s.node n).phase = .live) (hr : 0 < (s.node n).refcount) :
      Step s (.iget n) (s.addRef n)
  | iput {s n} (hn : (s.node n).phase = .live) (hr : 0 < (s.node n).refcount) :
      Step s (.iput n) (s.setNode n { s.node n with refcount := (s.node n).refcount - 1 })
  | del {s n} (hn : (s.node n).phase = .live) (hr : (s.node n).refcount = 0) :
      Step s (.del n)
        { s.setNode n { s.node n with phase := .deleted } with list := s.list.erase n }
  | change {s n i} (hw : s.Writable n) :
      Step s (.change n i) (s.setNode n { s.node n with inode := i, dirty := true })
  | write {s n} (hw : s.Writable n) : Step s (.write n) (s.write n)
  | writeFail {s n} (hw : s.Writable n) :
      Step s (.writeFail n) (s.setNode n { s.node n with
        inode := { (s.node n).inode with raw := (s.node n).inode.store } })
  | free {s n} (hn : (s.node n).phase = .deleted) : Step s (.free n) (s.setNode n {})

def system : System Icache IcacheAction where
  init s := ∃ inodesCount readOnly disk,
    s = { inodesCount := inodesCount, readOnly := readOnly, disk := disk }
  step := Step

end Icache

end MyOS.Fs
