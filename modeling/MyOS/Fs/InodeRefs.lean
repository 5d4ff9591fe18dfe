import MyOS.Library.System

/-! The references to the inodes in memory: `iget` and `iput` on every way through the VFS, tmpfs and
ext2. -/

namespace MyOS.Fs

open Library

/-- `struct inode` as far as references depend on it; `ino` is the number on the disk of an ext2
instance, `parent` that of `tmpfs_node`. -/
structure MemInode where
  refcount : ℤ := 1
  sb : ℕ
  ext2 : Bool
  isDir : Bool
  ino : ℕ := 0
  parent : Option ℕ := none

structure TmpfsDirent where
  dir : ℕ
  name : String
  inode : ℕ
  deriving DecidableEq

structure MountEntry where
  sb : ℕ
  mountpoint : Option ℕ
  deriving DecidableEq

inductive VfsOp
  | stat
  | opens
  | chdir
  | mount
  | umount
  | creat (excl : Bool)
  | mkdir
  | mknod
  | unlink
  | rmdir
  | rename (dst : List String)
  | renameTo (oname : String)

namespace VfsOp

def absolute : VfsOp → Bool
  | mount | umount => true
  | _ => false

def makes : VfsOp → Bool
  | creat _ | mkdir | mknod => true
  | _ => false

def looks : VfsOp → Bool
  | creat excl => excl
  | mkdir | mknod | unlink | rmdir => true
  | _ => false

end VfsOp

/-- Where the call in progress is; the inode that a walk has come to is the first of `locals`. -/
inductive VfsCall
  | idle
  | walk (path : List String) (k : VfsOp)
  -- `step` looks up `..`
  | up (path : List String) (k : VfsOp)
  -- `follow_mounts`
  | follow (path : List String) (k : VfsOp)
  -- `found` says that `ext2_rename` has `dst` too
  | ext2Rename (found : Bool)

/-- `mounted` and `covered` are the fields of `struct inode` of that name, where they are set, and
`roots` the `root` of each `struct super_block`. `files` are the inodes of the open files, `cwds` the
working directories, and `locals` the inodes that local variables hold. `fault` is set when a
reference to a freed inode is taken or dropped, and when `iput` panics. -/
structure VfsState where
  inode : ℕ → Option MemInode
  next : ℕ
  entries : List TmpfsDirent := []
  mounted : List (ℕ × ℕ) := []
  covered : List (ℕ × ℕ) := []
  mounts : List MountEntry := []
  roots : List (ℕ × ℕ) := []
  rootInode : ℕ
  files : List ℕ := []
  cwds : List ℕ := []
  locals : List ℕ := []
  call : VfsCall := .idle
  fault : Bool := false

/-- What the steps below are told apart by: the lookup of `..` in a directory of a tmpfs, a new name
in one, the mount of an ext2 volume whose root is not a directory, and an unmount. -/
inductive RefAction
  | dotdot (dir : ℕ)
  | enter (dir : ℕ)
  | badRoot
  | umount (sb : ℕ)
  | other

namespace VfsState

variable (s : VfsState)

def setInode (n : ℕ) (x : Option MemInode) : VfsState :=
  { s with inode := Function.update s.inode n x }

def goto (c : VfsCall) : VfsState := { s with call := c }

def modify (n : ℕ) (f : MemInode → MemInode) : VfsState := s.setInode n ((s.inode n).map f)

def iget (n : ℕ) : VfsState :=
  { s.modify n fun x => { x with refcount := x.refcount + 1 } with
    locals := n :: s.locals
    fault := s.fault || (s.inode n).isNone }

def freeInode (n : ℕ) : VfsState :=
  { s.setInode n none with
    entries := s.entries.filter fun e => e.dir ≠ n
    mounted := s.mounted.filter fun e => e.1 ≠ n
    covered := s.covered.filter fun e => e.1 ≠ n }

def iput (n : ℕ) : VfsState :=
  let s := { s with locals := s.locals.erase n }
  match s.inode n with
  | none => { s with fault := true }
  | some x =>
    if 0 < x.refcount - 1 then s.setInode n (some { x with refcount := x.refcount - 1 })
    else if x.refcount - 1 < 0 then { s with fault := true }
    else s.freeInode n

def newInode (x : MemInode) : VfsState :=
  { s.setInode s.next (some x) with next := s.next + 1, locals := s.next :: s.locals }

def addEntry (e : TmpfsDirent) : VfsState :=
  { s with entries := s.entries ++ [e], locals := s.locals.erase e.inode }

def delEntry (e : TmpfsDirent) : VfsState :=
  { s with entries := s.entries.erase e, locals := e.inode :: s.locals }

def find (dir : ℕ) (name : String) : Option TmpfsDirent :=
  s.entries.find? fun e => e.dir = dir ∧ e.name = name

def setParent (n dir : ℕ) : VfsState := s.modify n fun x => { x with parent := some dir }

def setMode (n : ℕ) (isDir : Bool) : VfsState := s.modify n fun x => { x with isDir }

def reparent (x : MemInode) (n odir ndir : ℕ) : VfsState :=
  if x.isDir = true ∧ odir ≠ ndir then s.setParent n ndir else s

def giveFile (n : ℕ) : VfsState := { s with files := n :: s.files, locals := s.locals.erase n }
def takeFile (n : ℕ) : VfsState := { s with files := s.files.erase n, locals := n :: s.locals }
def giveCwd (n : ℕ) : VfsState := { s with cwds := n :: s.cwds, locals := s.locals.erase n }
def takeCwd (n : ℕ) : VfsState := { s with cwds := s.cwds.erase n, locals := n :: s.locals }

def giveRoot (i r : ℕ) : VfsState :=
  { s with roots := s.roots ++ [(i, r)], locals := s.locals.erase r }

def setMounted (p r : ℕ) : VfsState :=
  { s with mounted := s.mounted ++ [(p, r)], locals := s.locals.erase r }

def setCovered (r p : ℕ) : VfsState :=
  { s with covered := s.covered ++ [(r, p)], locals := s.locals.erase p }

def addMount (i p : ℕ) : VfsState :=
  { s with mounts := s.mounts ++ [⟨i, some p⟩], locals := s.locals.erase p }

def clearMounted (p r : ℕ) : VfsState :=
  { s with mounted := s.mounted.filter fun e => e.1 ≠ p, locals := r :: s.locals }

def clearCovered (r p : ℕ) : VfsState :=
  { s with covered := s.covered.filter fun e => e.1 ≠ r, locals := p :: s.locals }

def delMount (i p : ℕ) : VfsState :=
  { s with mounts := s.mounts.erase ⟨i, some p⟩, locals := p :: s.locals }

def mountedOn (n : ℕ) : Option ℕ := s.mounted.lookup n
def coveredBy (n : ℕ) : Option ℕ := s.covered.lookup n

inductive Ext2Iget (s : VfsState) (i : ℕ) : VfsState → ℕ → Prop
  | cached {n x} (hx : s.inode n = some x) (he : x.ext2 = true) (hi : x.sb = i) :
      Ext2Iget s i (s.iget n) n
  | loaded {ino isDir}
      (h : ∀ n x, s.inode n = some x → x.ext2 = true → x.sb = i → x.ino ≠ ino) :
      Ext2Iget s i (s.newInode ⟨1, i, true, isDir, ino, none⟩) s.next

inductive Ext2New (s : VfsState) (i : ℕ) : VfsState → ℕ → Prop
  | intro {t n isDir} (h : s.Ext2Iget i t n) : Ext2New s i (t.setMode n isDir) n

structure Walking (cur : ℕ) (l : List ℕ) (x : MemInode) (c : VfsCall) : Prop where
  call : s.call = c
  locals : s.locals = cur :: l
  inode : s.inode cur = some x

def madeInode (k : VfsOp) (sb cur : ℕ) : MemInode :=
  match k with
  | .mkdir => ⟨1, sb, false, true, 0, some cur⟩
  | _ => ⟨1, sb, false, false, 0, none⟩

inductive Step : VfsState → RefAction → VfsState → Prop
  -- `proc_alloc`, and the end of a process
  | fork {s d} (hc : s.call = .idle) (hd : d = s.rootInode ∨ d ∈ s.cwds) :
      Step s .other ((s.iget d).giveCwd d)
  | exit {s d} (hc : s.call = .idle) (hd : d ∈ s.cwds) :
      Step s .other ((s.takeCwd d).iput d)
  -- the last `file_close`
  | fileClose {s n} (hc : s.call = .idle) (hn : n ∈ s.files) :
      Step s .other ((s.takeFile n).iput n)
  -- `start_inode`
  | start {s d path k} (hc : s.call = .idle)
      (hd : d = s.rootInode ∨ d ∈ s.cwds ∧ k.absolute = false) (hk : ∀ o, k ≠ .renameTo o) :
      Step s .other ((s.iget d).goto (.walk path k))
  -- `step`, and `follow_mounts` behind it
  | dot {s cur l x path k} (h : s.Walking cur l x (.walk ("." :: path) k)) (hd : x.isDir = true) :
      Step s .other (s.goto (.walk path k))
  | top {s l x path k} (h : s.Walking s.rootInode l x (.walk (".." :: path) k)) :
      Step s .other (s.goto (.walk path k))
  | cross {s cur l x path k c} (h : s.Walking cur l x (.walk (".." :: path) k))
      (hd : x.isDir = true) (hr : cur ≠ s.rootInode) (hc : s.coveredBy cur = some c) :
      Step s .other (((s.iget c).iput cur).goto (.up path k))
  | noCross {s cur l x path k} (h : s.Walking cur l x (.walk (".." :: path) k))
      (hd : x.isDir = true) (hr : cur ≠ s.rootInode) (hc : s.coveredBy cur = none) :
      Step s .other (s.goto (.up path k))
  | upTmpfs {s cur l x path k} (h : s.Walking cur l x (.up path k)) (hx : x.ext2 = false) :
      Step s (.dotdot cur) (((s.iget (x.parent.getD cur)).iput cur).goto (.follow path k))
  | upExt2 {s cur l x path k t c} (h : s.Walking cur l x (.up path k)) (hx : x.ext2 = true)
      (hg : s.Ext2Iget x.sb t c) : Step s .other ((t.iput cur).goto (.follow path k))
  | downTmpfs {s cur l x name path k e} (h : s.Walking cur l x (.walk (name :: path) k))
      (hx : x.ext2 = false) (hd : x.isDir = true) (hn : name ≠ "." ∧ name ≠ "..")
      (hf : s.find cur name = some e) :
      Step s .other (((s.iget e.inode).iput cur).goto (.follow path k))
  | downExt2 {s cur l x name path k t c} (h : s.Walking cur l x (.walk (name :: path) k))
      (hx : x.ext2 = true) (hd : x.isDir = true) (hn : name ≠ "." ∧ name ≠ "..")
      (hg : s.Ext2Iget x.sb t c) : Step s .other ((t.iput cur).goto (.follow path k))
  | follow {s cur l x path k m} (h : s.Walking cur l x (.follow path k))
      (hm : s.mountedOn cur = some m) :
      Step s .other (((s.iget m).iput cur).goto (.follow path k))
  | followed {s cur l x path k} (h : s.Walking cur l x (.follow path k))
      (hm : s.mountedOn cur = none) : Step s .other (s.goto (.walk path k))
  -- `iput(cur)` and nothing else: `stat`, and every error with one inode in hand
  | ends {s cur x c} (h : s.Walking cur [] x c) : Step s .other ((s.iput cur).goto .idle)
  -- errors of the second `with_parent` of `vfs_rename`
  | endsParent {s cur odir x c} (h : s.Walking cur [odir] x c) :
      Step s .other (((s.iput cur).iput odir).goto .idle)
  -- errors behind it, and a rename that has nothing to do
  | endsRename {s cur odir x c} (h : s.Walking cur [odir] x c) :
      Step s .other (((s.iput odir).iput cur).goto .idle)
  -- `vfs_open`
  | opened {s cur x} (h : s.Walking cur [] x (.walk [] .opens)) :
      Step s .other ((s.giveFile cur).goto .idle)
  | creatFound {s cur x name e} (h : s.Walking cur [] x (.walk [name] (.creat false)))
      (hx : x.ext2 = false) (hf : s.find cur name = some e) :
      Step s .other (((s.iget e.inode).iput cur).goto (.follow [] .opens))
  | creatNew {s cur x name b} (h : s.Walking cur [] x (.walk [name] (.creat b)))
      (hx : x.ext2 = false) (hd : x.isDir = true) (hf : s.find cur name = none) :
      Step s (.enter cur) (((((s.newInode ⟨1, x.sb, false, false, 0, none⟩).addEntry
        ⟨cur, name, s.next⟩).iget s.next).iput cur).goto (.follow [] .opens))
  | creatFoundExt2 {s cur x name t c} (h : s.Walking cur [] x (.walk [name] (.creat false)))
      (hx : x.ext2 = true) (hg : s.Ext2Iget x.sb t c) :
      Step s .other ((t.iput cur).goto (.follow [] .opens))
  | creatNewExt2 {s cur x name t c b} (h : s.Walking cur [] x (.walk [name] (.creat b)))
      (hx : x.ext2 = true) (hg : s.Ext2New x.sb t c) :
      Step s .other ((t.iput cur).goto (.follow [] .opens))
  -- `vfs_mkdir` and `vfs_mknod`
  | makes {s cur x name k} (h : s.Walking cur [] x (.walk [name] k)) (hx : x.ext2 = false)
      (hd : x.isDir = true) (hk : k = .mkdir ∨ k = .mknod) (hf : s.find cur name = none) :
      Step s (.enter cur) ((((s.newInode (madeInode k x.sb cur)).addEntry
        ⟨cur, name, s.next⟩).iput cur).goto .idle)
  -- the new inode is given back: no memory, `dir_add` fails, or `ext2_mkdir` is done with it
  | dropsNew {s cur x name k b p} (h : s.Walking cur [] x (.walk [name] k)) (hk : k.makes = true)
      (hx : x.ext2 = false) :
      Step s .other ((((s.newInode ⟨1, x.sb, false, b, 0, p⟩).iput s.next).iput cur).goto .idle)
  | dropsNewExt2 {s cur x name k t c} (h : s.Walking cur [] x (.walk [name] k))
      (hk : k.makes = true) (hx : x.ext2 = true) (hg : s.Ext2New x.sb t c) :
      Step s .other (((t.iput c).iput cur).goto .idle)
  -- the inode that a call has looked up is in its way
  | looked {s cur x name k e} (h : s.Walking cur [] x (.walk [name] k)) (hk : k.looks = true)
      (hx : x.ext2 = false) (hf : s.find cur name = some e) :
      Step s .other ((((s.iget e.inode).iput e.inode).iput cur).goto .idle)
  | lookedExt2 {s cur x name k t c} (h : s.Walking cur [] x (.walk [name] k))
      (hk : k.looks = true) (hx : x.ext2 = true) (hg : s.Ext2Iget x.sb t c) :
      Step s .other (((t.iput c).iput cur).goto .idle)
  -- `vfs_unlink` and `vfs_rmdir`
  | removes {s cur x name k e y} (h : s.Walking cur [] x (.walk [name] k)) (hx : x.ext2 = false)
      (hf : s.find cur name = some e) (hy : s.inode e.inode = some y)
      (hm : s.mountedOn e.inode = none)
      (hk : k = .unlink ∧ y.isDir = false ∨
        k = .rmdir ∧ y.isDir = true ∧ ∀ f ∈ s.entries, f.dir ≠ e.inode) :
      Step s .other (((((s.iget e.inode).delEntry e).iput e.inode).iput e.inode).iput cur
        |>.goto .idle)
  | removesExt2 {s cur x name k t c u d} (h : s.Walking cur [] x (.walk [name] k))
      (hx : x.ext2 = true) (hk : k = .unlink ∨ k = .rmdir) (hg : s.Ext2Iget x.sb t c)
      (hg' : t.Ext2Iget x.sb u d) :
      Step s .other ((((u.iput d).iput c).iput cur).goto .idle)
  -- `vfs_rename`: the second `with_parent`
  | renames {s cur x oname path d} (h : s.Walking cur [] x (.walk [oname] (.rename path)))
      (hd : x.isDir = true) (hs : d = s.rootInode ∨ d ∈ s.cwds) :
      Step s .other ((s.iget d).goto (.walk path (.renameTo oname)))
  -- `tmpfs_rename` to a free name; what the walk up from `ndir` says is left open
  | renameMoves {s ndir odir x y z oname nname e}
      (h : s.Walking ndir [odir] x (.walk [nname] (.renameTo oname))) (hx : x.ext2 = false)
      (hd : x.isDir = true) (ho : s.inode odir = some z) (hsb : z.sb = x.sb)
      (he : s.find odir oname = some e) (hy : s.inode e.inode = some y)
      (hf : s.find ndir nname = none) :
      Step s (.enter ndir) ((((((s.delEntry e).addEntry ⟨ndir, nname, e.inode⟩).reparent y
        e.inode odir ndir).iput odir).iput ndir).goto .idle)
  -- and in place of another inode
  | renameReplaces {s ndir odir x y z v oname nname e f}
      (h : s.Walking ndir [odir] x (.walk [nname] (.renameTo oname))) (hx : x.ext2 = false)
      (hd : x.isDir = true) (ho : s.inode odir = some z) (hsb : z.sb = x.sb)
      (he : s.find odir oname = some e) (hy : s.inode e.inode = some y)
      (hf : s.find ndir nname = some f) (hne : f ≠ e) (hv : s.inode f.inode = some v)
      (hk : v.isDir = y.isDir) (hempty : v.isDir = true → ∀ g ∈ s.entries, g.dir ≠ f.inode) :
      Step s (.enter ndir) (((((((s.delEntry f).iput f.inode).delEntry e).addEntry
        ⟨ndir, nname, e.inode⟩).reparent y e.inode odir ndir).iput odir).iput ndir
        |>.goto .idle)
  -- `ext2_rename`: `src`, `dst`, the walk of `is_ancestor`, and `out`
  | ext2Src {s ndir odir x nname oname t c}
      (h : s.Walking ndir [odir] x (.walk [nname] (.renameTo oname))) (hx : x.ext2 = true)
      (hg : s.Ext2Iget x.sb t c) : Step s .other (t.goto (.ext2Rename false))
  | ext2Dst {s src ndir odir x t c} (h : s.Walking src [ndir, odir] x (.ext2Rename false))
      (hg : s.Ext2Iget x.sb t c) : Step s .other (t.goto (.ext2Rename true))
  | ext2Ancestor {s n l x b t c} (h : s.Walking n l x (.ext2Rename b))
      (hg : s.Ext2Iget x.sb t c) : Step s .other (t.iput c)
  | ext2Out {s src ndir odir x} (h : s.Walking src [ndir, odir] x (.ext2Rename false)) :
      Step s .other ((((s.iput src).iput odir).iput ndir).goto .idle)
  | ext2OutDst {s dst src ndir odir x} (h : s.Walking dst [src, ndir, odir] x (.ext2Rename true)) :
      Step s .other (((((s.iput dst).iput src).iput odir).iput ndir).goto .idle)
  -- `sys_chdir`
  | chdir {s cur x old} (h : s.Walking cur [] x (.walk [] .chdir)) (hd : x.isDir = true)
      (ho : old ∈ s.cwds) :
      Step s .other ((((s.takeCwd old).iput old).giveCwd cur).goto .idle)
  -- `vfs_mount`
  | mount {s cur x i b ino} (h : s.Walking cur [] x (.walk [] .mount)) (hd : x.isDir = true)
      (hm : s.mountedOn cur = none) (hr : cur ≠ s.rootInode) (hi : ∀ r, (i, r) ∉ s.roots) :
      Step s .other ((((((((s.newInode ⟨1, i, b, true, ino, none⟩).giveRoot i s.next).iget
        s.next).setMounted cur s.next).iget cur).setCovered s.next cur).addMount i cur).goto .idle)
  -- no memory in `tmpfs_create_sb`
  | mountDrops {s cur x i} (h : s.Walking cur [] x (.walk [] .mount)) (hd : x.isDir = true) :
      Step s .other ((((s.newInode ⟨1, i, false, true, 0, none⟩).iput s.next).iput cur).goto
        .idle)
  -- `ext2_mount` gives up and forgets the inode that it has got
  | mountFails {s cur x i ino} (h : s.Walking cur [] x (.walk [] .mount)) (hd : x.isDir = true) :
      Step s .badRoot ((({ s.newInode ⟨1, i, true, false, ino, none⟩ with
        locals := s.locals } : VfsState).iput cur).goto .idle)
  -- `vfs_umount`
  | umount {s cur x i p} (h : s.Walking cur [] x (.walk [] .umount))
      (hm : ⟨i, some p⟩ ∈ s.mounts) (hr : (i, cur) ∈ s.roots) (hn : x.refcount ≤ 3) :
      Step s (.umount i) ((((((((s.clearMounted p cur).iput cur).clearCovered cur p).iput
        p).delMount i p).iput p).iput cur).goto .idle)

def booted : VfsState where
  inode := Function.update (fun _ => none) 0 (some ⟨2, 0, false, true, 0, none⟩)
  next := 1
  mounts := [⟨0, none⟩]
  roots := [(0, 0)]
  rootInode := 0

def system : System VfsState RefAction where
  init := (· = booted)
  step := Step

def holders (n : ℕ) : ℕ :=
  (s.entries.map TmpfsDirent.inode).count n + (s.mounted.map Prod.snd).count n +
    (s.covered.map Prod.snd).count n + (s.mounts.filterMap MountEntry.mountpoint).count n +
    (s.roots.map Prod.snd).count n + s.files.count n + s.cwds.count n + s.locals.count n +
    [s.rootInode].count n

structure RefsRight : Prop where
  refcount : ∀ n x, s.inode n = some x → x.refcount = s.holders n
  positive : ∀ n x, s.inode n = some x → 0 < x.refcount
  held : ∀ n, 0 < s.holders n → ∃ x, s.inode n = some x
  no_fault : s.fault = false

def Remains (i : ℕ) : Prop := ∃ n x, s.inode n = some x ∧ x.sb = i

def NotOpen (i : ℕ) : Prop := ∀ n ∈ s.files ++ s.cwds, ∀ x, s.inode n = some x → x.sb ≠ i

def InTree (d : ℕ) : Prop := d ∈ s.roots.map Prod.snd ∨ ∃ e ∈ s.entries, e.inode = d

/-- A lookup of `..` in a tmpfs finds the parent still there, no name comes into a directory that was
removed, and the root of an ext2 volume is a directory. -/
def Careful : RefAction → Prop
  | .dotdot d => ∀ x p, s.inode d = some x → x.parent = some p → ∃ y, s.inode p = some y
  | .enter d => s.InTree d
  | .badRoot => False
  | _ => True

end VfsState

end MyOS.Fs
