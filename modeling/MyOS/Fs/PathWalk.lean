import MyOS.Fs.MountTree
import MyOS.Fs.PathNormalize

/-! Walks along a path: `step` and `vfs_lookup`, with the mounts that they cross. -/

namespace MyOS.Fs

open Library Words Function

abbrev Name := List UInt8

def dotDot : Name := [dot, dot]

def nameMax : ℕ := 255

inductive PathError
  | ENOENT | ENOTDIR | ENAMETOOLONG | EBUSY | EINVAL | ENODEV | ENXIO | ENOMEM | ERANGE
  deriving DecidableEq

/-- The directories of a file system. `find` is the search for a name that is not `..`, and `parent`
is `parent` of tmpfs and the entry `..` of ext2, except that it is `none` at the root. -/
structure FsTree where
  root : ℕ
  isDir : ℕ → Bool
  find : ℕ → Name → Option ℕ
  parent : ℕ → Option ℕ
  root_isDir : isDir root = true
  root_parent : parent root = none
  parent_find : ∀ d a n, find d a = some n → isDir n = true → parent n = some d

def FsTree.lookup (t : FsTree) (dir : ℕ) (name : Name) : Option ℕ :=
  if name = dotDot then some ((t.parent dir).getD dir) else t.find dir name

/-- The instances of file systems are numbered as they are mounted, the first one being that of
`root_inode`; `next` is the number of the next one. -/
structure Mounts where
  tree : ℕ → FsTree
  next : ℕ
  mounted : SbInode → Option SbInode
  covered : SbInode → Option SbInode
  mounts : List MountRecord

namespace Mounts

variable (s : Mounts)

def rootOf (i : ℕ) : SbInode := ⟨i, (s.tree i).root⟩

def rootInode : SbInode := s.rootOf 0

def isDir (d : SbInode) : Bool := (s.tree d.sb).isDir d.num

def lookup (d : SbInode) (name : Name) : Option SbInode :=
  ((s.tree d.sb).lookup d.num name).map (SbInode.mk d.sb)

def follow : ℕ → SbInode → SbInode
  | 0, d => d
  | k + 1, d =>
    match s.mounted d with
    | none => d
    | some m => follow k m

def followMounts (d : SbInode) : SbInode := s.follow s.next d

def step (dir : SbInode) (name : Name) : Except PathError SbInode :=
  if s.isDir dir = false then .error .ENOTDIR
  else if name = [dot] then .ok dir
  else if name = dotDot ∧ dir = s.rootInode then .ok dir
  else
    let base := if name = dotDot then (s.covered dir).getD dir else dir
    match s.lookup base name with
    | none => .error .ENOENT
    | some child => .ok (s.followMounts child)

/-- The loop of `vfs_lookup`, with `next_component`; the counter is at least the length of what is
left of the path. -/
def lookupLoop : ℕ → List UInt8 → SbInode → Except PathError SbInode
  | 0, _, cur => .ok cur
  | n + 1, l, cur =>
    match l.dropWhile (· == slash) with
    | [] => .ok cur
    | c :: r =>
      let name := (c :: r).takeWhile (· != slash)
      if nameMax < name.length then .error .ENAMETOOLONG
      else
        match s.step cur name with
        | .error e => .error e
        | .ok d => lookupLoop n ((c :: r).dropWhile (· != slash)) d

def startInode (path : CString) (cwd : Option SbInode) : SbInode :=
  if path.bytes.head? = some slash then s.rootInode else cwd.getD s.rootInode

def vfsLookup (path : CString) (cwd : Option SbInode) : Except PathError SbInode :=
  if path.bytes = [] then .error .ENOENT
  else if pathMax ≤ path.bytes.length then .error .ENAMETOOLONG
  else s.lookupLoop path.bytes.length path.bytes (s.startInode path cwd)

def mountOn (mp : SbInode) (t : FsTree) : Mounts where
  tree := update s.tree s.next t
  next := s.next + 1
  mounted := update s.mounted mp (some ⟨s.next, t.root⟩)
  covered := update s.covered ⟨s.next, t.root⟩ (some mp)
  mounts := s.mounts ++ [⟨s.next, some mp⟩]

def mountAt (mp : SbInode) (fs : Except PathError FsTree) : Except PathError Mounts :=
  if s.isDir mp = false then .error .ENOTDIR
  else if s.mounted mp ≠ none ∨ mp = s.rootInode then .error .EBUSY
  else fs.map (s.mountOn mp)

def vfsMount (target : CString) (dev : Option PathError) (fs : Except PathError FsTree) :
    Except PathError Mounts :=
  match dev with
  | some e => .error e
  | none => s.vfsLookup target none >>= fun mp => s.mountAt mp fs

def cutMount (p : SbInode) (m : MountRecord) : Mounts :=
  { s with
    mounted := fun d => if m.mountpoint = some d then none else s.mounted d
    covered := update s.covered p none
    mounts := s.mounts.erase m }

/-- `vfs_umount` behind the lookup; whether `refcount` is above 3 depends on the open files. -/
def umountAt (busy : Bool) (p : SbInode) : Except PathError Mounts :=
  match (s.mounts.filter fun m => m.mountpoint.isSome && s.rootOf m.sb == p).getLast? with
  | none => .error .EINVAL
  | some m => if busy then .error .EBUSY else .ok (s.cutMount p m)

def vfsUmount (target : CString) (busy : Bool) : Except PathError Mounts :=
  s.vfsLookup target none >>= s.umountAt busy

def after : Except PathError Mounts → Mounts
  | .error _ => s
  | .ok t => t

end Mounts

inductive MountsAction
  | mount (target : CString) (dev : Option PathError) (fs : Except PathError FsTree)
  | umount (target : CString) (busy : Bool)
  | change (i : ℕ) (t : FsTree)

namespace Mounts

/-- Between the mounts the directories change in any way that leaves the mount points directories. -/
def system : System Mounts MountsAction where
  init s := s.next = 1 ∧ (∀ d, s.mounted d = none) ∧ (∀ d, s.covered d = none) ∧ s.mounts = [⟨0, none⟩]
  step s
    | .mount target dev fs, t => t = s.after (s.vfsMount target dev fs)
    | .umount target busy, t => t = s.after (s.vfsUmount target busy)
    | .change i tree, t => tree.root = (s.tree i).root ∧
        (∀ d, s.mounted d ≠ none → d.sb = i → tree.isDir d.num = true) ∧
        t = { s with tree := update s.tree i tree }

end Mounts

end MyOS.Fs
