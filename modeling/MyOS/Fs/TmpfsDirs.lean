import MyOS.Fs.InodeRefs

/-! The directories of tmpfs, whose parent pointers hold no references, and the processes that stand in
them. -/

namespace MyOS.Fs

open Library Function

/-- `dangling`: a pointer to an inode is followed that was freed. `running`: the loop of `tmpfs_rename`
has not ended. -/
inductive TreeError
  | ENOENT | ENOTDIR | EEXIST | ENOTEMPTY | EISDIR | EINVAL | ENOMEM | EBADF
  | dangling
  | running
  deriving DecidableEq

structure DirNode where
  isDir : Bool
  parent : Option ℕ
  refcount : ℕ

/-- The inodes that are allocated, by the number that they were made with. `entries` are those of all
directories, each list in its order; a directory that is freed leaves its own behind. -/
structure TmpfsDirs where
  inode : ℕ → Option DirNode
  entries : List TmpfsDirent
  next : ℕ
  root : ℕ

namespace TmpfsDirs

variable (s : TmpfsDirs)

def children (dir : ℕ) : List TmpfsDirent := s.entries.filter fun e => e.dir = dir

def find (dir : ℕ) (name : String) : Option TmpfsDirent :=
  s.entries.find? fun e => e.dir = dir ∧ e.name = name

def isDir (n : ℕ) : Bool := (s.inode n).any DirNode.isDir

def setInode (n : ℕ) (x : Option DirNode) : TmpfsDirs := { s with inode := update s.inode n x }

def iget (n : ℕ) : TmpfsDirs :=
  s.setInode n ((s.inode n).map fun x => { x with refcount := x.refcount + 1 })

def iput (n : ℕ) : TmpfsDirs :=
  s.setInode n ((s.inode n).bind fun x =>
    if x.refcount ≤ 1 then none else some { x with refcount := x.refcount - 1 })

def delEntry (e : TmpfsDirent) : TmpfsDirs := { s with entries := s.entries.erase e }

def newEntry (dir : ℕ) (name : String) (x : DirNode) : TmpfsDirs where
  inode := update s.inode s.next (some x)
  entries := s.entries ++ [⟨dir, name, s.next⟩]
  next := s.next + 1
  root := s.root

def tmpfsLookup (dir : ℕ) (name : String) : Except TreeError ℕ :=
  match s.inode dir with
  | none => .error .dangling
  | some x =>
    if name = ".." then
      match x.parent with
      | none => .ok dir
      | some p => if (s.inode p).isSome then .ok p else .error .dangling
    else
      match s.find dir name with
      | none => .error .ENOENT
      | some e => .ok e.inode

def tmpfsMkdir (dir : ℕ) (name : String) (room : Bool) : Except TreeError TmpfsDirs :=
  if room then .ok (s.newEntry dir name ⟨true, some dir, 1⟩) else .error .ENOMEM

def tmpfsCreate (dir : ℕ) (name : String) (room : Bool) : Except TreeError (ℕ × TmpfsDirs) :=
  if room then .ok (s.next, s.newEntry dir name ⟨false, none, 2⟩) else .error .ENOMEM

def tmpfsUnlink (dir : ℕ) (name : String) : Except TreeError TmpfsDirs :=
  match s.find dir name with
  | none => .error .ENOENT
  | some e => .ok ((s.delEntry e).iput e.inode)

def tmpfsRmdir (dir : ℕ) (name : String) : Except TreeError TmpfsDirs :=
  match s.find dir name with
  | none => .error .ENOENT
  | some e => if s.children e.inode ≠ [] then .error .ENOTEMPTY else .ok ((s.delEntry e).iput e.inode)

/-- The loop of `tmpfs_rename`, up from `ndir`, with so many rounds at most: whether it meets `x`. -/
def climb (x : ℕ) : ℕ → Option ℕ → Except TreeError Bool
  | _, none => .ok false
  | 0, some _ => .error .running
  | k + 1, some p =>
    if p = x then .ok true
    else
      match s.inode p with
      | none => .error .dangling
      | some y => climb x k y.parent

def setParent (n : ℕ) (p : ℕ) : TmpfsDirs :=
  s.setInode n ((s.inode n).map fun x => { x with parent := some p })

def move (d : TmpfsDirent) (ndir : ℕ) (nname : String) : TmpfsDirs :=
  let s' := { s with entries := s.entries.erase d ++ [⟨ndir, nname, d.inode⟩] }
  if s.isDir d.inode ∧ d.dir ≠ ndir then s'.setParent d.inode ndir else s'

def tmpfsRename (k odir : ℕ) (oname : String) (ndir : ℕ) (nname : String) : Except TreeError TmpfsDirs :=
  match s.find odir oname with
  | none => .error .ENOENT
  | some d =>
    if s.find ndir nname = some d then .ok s
    else
      match if s.isDir d.inode then s.climb d.inode k (some ndir) else .ok false with
      | .error e => .error e
      | .ok true => .error .EINVAL
      | .ok false =>
        match s.find ndir nname with
        | none => .ok (s.move d ndir nname)
        | some t =>
          if s.isDir t.inode ≠ s.isDir d.inode then .error (if s.isDir t.inode then .EISDIR else .ENOTDIR)
          else if s.isDir t.inode ∧ s.children t.inode ≠ [] then .error .ENOTEMPTY
          else .ok (((s.delEntry t).iput t.inode).move d ndir nname)

/-- The inode and the name that are returned, with the new `*pos`; `none` at the end. -/
def tmpfsReaddir (dir pos : ℕ) : Except TreeError (Option (ℕ × String) × ℕ) :=
  match s.inode dir with
  | none => .error .dangling
  | some x =>
    if pos = 0 then .ok (some (dir, "."), 1)
    else if pos = 1 then
      match x.parent with
      | none => .ok (some (dir, ".."), 2)
      | some p => if (s.inode p).isSome then .ok (some (p, ".."), 2) else .error .dangling
    else
      match (s.children dir)[pos - 2]? with
      | none => .ok (none, pos)
      | some e => .ok (some (e.inode, e.name), pos + 1)

def step (dir : ℕ) (name : String) : Except TreeError ℕ :=
  match s.inode dir with
  | none => .error .dangling
  | some x =>
    if x.isDir = false then .error .ENOTDIR
    else if name = "." then .ok dir
    else if name = ".." ∧ dir = s.root then .ok dir
    else s.tmpfsLookup dir name

/-- `vfs_lookup` from a directory; each inode on the way is given back when the next one is found. -/
def walk (path : List String) (dir : ℕ) : Except TreeError ℕ := path.foldlM s.step dir

end TmpfsDirs

structure TreePath where
  abs : Bool
  names : List String

structure TreeUsers where
  fs : TmpfsDirs
  cwds : List ℕ
  files : List ℕ

/-- The calls of the process `i`; `file` says that `file_alloc` succeeds, `k` is the number of rounds of
the loop in `tmpfs_rename`. -/
inductive TreeCall
  | mkdir (i : ℕ) (path : TreePath) (name : String) (room : Bool)
  | opens (i : ℕ) (path : TreePath) (writing file : Bool)
  | creat (i : ℕ) (path : TreePath) (name : String) (excl writing room file : Bool)
  | close (j : ℕ)
  | chdir (i : ℕ) (path : TreePath)
  | unlink (i : ℕ) (path : TreePath) (name : String)
  | rmdir (i : ℕ) (path : TreePath) (name : String)
  | rename (i : ℕ) (src : TreePath) (oname : String) (dst : TreePath) (nname : String) (k : ℕ)

namespace TreeUsers

variable (w : TreeUsers)

def lookup (i : ℕ) (path : TreePath) : Except TreeError ℕ :=
  match w.cwds[i]? with
  | none => .error .EBADF
  | some cwd => w.fs.walk path.names (if path.abs then w.fs.root else cwd)

def withParent (i : ℕ) (path : TreePath) (name : String) : Except TreeError ℕ :=
  w.lookup i path >>= fun dir =>
    if name = "" ∨ name = "." ∨ name = ".." then .error .EINVAL
    else if w.fs.isDir dir = false then .error .ENOTDIR
    else .ok dir

def openInode (n : ℕ) (writing file : Bool) : Except TreeError TreeUsers :=
  if w.fs.isDir n ∧ writing then .error .EISDIR
  else if file then .ok { w with fs := w.fs.iget n, files := w.files ++ [n] }
  else .error .ENOMEM

def vfsMkdir (i : ℕ) (path : TreePath) (name : String) (room : Bool) : Except TreeError TreeUsers :=
  w.withParent i path name >>= fun dir =>
    match w.fs.find dir name with
    | some _ => .error .EEXIST
    | none => (w.fs.tmpfsMkdir dir name room).map fun fs => { w with fs }

def vfsCreat (i : ℕ) (path : TreePath) (name : String) (excl writing room file : Bool) :
    Except TreeError TreeUsers :=
  w.withParent i path name >>= fun dir =>
    match w.fs.find dir name with
    | some e => if excl then .error .EEXIST else w.openInode e.inode writing file
    | none => (w.fs.tmpfsCreate dir name room).map fun (n, fs) =>
        if file then { w with fs, files := w.files ++ [n] } else { w with fs := fs.iput n }

def vfsUnlink (i : ℕ) (path : TreePath) (name : String) : Except TreeError TreeUsers :=
  w.withParent i path name >>= fun dir =>
    match w.fs.find dir name with
    | none => .error .ENOENT
    | some e => if w.fs.isDir e.inode then .error .EISDIR
      else (w.fs.tmpfsUnlink dir name).map fun fs => { w with fs }

def vfsRmdir (i : ℕ) (path : TreePath) (name : String) : Except TreeError TreeUsers :=
  w.withParent i path name >>= fun dir =>
    match w.fs.find dir name with
    | none => .error .ENOENT
    | some e => if w.fs.isDir e.inode = false then .error .ENOTDIR
      else (w.fs.tmpfsRmdir dir name).map fun fs => { w with fs }

def vfsRename (i : ℕ) (src : TreePath) (oname : String) (dst : TreePath) (nname : String) (k : ℕ) :
    Except TreeError TreeUsers :=
  w.withParent i src oname >>= fun odir => w.withParent i dst nname >>= fun ndir =>
    (w.fs.tmpfsRename k odir oname ndir nname).map fun fs => { w with fs }

def chdir (i : ℕ) (path : TreePath) : Except TreeError TreeUsers :=
  w.lookup i path >>= fun n =>
    if w.fs.isDir n = false then .error .ENOTDIR
    else
      match w.cwds[i]? with
      | none => .error .EBADF
      | some cwd => .ok { w with fs := (w.fs.iget n).iput cwd, cwds := w.cwds.set i n }

def close (j : ℕ) : Except TreeError TreeUsers :=
  match w.files[j]? with
  | none => .error .EBADF
  | some n => .ok { w with fs := w.fs.iput n, files := w.files.eraseIdx j }

def call : TreeCall → Except TreeError TreeUsers
  | .mkdir i path name room => w.vfsMkdir i path name room
  | .opens i path writing file => w.lookup i path >>= fun n => w.openInode n writing file
  | .creat i path name excl writing room file => w.vfsCreat i path name excl writing room file
  | .close j => w.close j
  | .chdir i path => w.chdir i path
  | .unlink i path name => w.vfsUnlink i path name
  | .rmdir i path name => w.vfsRmdir i path name
  | .rename i src oname dst nname k => w.vfsRename i src oname dst nname k

def after (a : TreeCall) : TreeUsers :=
  match w.call a with
  | .ok w' => w'
  | .error _ => w

def system : System TreeUsers TreeCall where
  init w := ∃ k, w.cwds = List.replicate k w.fs.root ∧ w.files = [] ∧ w.fs.entries = [] ∧
    w.fs.inode = update (fun _ => none) w.fs.root (some ⟨true, none, k + 1⟩) ∧ w.fs.root < w.fs.next
  step w a w' := w' = w.after a

end TreeUsers

end MyOS.Fs
