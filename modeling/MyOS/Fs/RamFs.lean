import MyOS.Fs.PathWalk
import MyOS.Fs.TmpfsFile

/-! The root file system while nothing is mounted on it: a tmpfs with the modes of its inodes, its
directories and its files, `vfs_mkdir`, and `vfs_open` of a file that is to be written anew. -/

namespace MyOS.Fs

open Library Words Function

def sIfmt : ℕ := 0xF000
def sIfreg : ℕ := 0x8000
def sIfdir : ℕ := 0x4000

def permBits : ℕ := 0xFFF

inductive RamError
  | ENOENT | ENOTDIR | ENAMETOOLONG | EINVAL | EEXIST | EISDIR | ENOMEM | ENXIO
  deriving DecidableEq

structure RamInode where
  mode : ℕ
  parent : Option ℕ := none
  entries : List (Name × ℕ) := []
  node : TmpfsNode

def TmpfsNode.empty : TmpfsNode := ⟨0, 0, fun _ => none, fun _ _ => 0, 0, fun _ => false⟩

structure RamFs where
  inode : ℕ → Option RamInode
  next : ℕ
  root : ℕ

/-- The memory at one call: `node` is for a new inode with its entry, `file` for `file_alloc`, `heap` for
the array of pages and `page` for the page at an index. `device` says that a device, if it is one, opens. -/
structure Room where
  node : Bool
  file : Bool
  heap : Bool
  page : ℕ → Bool
  device : Bool

namespace RamFs

def tmpfsCreateSb : RamFs where
  inode := update (fun _ => none) 0 (some { mode := sIfdir ||| 0x1ED, node := .empty })
  next := 1
  root := 0

variable (s : RamFs)

def HasType (n type : ℕ) : Prop := ∃ x, s.inode n = some x ∧ x.mode &&& sIfmt = type

instance (n type : ℕ) : Decidable (s.HasType n type) :=
  decidable_of_iff ((s.inode n).any fun x => x.mode &&& sIfmt = type) (by
    rw [HasType]
    cases s.inode n <;> simp)

def find (dir : ℕ) (name : Name) : Option ℕ := (s.inode dir).bind fun x => x.entries.lookup name

def tmpfsLookup (dir : ℕ) (name : Name) : Option ℕ :=
  if name = dotDot then some (((s.inode dir).bind RamInode.parent).getD dir) else s.find dir name

def newEntry (dir : ℕ) (name : Name) (x : RamInode) : RamFs :=
  { s with
    inode := update
      (update s.inode dir ((s.inode dir).map fun d => { d with entries := d.entries ++ [(name, s.next)] }))
      s.next (some x)
    next := s.next + 1 }

def tmpfsCreate (dir : ℕ) (name : Name) (mode : ℕ) (room : Bool) : Except RamError (ℕ × RamFs) :=
  if room then .ok (s.next, s.newEntry dir name { mode, node := .empty }) else .error .ENOMEM

def tmpfsMkdir (dir : ℕ) (name : Name) (mode : ℕ) (room : Bool) : Except RamError RamFs :=
  if room then .ok (s.newEntry dir name { mode, parent := some dir, node := .empty }) else .error .ENOMEM

def tmpfsMknod (dir : ℕ) (name : Name) (mode : ℕ) (room : Bool) : Except RamError RamFs :=
  (s.tmpfsCreate dir name mode room).map Prod.snd

def setNode (n : ℕ) (node : TmpfsNode) : RamFs :=
  { s with inode := update s.inode n ((s.inode n).map fun x => { x with node }) }

def step (cur : ℕ) (name : Name) : Except RamError ℕ :=
  if ¬ s.HasType cur sIfdir then .error .ENOTDIR
  else if name = [dot] then .ok cur
  else if name = dotDot ∧ cur = s.root then .ok cur
  else
    match s.tmpfsLookup cur name with
    | none => .error .ENOENT
    | some child => .ok child

/-- The loop of `vfs_lookup_parent`: the directory and the last component; the counter is at least the
length of what is left of the path. -/
def parentLoop : ℕ → List UInt8 → ℕ → Except RamError (ℕ × Name)
  | 0, _, cur => .ok (cur, [])
  | n + 1, l, cur =>
    match l.dropWhile (· == slash) with
    | [] => .ok (cur, [])
    | c :: r =>
      let name := (c :: r).takeWhile (· != slash)
      let rest := (c :: r).dropWhile (· != slash)
      if nameMax < name.length then .error .ENAMETOOLONG
      else if rest.dropWhile (· == slash) = [] then .ok (cur, name)
      else
        match s.step cur name with
        | .error e => .error e
        | .ok d => parentLoop n rest d

def lookupParent (path : List UInt8) : Except RamError (ℕ × Name) :=
  if path = [] then .error .ENOENT
  else if pathMax ≤ path.length then .error .ENAMETOOLONG
  else
    match s.parentLoop path.length path s.root with
    | .error e => .error e
    | .ok (cur, last) =>
      if last = [] ∨ last = [dot] ∨ last = dotDot then .error .EINVAL
      else if ¬ s.HasType cur sIfdir then .error .ENOTDIR
      else .ok (cur, last)

def vfsMkdir (path : List UInt8) (mode : ℕ) (r : Room) : Except RamError RamFs :=
  match s.lookupParent path with
  | .error e => .error e
  | .ok (dir, name) =>
    match s.tmpfsLookup dir name with
    | some _ => .error .EEXIST
    | none => s.tmpfsMkdir dir name (sIfdir ||| (mode &&& permBits)) r.node

def vfsMknod (path : List UInt8) (mode : ℕ) (r : Room) : Except RamError RamFs :=
  match s.lookupParent path with
  | .error e => .error e
  | .ok (dir, name) =>
    match s.tmpfsLookup dir name with
    | some _ => .error .EEXIST
    | none => s.tmpfsMknod dir name mode r.node

def lookupOrCreate (dir : ℕ) (name : Name) (mode : ℕ) (r : Room) : Except RamError (ℕ × RamFs) :=
  match s.tmpfsLookup dir name with
  | some n => .ok (n, s)
  | none => s.tmpfsCreate dir name (sIfreg ||| (mode &&& permBits)) r.node

/-- Only files have `truncate`; `none` where a page is given back a second time. -/
def truncate (n : ℕ) : Option RamFs :=
  match s.inode n with
  | none => some s
  | some x =>
    if x.mode &&& sIfmt = sIfreg then (x.node.tmpfsTruncate 0).map (s.setNode n) else some s

open RamError in
def vfsOpen (path : List UInt8) (mode : ℕ) (r : Room) : Option (Except RamError ℕ × RamFs) :=
  match s.lookupParent path with
  | .error e => some (.error e, s)
  | .ok (dir, name) =>
    match s.lookupOrCreate dir name mode r with
    | .error e => some (.error e, s)
    | .ok (n, s) =>
      if s.HasType n sIfdir then some (.error .EISDIR, s)
      else (s.truncate n).map fun s =>
        (if r.file = false then .error .ENOMEM
          else if s.HasType n sIfreg ∨ r.device then .ok n else .error ENXIO, s)

/-- `file_write` of a file that was just opened; a device keeps no bytes. `none` where a page is not in
the array. -/
def fileWrite (n : ℕ) (buf : List UInt8) (r : Room) : Option RamFs :=
  match s.inode n with
  | none => some s
  | some x =>
    if x.mode &&& sIfmt = sIfreg then (x.node.tmpfsWrite r.heap r.page buf 0).map fun w => s.setNode n w.2
    else some s

end RamFs

end MyOS.Fs
