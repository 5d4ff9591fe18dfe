import MyOS.Library.Bytes
import MyOS.Library.System

/-! The contents of a file on tmpfs: `tmpfs_read`, `tmpfs_write` and `tmpfs_truncate`. -/

namespace MyOS.Fs

open Library Function

def pageSize : ℕ := 4096

inductive TmpfsError
  | EFBIG | ENOMEM | ENOSPC
  deriving DecidableEq

/-- `struct tmpfs_node` of a file, with `size` of its inode. The pages are numbered as `alloc_pages`
hands them out, so that one that is handed out again has a new number; `live` are those that were not
given back yet. -/
structure TmpfsNode where
  size : ℕ
  cap : ℕ
  pages : ℕ → Option ℕ
  mem : ℕ → ℕ → UInt8
  next : ℕ
  live : ℕ → Bool

namespace TmpfsNode

variable (n : TmpfsNode)

def release (i f : ℕ) : TmpfsNode :=
  { n with pages := update n.pages i none, live := update n.live f false }

/-- `free_pages_from`, for the indices from `i` on; `none` where a page is given back a second time. -/
def freePagesFrom : ℕ → ℕ → TmpfsNode → Option TmpfsNode
  | 0, _, n => some n
  | k + 1, i, n =>
    match n.pages i with
    | none => freePagesFrom k (i + 1) n
    | some f =>
      if n.live f then freePagesFrom k (i + 1) (n.release i f) else none

def grow (need : ℕ) : ℕ → ℕ → ℕ
  | 0, cap => cap
  | k + 1, cap => if cap < need then grow need k (cap * 2) else cap

def ensureCap (need : ℕ) (heap : Bool) : Option TmpfsNode :=
  if need ≤ n.cap then some n
  else if heap then
    some { n with
      cap := grow need need (if n.cap = 0 then 4 else n.cap)
      pages := fun i => if i < n.cap then n.pages i else none }
  else none

def readLoop (len off : ℕ) : ℕ → ℕ → List UInt8
  | 0, _ => []
  | k + 1, done =>
    if done < len then
      let pos := off + done
      let idx := pos / pageSize
      let inpage := pos % pageSize
      let chunk := min (len - done) (pageSize - inpage)
      let pg := if idx < n.cap then n.pages idx else none
      let bytes := match pg with
        | some f => Bytes.load (n.mem f) inpage chunk
        | none => List.replicate chunk 0
      bytes ++ readLoop len off k (done + chunk)
    else []

def tmpfsRead (len off : ℕ) : List UInt8 :=
  if n.size ≤ off then []
  else n.readLoop (min len (n.size - off)) off (min len (n.size - off)) 0

/-- The page at an index, a new one with zeros where there is none; `room` says that `alloc_pages`
succeeds. -/
def pageAt (room : Bool) (idx : ℕ) : Option (ℕ × TmpfsNode) :=
  match n.pages idx with
  | some f => some (f, n)
  | none =>
    if room then
      some (n.next, { n with
        pages := update n.pages idx (some n.next)
        mem := update n.mem n.next fun _ => 0
        next := n.next + 1
        live := update n.live n.next true })
    else none

def store (f a : ℕ) (l : List UInt8) : TmpfsNode :=
  { n with mem := update n.mem f (Bytes.store (n.mem f) a l) }

/-- The loop of `tmpfs_write`; `none` where the index is not in the array. -/
def writeLoop (room : ℕ → Bool) (buf : List UInt8) (off : ℕ) : ℕ → ℕ → TmpfsNode → Option (ℕ × TmpfsNode)
  | 0, done, n => some (done, n)
  | k + 1, done, n =>
    if done < buf.length then
      let pos := off + done
      let idx := pos / pageSize
      let inpage := pos % pageSize
      let chunk := min (buf.length - done) (pageSize - inpage)
      if n.cap ≤ idx then none
      else
        match n.pageAt (room idx) idx with
        | none => some (done, n)
        | some (f, n) => writeLoop room buf off k (done + chunk) (n.store f inpage ((buf.drop done).take chunk))
    else some (done, n)

def tmpfsWrite (heap : Bool) (room : ℕ → Bool) (buf : List UInt8) (off : ℕ) :
    Option (Except TmpfsError ℕ × TmpfsNode) :=
  if (off + buf.length) % 2 ^ 64 < off ∨ 2 ^ 36 < (off + buf.length) % 2 ^ 64 then some (.error .EFBIG, n)
  else
    match n.ensureCap ((off + buf.length + pageSize - 1) / pageSize) heap with
    | none => some (.error .ENOMEM, n)
    | some n' =>
      (writeLoop room buf off buf.length 0 n').map fun (done, n) =>
        (if done = 0 then .error .ENOSPC else .ok done,
          { n with size := if n.size < off + done then off + done else n.size })

def zeroTail (size : ℕ) : TmpfsNode :=
  if size % pageSize ≠ 0 ∧ size / pageSize < n.cap then
    match n.pages (size / pageSize) with
    | some f => n.store f (size % pageSize) (List.replicate (pageSize - size % pageSize) 0)
    | none => n
  else n

def tmpfsTruncate (size : ℕ) : Option TmpfsNode :=
  if size < n.size then
    let first := (size + pageSize - 1) % 2 ^ 64 / pageSize
    (freePagesFrom (n.cap - first) first n).map fun n => { n.zeroTail size with size }
  else some { n with size }

def tmpfsFreeInode : Option TmpfsNode := freePagesFrom n.cap 0 n

end TmpfsNode

structure ByteFile where
  length : ℕ
  byte : ℕ → UInt8
  zero : ∀ i, length ≤ i → byte i = 0

namespace ByteFile

variable (b : ByteFile)

def empty : ByteFile := ⟨0, fun _ => 0, fun _ _ => rfl⟩

def read (len off : ℕ) : List UInt8 := Bytes.load b.byte off (min len (b.length - off))

lemma store_zero (off : ℕ) (l : List UInt8) :
    ∀ i, max b.length (off + l.length) ≤ i → Bytes.store b.byte off l i = 0 := by
  intro i hi
  rw [max_le_iff] at hi
  rw [Bytes.store, if_neg (by omega), b.zero i hi.1]

def write (off : ℕ) (l : List UInt8) : ByteFile where
  length := max b.length (off + l.length)
  byte := Bytes.store b.byte off l
  zero := b.store_zero off l

def truncate (size : ℕ) : ByteFile where
  length := size
  byte i := if i < size then b.byte i else 0
  zero i hi := if_neg (by omega)

def afterWrite (r : Except TmpfsError ℕ) (off : ℕ) (buf : List UInt8) : ByteFile :=
  match r with
  | .error _ => b
  | .ok k => b.write off (buf.take k)

end ByteFile

inductive TmpfsFileAction
  | write (heap : Bool) (room : ℕ → Bool) (buf : List UInt8) (off : ℕ)
  | truncate (size : ℕ)

structure TmpfsFile where
  node : TmpfsNode
  file : ByteFile

namespace TmpfsFile

def system : System TmpfsFile TmpfsFileAction where
  init w := w.node.size = 0 ∧ w.node.cap = 0 ∧ (∀ i, w.node.pages i = none) ∧
    (∀ f, w.node.live f = false) ∧ w.file = .empty
  step w
    | .write heap room buf off, w' => buf.length < 2 ^ 64 ∧ off < 2 ^ 64 ∧ ∃ r n,
        w.node.tmpfsWrite heap room buf off = some (r, n) ∧ w' = ⟨n, w.file.afterWrite r off buf⟩
    | .truncate size, w' => size < 2 ^ 64 ∧ ∃ n,
        w.node.tmpfsTruncate size = some n ∧ w' = ⟨n, w.file.truncate size⟩

end TmpfsFile

end MyOS.Fs
