import MyOS.Library.Sums

/-! `struct file` with its reference count, and the counts that a pipe keeps of its ends. -/

namespace MyOS.Fs

open Function

inductive Release
  | none
  | reader (p : ℕ)
  | writer (p : ℕ)
  deriving DecidableEq

/-- `released` counts the calls of `fops->release` and `freed` those of `kmem_cache_free`. -/
structure File where
  release : Release
  refcount : ℤ := 1
  released : ℕ := 0
  freed : ℕ := 0

structure PipeEnds where
  readers : ℤ := 1
  writers : ℤ := 1
  freed : ℕ := 0

def PipeEnds.release (y : PipeEnds) : PipeEnds :=
  if y.readers = 0 ∧ y.writers = 0 then { y with freed := y.freed + 1 } else y

structure Files where
  file : ℕ → Option File
  pipe : ℕ → Option PipeEnds

namespace Files

variable (t : Files)

def modify (f : ℕ) (g : File → File) : Files :=
  { t with file := update t.file f ((t.file f).map g) }

def alloc (f : ℕ) : Files :=
  { t with file := update t.file f (some { release := .none }) }

def pipeCreate (r w p : ℕ) : Files where
  file := update (update t.file r (some { release := .reader p })) w
    (some { release := .writer p })
  pipe := update t.pipe p (some {})

def dup (f : ℕ) : Files := t.modify f fun x => { x with refcount := x.refcount + 1 }

def drop (f : ℕ) : Files := t.modify f fun x => { x with refcount := x.refcount - 1 }

def pipeRelease (p : ℕ) (g : PipeEnds → PipeEnds) : Files :=
  { t with pipe := update t.pipe p ((t.pipe p).map fun y => PipeEnds.release (g y)) }

def callRelease : Release → Files
  | .none => t
  | .reader p => t.pipeRelease p fun y => { y with readers := y.readers - 1 }
  | .writer p => t.pipeRelease p fun y => { y with writers := y.writers - 1 }

def finish (f : ℕ) : Files :=
  match t.file f with
  | none => t
  | some x => (t.callRelease x.release).modify f fun x =>
      { x with
        released := if x.release = .none then x.released else x.released + 1
        freed := x.freed + 1 }

end Files

end MyOS.Fs
