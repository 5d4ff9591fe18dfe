import MyOS.Fs.PathWalk

/-! `rm -r`: names are put together in a buffer of `PATH_MAX` bytes, and read in a tree that shrinks meanwhile. -/

namespace MyOS.User.Rm

open Library Words Fs Function

abbrev Place := List Name

structure FileName (n : Name) : Prop where
  word : Word slash n
  notDot : n ≠ [dot]
  notDotDot : n ≠ dotDot
  short : n.length ≤ nameMax

/-- The directories as a program finds them, through all mounts. `..` does not leave a file system that is `stacked`
on the root of another one. Mount points, and what the file system does not allow to remove, `refuses`. A directory
that is no longer there still leads to its parent. -/
structure Space where
  isDir : Place → Bool
  entries : Place → List Name
  cwd : Place
  stacked : Place → Bool
  refuses : Place → Bool
  root : isDir [] = true
  valid : ∀ d, ∀ n ∈ entries d, FileName n
  nodup : ∀ d, (entries d).Nodup
  file : ∀ d, isDir d = false → entries d = []
  linked : ∀ d n, entries (d ++ [n]) ≠ [] → n ∈ entries d

namespace Space

variable (s : Space)

def up (p : Place) : Place := if s.stacked p then p else p.dropLast

def step (p : Place) (n : Name) : Except PathError Place :=
  if s.isDir p = false then .error .ENOTDIR
  else if n = [dot] then .ok p
  else if n = dotDot then .ok (s.up p)
  else if n ∈ s.entries p then .ok (p ++ [n])
  else .error .ENOENT

def walk : List Name → Place → Except PathError Place
  | [], p => .ok p
  | n :: ns, p =>
    if nameMax < n.length then .error .ENAMETOOLONG
    else match s.step p n with
      | .error e => .error e
      | .ok q => walk ns q

def start (path : List UInt8) : Place := if path.head? = some slash then [] else s.cwd

/-- `copy_string_from_user` and `vfs_lookup`, which goes along the words of the path. -/
def lookup (path : List UInt8) : Except PathError Place :=
  if path = [] then .error .ENOENT
  else if pathMax ≤ path.length then .error .ENAMETOOLONG
  else s.walk (words slash path) (s.start path)

def lookupParent (path : List UInt8) : Option (Place × Name) :=
  if path = [] ∨ pathMax ≤ path.length then none
  else match (words slash path).getLast?, s.walk (words slash path).dropLast (s.start path) with
    | some n, .ok d => if n = [dot] ∨ n = dotDot ∨ nameMax < n.length ∨ s.isDir d = false then none else some (d, n)
    | _, _ => none

def readdir (d : Place) : List Name := [dot] :: dotDot :: s.entries d

def remove (d : Place) (n : Name) (h : s.entries (d ++ [n]) = []) : Space where
  isDir := s.isDir
  entries := update s.entries d ((s.entries d).erase n)
  cwd := s.cwd
  stacked := s.stacked
  refuses := s.refuses
  root := s.root
  valid e m hm := by
    by_cases he : e = d
    · rw [he, update_self] at hm
      exact s.valid d m (List.mem_of_mem_erase hm)
    · rw [update_of_ne he] at hm
      exact s.valid e m hm
  nodup e := by
    by_cases he : e = d
    · rw [he, update_self]
      exact (s.nodup d).erase n
    · rw [update_of_ne he]
      exact s.nodup e
  file e he := by
    by_cases hd : e = d
    · rw [hd, update_self, s.file d (hd ▸ he), List.erase_nil]
    · rw [update_of_ne hd, s.file e he]
  linked e m hm := by
    have hold : s.entries (e ++ [m]) ≠ [] := by
      by_cases he : e ++ [m] = d
      · rw [he, update_self] at hm
        rw [he]
        exact fun h0 => hm (by rw [h0, List.erase_nil])
      · rwa [update_of_ne he] at hm
    have hmem := s.linked e m hold
    by_cases he : e = d
    · subst he
      rw [update_self]
      have hne : m ≠ n := fun hmn => hold (hmn ▸ h)
      exact (List.mem_erase_of_ne hne).2 hmem
    · rwa [update_of_ne he]

/-- `vfs_rmdir` and `vfs_unlink`; `none` stands for an error. -/
def removeAt (dir : Bool) (path : List UInt8) : Option Space :=
  match s.lookupParent path with
  | none => none
  | some (d, n) =>
    if h : n ∈ s.entries d ∧ s.isDir (d ++ [n]) = dir ∧ s.refuses (d ++ [n]) = false ∧ s.entries (d ++ [n]) = [] then
      some (s.remove d n h.2.2.2)
    else none

def rmdir (path : List UInt8) : Option Space := s.removeAt true path

def unlink (path : List UInt8) : Option Space := s.removeAt false path

end Space

structure Removal where
  space : Space
  seen : List Place := []

def child (path : List UInt8) (name : Name) : List UInt8 := (path ++ slash :: name).take (pathMax - 1)

/-- The loop over the names; the result is `none` when there was not enough fuel. -/
def removeAll (rm : List UInt8 → Removal → Option ℕ × Removal) (path : List UInt8) :
    List Name → ℕ → Removal → Option ℕ × Removal
  | [], status, s => (some status, s)
  | n :: ns, status, s =>
    match rm (child path n) s with
    | (none, s) => (none, s)
    | (some k, s) => removeAll rm path ns (status ||| k) s

def rmPath (recursive force : Bool) : ℕ → List UInt8 → Removal → Option ℕ × Removal
  | 0, _, s => (none, s)
  | k + 1, path, s =>
    match s.space.lookup path with
    | .error e => (some (if force = true ∧ e = .ENOENT then 0 else 1), s)
    | .ok p =>
      if s.space.isDir p then
        if recursive = false then (some 1, s)
        else
          let names := (s.space.readdir p).filter fun n => n ≠ [dot] ∧ n ≠ dotDot
          match removeAll (rmPath recursive force k) path names 0 { s with seen := s.seen ++ names.map (p ++ [·]) } with
          | (none, s) => (none, s)
          | (some status, s) =>
            match s.space.rmdir path with
            | none => (some 1, s)
            | some space => (some status, { s with space := space })
      else
        match s.space.unlink path with
        | none => (some 1, s)
        | some space => (some 0, { s with space := space })

end MyOS.User.Rm
