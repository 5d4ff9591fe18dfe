import MyOS.Fs.VolumeTree

/-! Mounts over directory trees: `vfs_mount`, `vfs_umount` and the calls that change names. -/

namespace MyOS.Fs

open Library Function

structure SbInode where
  sb : ℕ
  num : ℕ
  deriving DecidableEq

structure SbVolume where
  vol : ℕ
  readOnly : Bool

structure MountRecord where
  sb : ℕ
  mountpoint : Option SbInode
  deriving DecidableEq

structure MountTree where
  vol : ℕ → Volume
  sb : ℕ → SbVolume
  made : ℕ → Bool
  mounted : SbInode → Option ℕ
  mounts : List MountRecord
  rootSb : ℕ

inductive MountTreeAction
  | call (i : ℕ) (a : VolumeAction)
  | mount (path : List String) (i : ℕ) (b : SbVolume)
  | umount (path : List String) (m : MountRecord)

/-- The inode that a call wants to remove; the references of a mount keep its mount point. -/
def VolumeAction.removed : VolumeAction → Option ℕ
  | .unlink _ _ x | .rmdir _ _ x | .drop x => some x
  | _ => none

namespace MountTree

variable (s : MountTree)

def fs (i : ℕ) : Volume := s.vol (s.sb i).vol

def rootOf (i : ℕ) : SbInode := ⟨i, (s.fs i).root⟩

/-- `vfs_lookup` from the root comes to an inode, in `follow_mounts` or behind it. The names `.` and
`..` lead to no others. -/
inductive Arrives (s : MountTree) : List String → SbInode → Prop
  | root : Arrives s [] (s.rootOf s.rootSb)
  | follow {path p i} (h : Arrives s path p) (hm : s.mounted p = some i) :
      Arrives s path (s.rootOf i)
  | name {path d a n} (h : Arrives s path d) (hm : s.mounted d = none)
      (hf : (s.fs d.sb).find d.num a = some n) : Arrives s (path ++ [a]) ⟨d.sb, n⟩

def setVol (w : ℕ) (v : Volume) : MountTree := { s with vol := update s.vol w v }

def mountOn (mp : SbInode) (i : ℕ) (b : SbVolume) : MountTree :=
  { s with
    sb := update s.sb i b
    made := update s.made i true
    mounted := update s.mounted mp (some i)
    mounts := s.mounts ++ [⟨i, some mp⟩] }

structure MountTarget (path : List String) (mp : SbInode) : Prop where
  arrives : s.Arrives path mp
  free : s.mounted mp = none
  isDir : (s.fs mp.sb).isDir mp.num = true
  notRoot : mp ≠ s.rootOf s.rootSb

inductive Step : MountTree → MountTreeAction → MountTree → Prop
  | call {s i a v} (hi : s.made i = true) (hro : (s.sb i).readOnly = false)
      (ha : Volume.Step (s.fs i) a v) (hm : ∀ x, a.removed = some x → s.mounted ⟨i, x⟩ = none) :
      Step s (.call i a) (s.setVol (s.sb i).vol v)
  | mountTmpfs {s path mp i b} (ht : s.MountTarget path mp) (hi : s.made i = false)
      (hb : ∀ j, s.made j = true → (s.sb j).vol ≠ b.vol) :
      Step s (.mount path i b) ((s.setVol b.vol newTmpfs).mountOn mp i b)
  | mountExt2 {s path mp i b} (ht : s.MountTarget path mp) (hi : s.made i = false)
      (hb : (s.vol b.vol).ext2 = true) : Step s (.mount path i b) (s.mountOn mp i b)
  -- whether `refcount` allows it depends on the open files
  | umount {s path m p} (hm : m ∈ s.mounts) (hp : m.mountpoint = some p)
      (ha : s.Arrives path (s.rootOf m.sb)) (hf : s.mounted (s.rootOf m.sb) = none) :
      Step s (.umount path m)
        { s with
          mounted := update s.mounted p none
          mounts := s.mounts.erase m }
  | fails {s a} : Step s a s

def Initial : Prop :=
  (∀ w, (s.vol w).WellFormed) ∧ (∀ p, s.mounted p = none) ∧ s.mounts = [⟨s.rootSb, none⟩] ∧
    ∀ i, s.made i = true ↔ i = s.rootSb

def system : System MountTree MountTreeAction where
  init := Initial
  step := Step

def Covered (i d : ℕ) : Prop := s.mounted ⟨i, d⟩ ≠ none

def Kept : Prop := ∀ m ∈ s.mounts, ∀ p, m.mountpoint = some p →
  ∃ path, s.Arrives path p ∧ s.mounted p = some m.sb ∧ s.Arrives path (s.rootOf m.sb)

/-- A call does not take a mount point away: it removes none, in whichever instance of the volume
it is one, and replaces none; nor does it move one, or a directory with one inside, to a place that
no names lead to. -/
def CarefulCall (i : ℕ) : VolumeAction → Prop
  | .unlink _ _ x | .rmdir _ _ x => ∀ p : SbInode, (s.sb p.sb).vol = (s.sb i).vol →
      s.mounted p ≠ none → p.num ≠ x
  | .drop x => ∀ d a, ¬ (s.fs i).Named d a x
  | .rename m src dst => ∀ p : SbInode, (s.sb p.sb).vol = (s.sb i).vol → s.mounted p ≠ none →
      dst ≠ some p.num ∧ (Forest.Reaches (s.fs i).parent p.num src →
        (s.fs i).Visible (s.Covered p.sb) m.ndir ∧ ¬ s.Covered p.sb m.ndir)
  | _ => True

/-- Besides, no mount covers another mount point, and a file system with a mount point is not
unmounted. -/
def Careful : MountTreeAction → Prop
  | .call i a => s.CarefulCall i a
  | .mount path _ _ => ∀ mp p : SbInode, s.MountTarget path mp → s.mounted p ≠ none →
      p.sb = mp.sb → ¬ Forest.Reaches (s.fs p.sb).parent p.num mp.num
  | .umount _ m => ∀ p, s.mounted p ≠ none → p.sb ≠ m.sb

end MountTree

end MyOS.Fs
