import MyOS.Library.Forest
import MyOS.Library.System

/-! Directories that several processes change at once: `mkdir`, `open(O_CREAT)`, `rmdir` and `rename`
on tmpfs and on ext2, with the locks that they take. -/

namespace MyOS.Fs

open Library Function

structure Mv where
  odir : ℕ
  oname : String
  ndir : ℕ
  nname : String
  deriving DecidableEq

namespace Mv

def low (m : Mv) : ℕ := min m.odir m.ndir
def high (m : Mv) : ℕ := max m.odir m.ndir

end Mv

inductive AddPc
  | entering
  | locked
  | missing
  | leaving
  deriving DecidableEq

inductive RmPc
  | entering
  | locked
  | found (v : ℕ)
  | holding (v : ℕ)
  | checked (v : ℕ)
  | refused (v : ℕ)
  | empty (v : ℕ)
  | leaving
  deriving DecidableEq

/-- `vfs_rename`: the inode `src` is found and, on ext2, `rename_lock` taken; then follow the walk
to the root, the check of the target and its removal, the two changes of names and the change of
the parent. -/
inductive MvPc
  | entering
  | first
  | locked
  | found (src : ℕ)
  | ordered (src : ℕ)
  | walk (src : ℕ) (dst : Option ℕ) (p : Option ℕ) (k : ℕ)
  | passed (src : ℕ) (dst : Option ℕ)
  | holding (src v : ℕ)
  | checked (src v : ℕ)
  | refused (src v : ℕ)
  | empty (src v : ℕ)
  | clear (src : ℕ)
  | half (src : ℕ)
  | linked (src : ℕ)
  | leaving (ordered : Bool)
  | last
  deriving DecidableEq

inductive DirPc
  | idle
  | add (dir : ℕ) (name : String) (isDir : Bool) (q : AddPc)
  | rm (dir : ℕ) (name : String) (q : RmPc)
  | mv (m : Mv) (q : MvPc)
  deriving DecidableEq

/-- One mounted file system. `parent` is `parent` of tmpfs and the entry `..` of ext2, except that
it is `none` at the root; `entries` are the others. `isDir` is the kind of an inode, used or not.
`unlinked` is not in the source: the directory was removed or replaced. -/
structure DirTree where
  ext2 : Bool
  readOnly : Bool
  isDir : ℕ → Bool
  mounted : ℕ → Bool
  used : ℕ → Bool
  entries : ℕ → List (String × ℕ)
  parent : ℕ → Option ℕ
  unlinked : ℕ → Bool := fun _ => false
  lock : ℕ → Option ℕ := fun _ => none
  renameLock : Option ℕ := none
  pc : ℕ → DirPc := fun _ => .idle

inductive DirAction
  | start (t : ℕ) (x : DirPc)
  | take (t d : ℕ)
  | drop (t d : ℕ)
  | order (t : ℕ)
  | release (t : ℕ)
  | read (t : ℕ) (y : DirPc)
  | make (t n : ℕ)
  | unlink (t : ℕ)
  | link (t : ℕ)
  | cut (t : ℕ)
  | move (t : ℕ)

namespace DirTree

def find (s : DirTree) (dir : ℕ) (name : String) : Option ℕ :=
  ((s.entries dir).find? fun e => e.1 = name).map Prod.snd

def setPc (s : DirTree) (t : ℕ) (x : DirPc) : DirTree := { s with pc := update s.pc t x }

def addEntry (s : DirTree) (dir : ℕ) (name : String) (n : ℕ) : DirTree :=
  { s with entries := update s.entries dir (s.entries dir ++ [(name, n)]) }

def delEntry (s : DirTree) (dir : ℕ) (name : String) : DirTree :=
  { s with entries := update s.entries dir ((s.entries dir).eraseP fun e => e.1 = name) }

def orphan (s : DirTree) (v : ℕ) : DirTree :=
  { s with unlinked := update s.unlinked v (s.unlinked v || s.isDir v) }

inductive Starts (s : DirTree) : DirPc → Prop
  | add {dir name b} (hu : s.used dir = true) (hd : s.isDir dir = true) :
      Starts s (.add dir name b .entering)
  | rm {dir name} (hu : s.used dir = true) (hd : s.isDir dir = true) :
      Starts s (.rm dir name .entering)
  | mv {m : Mv} (hu : s.used m.odir = true ∧ s.used m.ndir = true)
      (hd : s.isDir m.odir = true ∧ s.isDir m.ndir = true) : Starts s (.mv m .entering)

inductive Takes (s : DirTree) : DirPc → ℕ → DirPc → Prop
  | add {dir name b} : Takes s (.add dir name b .entering) dir (.add dir name b .locked)
  | rm {dir name} : Takes s (.rm dir name .entering) dir (.rm dir name .locked)
  | rmVictim {dir name v} (hfs : s.ext2 = true) :
      Takes s (.rm dir name (.found v)) v (.rm dir name (.holding v))
  | low {m : Mv} (h : m.odir ≠ m.ndir) : Takes s (.mv m .entering) m.low (.mv m .first)
  | high {m : Mv} : Takes s (.mv m .first) m.high (.mv m .locked)
  | only {m : Mv} (h : m.odir = m.ndir) : Takes s (.mv m .entering) m.low (.mv m .locked)
  | mvVictim {m src v} (hfs : s.ext2 = true) (hk : s.isDir v = s.isDir src)
      (hd : s.isDir v = true) :
      Takes s (.mv m (.passed src (some v))) v (.mv m (.holding src v))

inductive Drops (s : DirTree) : DirPc → ℕ → DirPc → Prop
  | add {dir name b} : Drops s (.add dir name b .leaving) dir .idle
  | rm {dir name} : Drops s (.rm dir name .leaving) dir .idle
  | rmChecked {dir name v} : Drops s (.rm dir name (.checked v)) v (.rm dir name (.empty v))
  | rmRefused {dir name v} : Drops s (.rm dir name (.refused v)) v (.rm dir name .leaving)
  | mvChecked {m src v} : Drops s (.mv m (.checked src v)) v (.mv m (.empty src v))
  | mvRefused {m src v} : Drops s (.mv m (.refused src v)) v (.mv m (.leaving s.ext2))
  | high {m : Mv} (h : m.odir ≠ m.ndir) : Drops s (.mv m (.leaving false)) m.high (.mv m .last)
  | only {m : Mv} (h : m.odir = m.ndir) : Drops s (.mv m (.leaving false)) m.low .idle
  | low {m : Mv} : Drops s (.mv m .last) m.low .idle

def Same (s : DirTree) (m : Mv) (src : ℕ) : Prop :=
  if s.ext2 then s.find m.ndir m.nname = some src else m.odir = m.ndir ∧ m.oname = m.nname

def Walks (s : DirTree) (m : Mv) (src : ℕ) : Prop :=
  s.isDir src = true ∧ (s.ext2 = true → m.odir ≠ m.ndir)

inductive Reads (s : DirTree) : DirPc → DirPc → Prop
  | miss {dir name b} (h : s.find dir name = none) :
      Reads s (.add dir name b .locked) (.add dir name b .missing)
  | hit {dir name b v} (h : s.find dir name = some v) :
      Reads s (.add dir name b .locked) (.add dir name b .leaving)
  | noSpace {dir name b} : Reads s (.add dir name b .missing) (.add dir name b .leaving)
  | victim {dir name v} (h : s.find dir name = some v) (hd : s.isDir v = true)
      (hm : s.mounted v = false) : Reads s (.rm dir name .locked) (.rm dir name (.found v))
  | noVictim {dir name}
      (h : ∀ v, s.find dir name = some v → s.isDir v = false ∨ s.mounted v = true) :
      Reads s (.rm dir name .locked) (.rm dir name .leaving)
  | rmEmpty {dir name v} (hfs : s.ext2 = false) (h : s.entries v = []) :
      Reads s (.rm dir name (.found v)) (.rm dir name (.empty v))
  | rmFull {dir name v} (hfs : s.ext2 = false) (h : s.entries v ≠ []) :
      Reads s (.rm dir name (.found v)) (.rm dir name .leaving)
  | rmChecked {dir name v} (h : s.entries v = []) :
      Reads s (.rm dir name (.holding v)) (.rm dir name (.checked v))
  | rmRefused {dir name v} (h : s.entries v ≠ []) :
      Reads s (.rm dir name (.holding v)) (.rm dir name (.refused v))
  | source {m : Mv} {src} (h : s.find m.odir m.oname = some src) :
      Reads s (.mv m .locked) (.mv m (.found src))
  | noSource {m : Mv} (h : s.find m.odir m.oname = none) :
      Reads s (.mv m .locked) (.mv m (.leaving false))
  | order {m src} (hfs : s.ext2 = false) : Reads s (.mv m (.found src)) (.mv m (.ordered src))
  | same {m src} (h : s.Same m src) :
      Reads s (.mv m (.ordered src)) (.mv m (.leaving s.ext2))
  | walk {m : Mv} {src} (h : ¬ s.Same m src) (hw : s.Walks m src) :
      Reads s (.mv m (.ordered src))
        (.mv m (.walk src (s.find m.ndir m.nname) (some m.ndir) 0))
  | noWalk {m : Mv} {src} (h : ¬ s.Same m src) (hw : ¬ s.Walks m src) :
      Reads s (.mv m (.ordered src)) (.mv m (.passed src (s.find m.ndir m.nname)))
  | inside {m src dst k} :
      Reads s (.mv m (.walk src dst (some src) k)) (.mv m (.leaving s.ext2))
  | deep {m src dst p} (hfs : s.ext2 = true) :
      Reads s (.mv m (.walk src dst (some p) 4096)) (.mv m (.leaving s.ext2))
  | up {m src dst p k} (h : p ≠ src) (hk : s.ext2 = true → k < 4096) :
      Reads s (.mv m (.walk src dst (some p) k)) (.mv m (.walk src dst (s.parent p) (k + 1)))
  | root {m src dst k} : Reads s (.mv m (.walk src dst none k)) (.mv m (.passed src dst))
  | fresh {m src} : Reads s (.mv m (.passed src none)) (.mv m (.clear src))
  | kind {m src v} (h : s.isDir v ≠ s.isDir src) :
      Reads s (.mv m (.passed src (some v))) (.mv m (.leaving s.ext2))
  | file {m src v} (hk : s.isDir v = s.isDir src) (hd : s.isDir v = false) :
      Reads s (.mv m (.passed src (some v))) (.mv m (.empty src v))
  | mvEmpty {m src v} (hfs : s.ext2 = false) (hk : s.isDir v = s.isDir src)
      (hd : s.isDir v = true) (h : s.entries v = []) :
      Reads s (.mv m (.passed src (some v))) (.mv m (.empty src v))
  | mvFull {m src v} (hfs : s.ext2 = false) (hk : s.isDir v = s.isDir src)
      (hd : s.isDir v = true) (h : s.entries v ≠ []) :
      Reads s (.mv m (.passed src (some v))) (.mv m (.leaving s.ext2))
  | mvChecked {m src v} (h : s.entries v = []) :
      Reads s (.mv m (.holding src v)) (.mv m (.checked src v))
  | mvRefused {m src v} (h : s.entries v ≠ []) :
      Reads s (.mv m (.holding src v)) (.mv m (.refused src v))
  | addFails {m src} (hfs : s.ext2 = true) :
      Reads s (.mv m (.clear src)) (.mv m (.leaving s.ext2))
  | done {m : Mv} {src} (h : s.isDir src = false ∨ m.odir = m.ndir) :
      Reads s (.mv m (.linked src)) (.mv m (.leaving s.ext2))

def make (s : DirTree) (dir : ℕ) (name : String) (b : Bool) (n : ℕ) : DirTree :=
  let s := { s with used := update s.used n true
                    entries := update s.entries n []
                    parent := update s.parent n (if b then some dir else none)
                    unlinked := update s.unlinked n false }
  s.addEntry dir name n

inductive Step : DirTree → DirAction → DirTree → Prop
  | start {s t x} (hi : s.pc t = .idle) (hro : s.readOnly = false) (hx : s.Starts x) :
      Step s (.start t x) (s.setPc t x)
  | take {s t d y} (ht : s.Takes (s.pc t) d y) (hl : s.lock d = none) :
      Step s (.take t d) { s.setPc t y with lock := update s.lock d (some t) }
  | drop {s t d y} (ht : s.Drops (s.pc t) d y) :
      Step s (.drop t d) { s.setPc t y with lock := update s.lock d none }
  | order {s t m src} (ht : s.pc t = .mv m (.found src)) (hfs : s.ext2 = true)
      (hl : s.renameLock = none) :
      Step s (.order t) { s.setPc t (.mv m (.ordered src)) with renameLock := some t }
  | release {s t m} (ht : s.pc t = .mv m (.leaving true)) :
      Step s (.release t) { s.setPc t (.mv m (.leaving false)) with renameLock := none }
  | read {s t y} (ht : s.Reads (s.pc t) y) : Step s (.read t y) (s.setPc t y)
  | make {s t dir name b n} (ht : s.pc t = .add dir name b .missing) (hn : s.used n = false)
      (hb : s.isDir n = b) :
      Step s (.make t n) ((s.make dir name b n).setPc t (.add dir name b .leaving))
  | rmdir {s t dir name v} (ht : s.pc t = .rm dir name (.empty v)) :
      Step s (.unlink t) (((s.delEntry dir name).orphan v).setPc t (.rm dir name .leaving))
  | replace {s t} {m : Mv} {src v} (ht : s.pc t = .mv m (.empty src v)) :
      Step s (.unlink t) (((s.delEntry m.ndir m.nname).orphan v).setPc t (.mv m (.clear src)))
  | link {s t} {m : Mv} {src q r} (ht : s.pc t = .mv m q)
      (hq : s.ext2 = true ∧ q = .clear src ∧ r = .half src ∨
        s.ext2 = false ∧ q = .half src ∧ r = .linked src) :
      Step s (.link t) ((s.addEntry m.ndir m.nname src).setPc t (.mv m r))
  | cut {s t} {m : Mv} {src q r} (ht : s.pc t = .mv m q)
      (hq : s.ext2 = false ∧ q = .clear src ∧ r = .half src ∨
        s.ext2 = true ∧ q = .half src ∧ r = .linked src) :
      Step s (.cut t) ((s.delEntry m.odir m.oname).setPc t (.mv m r))
  | move {s t} {m : Mv} {src} (ht : s.pc t = .mv m (.linked src)) (hd : s.isDir src = true)
      (hne : m.odir ≠ m.ndir) (hl : s.ext2 = true → s.lock src = none) :
      Step s (.move t) { s.setPc t (.mv m (.leaving s.ext2)) with
        parent := update s.parent src (some m.ndir) }

def Initial (s : DirTree) : Prop :=
  Forest.Acyclic s.parent ∧ (∀ a b, s.parent a = some b → s.used a = true ∧ s.used b = true) ∧
    (∀ d, s.unlinked d = false) ∧ (∀ d, s.lock d = none) ∧ s.renameLock = none ∧
    ∀ t, s.pc t = .idle

def system : System DirTree DirAction where
  init := Initial
  step := Step

end DirTree

end MyOS.Fs
