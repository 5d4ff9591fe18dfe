import MyOS.Fs.PathWalkRuns

/-! Files with their contents: `vfs_lookup_parent` and `vfs_open`. -/

namespace MyOS.Fs

open Library Words Function

namespace Mounts

variable (s : Mounts)

def parentLoop : ℕ → List UInt8 → SbInode → Except PathError (SbInode × Name)
  | 0, _, cur => .ok (cur, [])
  | n + 1, l, cur =>
    match l.dropWhile (· == slash) with
    | [] => .ok (cur, [])
    | c :: r =>
      let name := (c :: r).takeWhile (· != slash)
      let rest := (c :: r).dropWhile (· != slash)
      if nameMax < name.length then .error .ENAMETOOLONG
      else if rest.dropWhile (· == slash) = [] then .ok (cur, name)
      else
        match s.step cur name with
        | .error e => .error e
        | .ok d => parentLoop n rest d

def vfsLookupParent (path : CString) (cwd : Option SbInode) : Except PathError (SbInode × Name) :=
  if path.bytes = [] then .error .ENOENT
  else if pathMax ≤ path.bytes.length then .error .ENAMETOOLONG
  else
    match s.parentLoop path.bytes.length path.bytes (s.startInode path cwd) with
    | .error e => .error e
    | .ok (dir, name) =>
      if name = [] ∨ name = [dot] ∨ name = dotDot then .error .EINVAL
      else if s.isDir dir = false then .error .ENOTDIR
      else .ok (dir, name)

variable {s} {n : ℕ} {l : List UInt8} {cur d : SbInode} {name : Name} {path : CString} {cwd : Option SbInode}

lemma parentLoop_ok (hn : l.length ≤ n) (h : s.parentLoop n l cur = .ok (d, name)) (hname : name ≠ []) :
    ∃ us, words slash l = us ++ [name] ∧ s.walk us cur = .ok d ∧ name.length ≤ nameMax := by
  induction n generalizing l cur with
  | zero => exact absurd (Prod.mk.inj (Except.ok.inj h)).2.symm hname
  | succ n ih =>
    rw [parentLoop] at h
    split at h
    · exact absurd (Prod.mk.inj (Except.ok.inj h)).2.symm hname
    · rename_i c r hl
      have hlt := length_rest hl
      dsimp only at h
      split_ifs at h with hlong hlast
      · cases h
        refine ⟨[], ?_, rfl, by omega⟩
        rw [words_of_cons hl, words_of_empty hlast, List.nil_append]
      · cases hstep : s.step cur ((c :: r).takeWhile (· != slash)) with
        | error e =>
          rw [hstep] at h
          exact nomatch h
        | ok e =>
          rw [hstep] at h
          obtain ⟨us, hus, hwalk, hle⟩ := ih (by omega) h
          refine ⟨(c :: r).takeWhile (· != slash) :: us, ?_, ?_, hle⟩
          · rw [words_of_cons hl, hus, List.cons_append]
          · rw [walk_cons, component, if_neg hlong, hstep]
            exact hwalk

lemma vfsLookupParent_ok (h : s.vfsLookupParent path cwd = .ok (d, name)) :
    path.bytes ≠ [] ∧ path.bytes.length < pathMax ∧ name ≠ [dot] ∧ name ≠ dotDot ∧ s.isDir d = true ∧
      ∃ us, words slash path.bytes = us ++ [name] ∧ s.walk us (s.startInode path cwd) = .ok d ∧
        name.length ≤ nameMax := by
  rw [vfsLookupParent] at h
  split_ifs at h with hempty hlong
  split at h
  · exact nomatch h
  · rename_i dir name' hloop
    split_ifs at h with hbad hdir
    cases h
    rw [not_or, not_or] at hbad
    exact ⟨hempty, by omega, hbad.2.1, hbad.2.2, by simpa using hdir, parentLoop_ok le_rfl hloop hbad.1⟩

lemma vfsLookup_of_parent (h : s.vfsLookupParent path cwd = .ok (d, name)) :
    s.vfsLookup path cwd = match s.lookup d name with
      | none => .error .ENOENT
      | some n => .ok (s.followMounts n) := by
  obtain ⟨hne, hlen, hdot, hdots, hdir, us, hus, hwalk, hle⟩ := vfsLookupParent_ok h
  rw [vfsLookup_eq hne hlen, hus, walk_append, hwalk]
  show s.walk [name] d = _
  rw [walk_singleton, component, if_neg (by omega), step, if_neg (ne_false_of_eq_true hdir), if_neg hdot,
    if_neg fun h => hdots h.1]
  cases hl : s.lookup d name with
  | none | some n => simp only [if_neg hdots, hl]

end Mounts

namespace FsTree

variable (t : FsTree)

def create (dir : ℕ) (name : Name) (n : ℕ) (h : t.isDir n = false) : FsTree where
  root := t.root
  isDir := t.isDir
  find d a := if d = dir ∧ a = name then some n else t.find d a
  parent := t.parent
  root_isDir := t.root_isDir
  root_parent := t.root_parent
  parent_find d a m hm hd := by
    split_ifs at hm
    · rw [← Option.some.inj hm, h] at hd
      exact nomatch hd
    · exact t.parent_find d a m hm hd

end FsTree

inductive OpenError
  | path (e : PathError)
  | EROFS | EEXIST | EPERM | EISDIR | EIO | ENOSPC | EMFILE
  deriving DecidableEq

structure OpenFlags where
  writing : Bool := false
  creat : Bool := false
  excl : Bool := false
  trunc : Bool := false
  directory : Bool := false

structure OpenErrors where
  create : Option OpenError := none
  truncate : Option OpenError := none
  alloc : Option OpenError := none

/-- The file systems with the contents of their files; every inode that is not a directory is a regular file or a block
device, whose bytes no mounted file system and no other device shares. The inodes of an instance are numbered as they are
made, and `next` is the number of the next one. -/
structure Storage where
  mounts : Mounts
  cwd : SbInode
  bytes : SbInode → List UInt8
  device : SbInode → Bool
  readOnly : ℕ → Bool
  next : ℕ → ℕ
  reachable : Mounts.system.Reachable mounts
  cwd_isDir : mounts.isDir cwd = true
  isDir_lt : ∀ i n, (mounts.tree i).isDir n = true → n < next i
  find_lt : ∀ i d a n, (mounts.tree i).find d a = some n → n < next i
  parent_lt : ∀ i d n, (mounts.tree i).parent d = some n → n < next i
  device_lt : ∀ i, device i = true → i.num < next i.sb
  device_isDir : ∀ i, device i = true → mounts.isDir i = false

namespace Storage

variable (w : Storage)

def lookup (path : CString) : Except PathError SbInode := w.mounts.vfsLookup path (some w.cwd)

def contents (path : CString) : Except PathError (List UInt8) := (w.lookup path).map w.bytes

def setBytes (i : SbInode) (l : List UInt8) : Storage := { w with bytes := update w.bytes i l }

/-- `S_ISREG` -/
def regular (i : SbInode) : Bool := !w.mounts.isDir i && !w.device i

def writeAt (i : SbInode) (pos : ℕ) (l : List UInt8) : Storage :=
  w.setBytes i ((w.bytes i).take pos ++ List.replicate (pos - (w.bytes i).length) 0 ++ l ++
    (w.bytes i).drop (pos + l.length))

/-- A `write` of some bytes, with the number of those that are written: a device takes none behind its end. -/
def write (i : SbInode) (pos : ℕ) (l : List UInt8) : ℕ × Storage :=
  let l := if w.device i then l.take ((w.bytes i).length - pos) else l
  (l.length, if l = [] then w else w.writeAt i pos l)

lemma next_isDir (i : ℕ) : (w.mounts.tree i).isDir (w.next i) = false := by
  by_contra h
  exact absurd (w.isDir_lt i _ (by simpa using h)) (lt_irrefl _)

def createTree (dir : SbInode) (name : Name) : FsTree :=
  (w.mounts.tree dir.sb).create dir.num name (w.next dir.sb) (w.next_isDir dir.sb)

def createMounts (dir : SbInode) (name : Name) : Mounts where
  tree := update w.mounts.tree dir.sb (w.createTree dir name)
  next := w.mounts.next
  mounted := w.mounts.mounted
  covered := w.mounts.covered
  mounts := w.mounts.mounts

variable {w} {dir d : SbInode} {name a : Name} {i : ℕ}

lemma createMounts_self : (w.createMounts dir name).tree dir.sb = w.createTree dir name := update_self _ _ _

lemma createMounts_of_ne (h : i ≠ dir.sb) : (w.createMounts dir name).tree i = w.mounts.tree i :=
  update_of_ne h _ _

lemma createMounts_isDir : ((w.createMounts dir name).tree i).isDir = (w.mounts.tree i).isDir := by
  by_cases hi : i = dir.sb
  · rw [hi, createMounts_self]
    rfl
  · rw [createMounts_of_ne hi]

lemma createMounts_root : ((w.createMounts dir name).tree i).root = (w.mounts.tree i).root := by
  by_cases hi : i = dir.sb
  · rw [hi, createMounts_self]
    rfl
  · rw [createMounts_of_ne hi]

lemma createMounts_parent : ((w.createMounts dir name).tree i).parent = (w.mounts.tree i).parent := by
  by_cases hi : i = dir.sb
  · rw [hi, createMounts_self]
    rfl
  · rw [createMounts_of_ne hi]

lemma createMounts_find : ((w.createMounts dir name).tree d.sb).find d.num a =
    if d = dir ∧ a = name then some (w.next dir.sb) else (w.mounts.tree d.sb).find d.num a := by
  by_cases hi : d.sb = dir.sb
  · obtain ⟨sb, num⟩ := d
    obtain rfl : sb = dir.sb := hi
    have hd : (⟨dir.sb, num⟩ : SbInode) = dir ↔ num = dir.num :=
      ⟨fun h => congrArg SbInode.num h, fun h => by rw [h]⟩
    rw [createMounts_self]
    exact if_congr (and_congr_left' hd.symm) rfl rfl
  · rw [createMounts_of_ne hi, if_neg fun h => hi (congrArg SbInode.sb h.1)]

lemma createMounts_reachable : Mounts.system.Reachable (w.createMounts dir name) := by
  refine w.reachable.step (a := .change dir.sb (w.createTree dir name)) ⟨rfl, fun d hd hsb => ?_, rfl⟩
  obtain ⟨r, hr⟩ := Option.ne_none_iff_exists'.1 hd
  have hdir := (Mounts.reachable_invariant w.reachable).isDir d r hr
  rwa [Mounts.isDir, hsb] at hdir

variable (w)

def create (dir : SbInode) (name : Name) : Storage where
  mounts := w.createMounts dir name
  cwd := w.cwd
  bytes := update w.bytes ⟨dir.sb, w.next dir.sb⟩ []
  device := w.device
  readOnly := w.readOnly
  next := update w.next dir.sb (w.next dir.sb + 1)
  reachable := createMounts_reachable
  cwd_isDir := by
    rw [Mounts.isDir, createMounts_isDir]
    exact w.cwd_isDir
  isDir_lt i n h := by
    rw [createMounts_isDir] at h
    exact (w.isDir_lt i n h).trans_le (le_update_iff.2 ⟨Nat.le_succ _, fun _ _ => le_rfl⟩ i)
  find_lt i d a n h := by
    change ((w.createMounts dir name).tree (SbInode.mk i d).sb).find (SbInode.mk i d).num a = some n at h
    rw [createMounts_find] at h
    split_ifs at h with hnew
    · rw [← Option.some.inj h, ← hnew.1, update_self]
      exact Nat.lt_succ_self _
    · exact (w.find_lt i d a n h).trans_le (le_update_iff.2 ⟨Nat.le_succ _, fun _ _ => le_rfl⟩ i)
  parent_lt i d n h := by
    rw [createMounts_parent] at h
    exact (w.parent_lt i d n h).trans_le (le_update_iff.2 ⟨Nat.le_succ _, fun _ _ => le_rfl⟩ i)
  device_lt i h := (w.device_lt i h).trans_le (le_update_iff.2 ⟨Nat.le_succ _, fun _ _ => le_rfl⟩ i.sb)
  device_isDir i h := by
    rw [Mounts.isDir, createMounts_isDir]
    exact w.device_isDir i h

def openCreate (flags : OpenFlags) (errs : OpenErrors) (path : CString) : Except OpenError SbInode × Storage :=
  match w.mounts.vfsLookupParent path (some w.cwd) with
  | .error e => (.error (.path e), w)
  | .ok (dir, name) =>
    if w.readOnly dir.sb then (.error .EROFS, w)
    else
      match w.mounts.lookup dir name with
      | some n => if flags.excl then (.error .EEXIST, w) else (.ok (w.mounts.followMounts n), w)
      | none =>
        match errs.create with
        | some e => (.error e, w)
        | none => (.ok (w.mounts.followMounts ⟨dir.sb, w.next dir.sb⟩), w.create dir name)

def openInode (flags : OpenFlags) (errs : OpenErrors) (path : CString) : Except OpenError SbInode × Storage :=
  if flags.creat then w.openCreate flags errs path
  else
    match w.lookup path with
    | .error e => (.error (.path e), w)
    | .ok i => (.ok i, w)

def openFile (errs : OpenErrors) (i : SbInode) : Except OpenError SbInode × Storage :=
  match errs.alloc with
  | some e => (.error e, w)
  | none => (.ok i, w)

def vfsOpen (flags : OpenFlags) (errs : OpenErrors) (path : CString) : Except OpenError SbInode × Storage :=
  match w.openInode flags errs path with
  | (.error e, w) => (.error e, w)
  | (.ok i, w) =>
    if w.mounts.isDir i = true ∧ flags.writing = true then (.error .EISDIR, w)
    else if flags.directory = true ∧ w.mounts.isDir i = false then (.error (.path .ENOTDIR), w)
    else if flags.writing = true ∧ w.readOnly i.sb = true ∧ w.regular i = true then (.error .EROFS, w)
    else if flags.trunc = true ∧ flags.writing = true ∧ w.regular i = true then
      match errs.truncate with
      | some e => (.error e, w)
      | none => (w.setBytes i []).openFile errs i
    else w.openFile errs i

section Lookup

variable {w} {e o p : SbInode} {ws : List Name} {path src : CString} {flags : OpenFlags} {errs : OpenErrors}
  {w' : Storage}

lemma rootOf_lt (i : ℕ) : (w.mounts.rootOf i).num < w.next i := w.isDir_lt i _ (w.mounts.tree i).root_isDir

lemma mounted_isDir {r : SbInode} (h : w.mounts.mounted p = some r) :
    w.mounts.isDir p = true ∧ r = w.mounts.rootOf r.sb := by
  have hinv := Mounts.reachable_invariant w.reachable
  exact ⟨hinv.isDir p r h, (hinv.root p r h).1⟩

lemma next_free (i : ℕ) : w.mounts.mounted ⟨i, w.next i⟩ = none := by
  cases hm : w.mounts.mounted ⟨i, w.next i⟩ with
  | none => rfl
  | some r => exact absurd ((mounted_isDir hm).1.symm.trans (w.next_isDir i)) nofun

lemma followMounts_lt (h : p.num < w.next p.sb) :
    (w.mounts.followMounts p).num < w.next (w.mounts.followMounts p).sb := by
  have hinv := Mounts.reachable_invariant w.reachable
  obtain ⟨-, heq | ⟨-, c, hc, -⟩⟩ := hinv.followMounts_leads p
  · rwa [heq]
  · rw [(mounted_isDir ((hinv.inverse c _).2 hc)).2]
    exact rootOf_lt _

lemma child_lt (hd : d.num < w.next d.sb) (h : w.mounts.lookup d a = some e) : e.num < w.next e.sb := by
  obtain ⟨n, hn, rfl⟩ := Option.map_eq_some_iff.1 h
  rw [FsTree.lookup] at hn
  split_ifs at hn
  · rw [← Option.some.inj hn]
    cases hp : (w.mounts.tree d.sb).parent d.num with
    | none => exact hd
    | some p => exact w.parent_lt _ _ p hp
  · exact w.find_lt _ _ _ n hn

lemma step_lt (hd : d.num < w.next d.sb) (h : w.mounts.step d a = .ok e) : e.num < w.next e.sb := by
  have hinv := Mounts.reachable_invariant w.reachable
  have hbase : ((w.mounts.covered d).getD d).num < w.next ((w.mounts.covered d).getD d).sb := by
    cases hcov : w.mounts.covered d with
    | none => exact hd
    | some c => exact w.isDir_lt _ _ (hinv.isDir c d ((hinv.inverse c d).2 hcov))
  rw [Mounts.step] at h
  split_ifs at h with hdir hdot hroot hdots
  · exact Except.ok.inj h ▸ hd
  · exact Except.ok.inj h ▸ hd
  all_goals
    dsimp only at h
    split at h
    · cases h
    · rename_i child hc
      rw [← Except.ok.inj h]
      refine followMounts_lt (child_lt ?_ hc)
      assumption

lemma lookup_lt (h : w.lookup path = .ok e) : e.num < w.next e.sb := by
  obtain ⟨-, -, hwalk⟩ := Mounts.vfsLookup_ok h
  have hstart : (w.mounts.startInode path (some w.cwd)).num < w.next (w.mounts.startInode path (some w.cwd)).sb := by
    rw [Mounts.startInode]
    split
    · exact rootOf_lt 0
    · exact w.isDir_lt _ _ w.cwd_isDir
  generalize w.mounts.startInode path (some w.cwd) = d at hwalk hstart
  generalize words slash path.bytes = ws at hwalk
  induction ws generalizing d with
  | nil => exact Except.ok.inj hwalk ▸ hstart
  | cons a ws ih =>
    obtain ⟨d', hd', hrest⟩ := Mounts.walk_cons_ok hwalk
    exact ih d' (step_lt hstart (Mounts.component_ok hd')) hrest

lemma createMounts_followMounts : (w.createMounts dir name).followMounts p = w.mounts.followMounts p := by
  rw [Mounts.followMounts, Mounts.followMounts]
  show (w.createMounts dir name).follow w.mounts.next p = w.mounts.follow w.mounts.next p
  induction w.mounts.next generalizing p with
  | zero => rfl
  | succ k ih =>
    cases hm : w.mounts.mounted p with
    | none => rw [Mounts.follow, Mounts.follow, show (w.createMounts dir name).mounted p = none from hm, hm]
    | some r =>
      rw [Mounts.follow, Mounts.follow, show (w.createMounts dir name).mounted p = some r from hm, hm]
      exact ih

lemma step_create (hnew : w.mounts.lookup dir name = none) (h : w.mounts.step d a = .ok e) :
    (w.createMounts dir name).step d a = .ok e := by
  have hroot : (w.createMounts dir name).rootInode = w.mounts.rootInode :=
    congrArg (SbInode.mk 0) createMounts_root
  have hlook (b : SbInode) (c : SbInode) (hc : w.mounts.lookup b a = some c) :
      (w.createMounts dir name).lookup b a = some c := by
    by_cases ha : a = dotDot
    · subst ha
      rw [Mounts.lookup_dotDot] at hc ⊢
      rw [createMounts_parent]
      exact hc
    · rw [Mounts.lookup_name ha] at hc ⊢
      rw [createMounts_find, if_neg ?_]
      · exact hc
      · rintro ⟨rfl, rfl⟩
        rw [Mounts.lookup_name ha] at hnew
        cases hnew.symm.trans hc
  rw [Mounts.step] at h ⊢
  rw [Mounts.isDir, createMounts_isDir, ← Mounts.isDir, hroot]
  split_ifs at h ⊢
  · exact h
  · exact h
  all_goals
    dsimp only at h ⊢
    split at h
    · cases h
    · rename_i child hc
      split
      · rename_i hn
        cases hn.symm.trans (hlook _ _ hc)
      · rename_i hs
        cases hs.symm.trans (hlook _ _ hc)
        exact (congrArg Except.ok createMounts_followMounts).trans h

lemma walk_create (hnew : w.mounts.lookup dir name = none) (h : w.mounts.walk ws d = .ok e) :
    (w.createMounts dir name).walk ws d = .ok e := by
  induction ws generalizing d with
  | nil => exact h
  | cons a ws ih =>
    obtain ⟨d', hd', hrest⟩ := Mounts.walk_cons_ok h
    rw [Mounts.component] at hd'
    split_ifs at hd' with hlong
    rw [Mounts.walk_cons, Mounts.component, if_neg hlong, step_create hnew hd']
    exact ih hrest

lemma createMounts_startInode {cwd : Option SbInode} :
    (w.createMounts dir name).startInode path cwd = w.mounts.startInode path cwd := by
  have hroot : (w.createMounts dir name).rootInode = w.mounts.rootInode :=
    congrArg (SbInode.mk 0) createMounts_root
  rw [Mounts.startInode, Mounts.startInode, hroot]

lemma lookup_create (hnew : w.mounts.lookup dir name = none) (h : w.lookup path = .ok e) :
    (w.create dir name).lookup path = .ok e := by
  obtain ⟨hne, hlen, hwalk⟩ := Mounts.vfsLookup_ok h
  refine (Mounts.vfsLookup_eq hne hlen).trans ?_
  show (w.createMounts dir name).walk _ ((w.createMounts dir name).startInode path (some w.cwd)) = _
  rw [createMounts_startInode]
  exact walk_create hnew hwalk

lemma lookup_created (h : w.mounts.vfsLookupParent path (some w.cwd) = .ok (dir, name))
    (hnew : w.mounts.lookup dir name = none) :
    (w.create dir name).lookup path = .ok ⟨dir.sb, w.next dir.sb⟩ := by
  obtain ⟨hne, hlen, hdot, hdots, hdir, us, hus, hwalk, hle⟩ := Mounts.vfsLookupParent_ok h
  have hfree := w.next_free dir.sb
  refine (Mounts.vfsLookup_eq hne hlen).trans ?_
  show (w.createMounts dir name).walk _ ((w.createMounts dir name).startInode path (some w.cwd)) = _
  rw [createMounts_startInode, hus, Mounts.walk_append, walk_create hnew hwalk]
  show (w.createMounts dir name).walk [name] dir = _
  rw [Mounts.walk_singleton, Mounts.component, if_neg (by omega), Mounts.step, Mounts.isDir, createMounts_isDir,
    ← Mounts.isDir, if_neg (by simp [hdir]), if_neg hdot, if_neg fun h => hdots h.1]
  simp only [if_neg hdots, Mounts.lookup_name hdots, createMounts_find, and_self, if_true, Option.map_some]
  show Except.ok ((w.createMounts dir name).followMounts ⟨dir.sb, w.next dir.sb⟩) = _
  rw [createMounts_followMounts, Mounts.Invariant.followMounts_free hfree]

end Lookup

section Open

variable {w w' : Storage} {i o : SbInode} {path : CString} {errs : OpenErrors}

def readFlags : OpenFlags := {}

def truncFlags : OpenFlags := { writing := true, creat := true, trunc := true }

def Creatable (w : Storage) (path : CString) : Prop :=
  ∃ dir name, w.mounts.vfsLookupParent path (some w.cwd) = .ok (dir, name) ∧ w.readOnly dir.sb = false

structure Truncates (w : Storage) (path : CString) (i : SbInode) : Prop where
  lookup : w.lookup path = .ok i
  regular : w.regular i = true
  parent : w.Creatable path
  readOnly : w.readOnly i.sb = false

structure OpensDevice (w : Storage) (path : CString) (i : SbInode) : Prop where
  lookup : w.lookup path = .ok i
  device : w.device i = true
  parent : w.Creatable path

lemma openInode_trunc : w.openInode truncFlags errs path = w.openCreate truncFlags errs path := if_pos rfl

lemma openFile_ok (h : w.openFile errs i = (.ok o, w')) : o = i ∧ w' = w := by
  rw [openFile] at h
  split at h
  · exact nomatch (Prod.mk.inj h).1
  · obtain ⟨hi, rfl⟩ := Prod.mk.inj h
    exact ⟨(Except.ok.inj hi).symm, rfl⟩

lemma vfsOpen_read (h : w.vfsOpen readFlags errs path = (.ok i, w')) : w' = w ∧ w.lookup path = .ok i := by
  rw [vfsOpen, openInode, if_neg (by decide)] at h
  cases hl : w.lookup path with
  | error e =>
    rw [hl] at h
    exact nomatch (Prod.mk.inj h).1
  | ok j =>
    rw [hl] at h
    dsimp only at h
    rw [if_neg fun h => absurd h.2 (by decide), if_neg fun h => absurd h.1 (by decide),
      if_neg fun h => absurd h.1 (by decide), if_neg fun h => absurd h.1 (by decide)] at h
    obtain ⟨rfl, rfl⟩ := openFile_ok h
    exact ⟨rfl, rfl⟩

lemma openCreate_ok (h : w.openCreate truncFlags errs path = (.ok i, w')) :
    ∃ dir name, w.mounts.vfsLookupParent path (some w.cwd) = .ok (dir, name) ∧ w.readOnly dir.sb = false ∧
      (w.lookup path = .ok i ∧ w' = w ∨
        w.mounts.lookup dir name = none ∧ i = ⟨dir.sb, w.next dir.sb⟩ ∧ w' = w.create dir name) := by
  rw [openCreate] at h
  split at h
  · exact nomatch (Prod.mk.inj h).1
  · rename_i dir name hp
    by_cases hro : w.readOnly dir.sb = true
    · rw [if_pos hro] at h
      exact nomatch (Prod.mk.inj h).1
    rw [if_neg hro] at h
    have hlookup := Mounts.vfsLookup_of_parent hp
    refine ⟨dir, name, hp, by simpa using hro, ?_⟩
    cases hn : w.mounts.lookup dir name with
    | some n =>
      rw [hn] at h hlookup
      dsimp only at h
      rw [if_neg (by decide)] at h
      obtain ⟨hi, rfl⟩ := Prod.mk.inj h
      exact .inl ⟨hlookup.trans (congrArg Except.ok (Except.ok.inj hi)), rfl⟩
    | none =>
      rw [hn] at h
      dsimp only at h
      split at h
      · exact nomatch (Prod.mk.inj h).1
      · obtain ⟨hi, rfl⟩ := Prod.mk.inj h
        rw [Mounts.Invariant.followMounts_free (w.next_free dir.sb)] at hi
        exact .inr ⟨rfl, (Except.ok.inj hi).symm, rfl⟩

lemma regular_iff : w.regular i = true ↔ w.mounts.isDir i = false ∧ w.device i = false := by
  rw [regular, Bool.and_eq_true, Bool.not_eq_true', Bool.not_eq_true']

lemma regular_created {dir : SbInode} {name : Name} :
    (w.create dir name).regular ⟨dir.sb, w.next dir.sb⟩ = true := by
  refine regular_iff.2 ⟨?_, ?_⟩
  · show (w.createMounts dir name).isDir _ = false
    rw [Mounts.isDir, createMounts_isDir]
    exact w.next_isDir dir.sb
  · show w.device _ = false
    by_contra h
    exact absurd (w.device_lt _ (by simpa using h)) (lt_irrefl _)

lemma vfsOpen_trunc (h : w.vfsOpen truncFlags errs path = (.ok o, w')) :
    w.Truncates path o ∧ w' = w.setBytes o [] ∨ w.OpensDevice path o ∧ w' = w ∨
      ∃ dir name, w.mounts.vfsLookupParent path (some w.cwd) = .ok (dir, name) ∧
        w.mounts.lookup dir name = none ∧ o = ⟨dir.sb, w.next dir.sb⟩ ∧ w' = (w.create dir name).setBytes o [] := by
  rw [vfsOpen, openInode_trunc] at h
  rcases hc : w.openCreate truncFlags errs path with ⟨e | i, w₁⟩
  · rw [hc] at h
    exact nomatch (Prod.mk.inj h).1
  rw [hc] at h
  dsimp only at h
  by_cases hdir : w₁.mounts.isDir i = true
  · rw [if_pos ⟨hdir, rfl⟩] at h
    exact nomatch (Prod.mk.inj h).1
  rw [if_neg fun h => hdir h.1, if_neg fun h => absurd h.1 (by decide)] at h
  rw [Bool.not_eq_true] at hdir
  obtain ⟨dir, name, hp, hdirRo, hopened⟩ := openCreate_ok hc
  by_cases hreg : w₁.regular i = true
  · by_cases hro : w₁.readOnly i.sb = true
    · rw [if_pos ⟨rfl, hro, hreg⟩] at h
      exact nomatch (Prod.mk.inj h).1
    rw [if_neg fun h => hro h.2.1, if_pos ⟨rfl, rfl, hreg⟩] at h
    split at h
    · exact nomatch (Prod.mk.inj h).1
    obtain ⟨rfl, rfl⟩ := openFile_ok h
    obtain ⟨hl, rfl⟩ | ⟨hnew, hi, rfl⟩ := hopened
    · exact .inl ⟨⟨hl, hreg, ⟨dir, name, hp, hdirRo⟩, by simpa using hro⟩, rfl⟩
    · exact .inr (.inr ⟨dir, name, hp, hnew, hi, rfl⟩)
  · rw [if_neg fun h => hreg h.2.2, if_neg fun h => hreg h.2.2] at h
    obtain ⟨rfl, rfl⟩ := openFile_ok h
    obtain ⟨hl, rfl⟩ | ⟨hnew, rfl, rfl⟩ := hopened
    · have hdev : w'.device o = true := by
        by_contra hd
        exact hreg (regular_iff.2 ⟨hdir, by simpa using hd⟩)
      exact .inr (.inl ⟨⟨hl, hdev, ⟨dir, name, hp, hdirRo⟩⟩, rfl⟩)
    · exact absurd regular_created hreg

lemma openCreate_found (hl : w.lookup path = .ok i) (hp : w.Creatable path) :
    w.openCreate truncFlags {} path = (.ok i, w) := by
  obtain ⟨dir, name, hp, hro⟩ := hp
  have hlookup := (Mounts.vfsLookup_of_parent hp).symm.trans hl
  rw [openCreate, hp]
  dsimp only
  rw [if_neg (by rw [hro]; nofun)]
  cases hn : w.mounts.lookup dir name with
  | none =>
    rw [hn] at hlookup
    exact nomatch hlookup
  | some n =>
    rw [hn] at hlookup
    exact congrArg (fun i => (Except.ok i, w)) (Except.ok.inj hlookup)

lemma Truncates.vfsOpen (h : w.Truncates path i) : w.vfsOpen truncFlags {} path = (.ok i, w.setBytes i []) := by
  rw [Storage.vfsOpen, openInode_trunc, openCreate_found h.lookup h.parent]
  simp [(regular_iff.1 h.regular).1, h.regular, h.readOnly, truncFlags, openFile]

lemma OpensDevice.vfsOpen (h : w.OpensDevice path i) : w.vfsOpen truncFlags {} path = (.ok i, w) := by
  have hreg : w.regular i = false := by
    by_contra hr
    exact absurd ((regular_iff.1 (by simpa using hr)).2.symm.trans h.device) Bool.false_ne_true
  rw [Storage.vfsOpen, openInode_trunc, openCreate_found h.lookup h.parent]
  simp [w.device_isDir i h.device, hreg, truncFlags, openFile]

lemma vfsOpen_found (h : w.lookup path = .ok i) : w.vfsOpen readFlags {} path = (.ok i, w) := by
  rw [vfsOpen, openInode, if_neg (by decide), h]
  simp [readFlags, openFile]

end Open

end Storage

end MyOS.Fs
