import MyOS.Fs.PathWalkRuns

/-! The working directory and its name: `sys_chdir`, and the calls that use the name. -/

namespace MyOS.Fs

open Library Words Function

def stringFrom (mem : ℕ → UInt8) (i : ℕ) : ℕ → List UInt8
  | 0 => []
  | n + 1 => if mem i = 0 then [] else mem i :: stringFrom mem (i + 1) n

lemma zero_notMem_stringFrom (mem : ℕ → UInt8) (i n : ℕ) : 0 ∉ stringFrom mem i n := by
  induction n generalizing i with
  | zero => exact List.not_mem_nil
  | succ n ih =>
    rw [stringFrom]
    split_ifs with h
    · exact List.not_mem_nil
    · rw [List.mem_cons, not_or]
      exact ⟨fun he => h he.symm, ih (i + 1)⟩

def CString.read (mem : ℕ → UInt8) (n : ℕ) : CString := ⟨stringFrom mem 0 n, zero_notMem_stringFrom mem 0 n⟩

lemma CString.At.read {s : CString} {mem : ℕ → UInt8} {n : ℕ} (h : s.At mem) (hn : s.bytes.length < n) :
    CString.read mem n = s := by
  suffices hall : ∀ (l : List UInt8) (i n : ℕ), 0 ∉ l → (∀ j (hj : j < l.length), mem (i + j) = l[j]) →
      mem (i + l.length) = 0 → l.length < n → stringFrom mem i n = l by
    obtain ⟨l, hl⟩ := s
    simp only [CString.read, CString.mk.injEq]
    refine hall l 0 n hl (fun j hj => ?_) ?_ hn
    · rw [Nat.zero_add]
      exact h.1 j hj
    · rw [Nat.zero_add]
      exact h.2
  intro l
  induction l with
  | nil =>
    intro i n _ _ hzero hlt
    obtain ⟨n, rfl⟩ := Nat.exists_eq_succ_of_ne_zero (Nat.ne_of_gt hlt)
    exact if_pos hzero
  | cons b l ih =>
    intro i n hno hbytes hzero hlt
    rw [List.mem_cons, not_or] at hno
    rw [List.length_cons] at hlt hzero
    obtain ⟨n, rfl⟩ := Nat.exists_eq_succ_of_ne_zero (by omega : n ≠ 0)
    have hb : mem i = b := hbytes 0 (Nat.succ_pos _)
    have hrest : stringFrom mem (i + 1) n = l := by
      refine ih (i + 1) n hno.2 (fun j hj => ?_) ?_ (by omega)
      · rw [Nat.add_right_comm]
        exact hbytes (j + 1) (Nat.succ_lt_succ hj)
      · rw [Nat.add_right_comm]
        exact hzero
    rw [stringFrom, hb, if_neg (Ne.symm hno.1), hrest]

def cwdSize : ℕ := 256

structure Task where
  cwd : SbInode
  cwdPath : CString

def Task.canon (p : Task) (path : CString) (buf : Option (ℕ → UInt8)) : Except PathError CString :=
  match buf with
  | none => .error .ENOMEM
  | some mem =>
    let r := pathNormalize p.cwdPath path mem pathMax
    if r.1 then .ok (.read r.2 pathMax) else .error .ENAMETOOLONG

namespace Mounts

variable (s : Mounts)

def sysChdir (p : Task) (path : CString) (buf : Option (ℕ → UInt8)) : Except PathError Task :=
  s.vfsLookup path (some p.cwd) >>= fun d =>
    if s.isDir d = false then .error .ENOTDIR
    else (p.canon path buf).map fun canon => ⟨d, canon.cut cwdSize⟩

def sysMount (p : Task) (target : CString) (buf : Option (ℕ → UInt8)) (dev : Option PathError)
    (fs : Except PathError FsTree) : Except PathError Mounts :=
  p.canon target buf >>= fun canon => s.vfsMount canon dev fs

def sysUmount (p : Task) (target : CString) (buf : Option (ℕ → UInt8)) (busy : Bool) : Except PathError Mounts :=
  p.canon target buf >>= fun canon => s.vfsUmount canon busy

end Mounts

def sysGetcwd (p : Task) (size : ℕ) : Except PathError (List UInt8) :=
  if size < p.cwdPath.bytes.length + 1 then .error .ERANGE else .ok p.cwdPath.bytes

structure Session where
  mounts : Mounts
  task : Task

inductive SessionAction
  | chdir (path : CString) (buf : Option (ℕ → UInt8))
  | change (i : ℕ) (t : FsTree)

structure FsTree.Keeps (t t' : FsTree) : Prop where
  root : t'.root = t.root
  isDir : ∀ n, t.isDir n = true → t'.isDir n = true
  find : ∀ d a n, t.find d a = some n → t.isDir n = true → t'.find d a = some n

namespace Session

def system : System Session SessionAction where
  init w := Mounts.system.Reachable w.mounts ∧ w.task.cwd = w.mounts.rootInode ∧ w.task.cwdPath.bytes = [slash]
  step w
    | .chdir path buf, w' => ∃ p, w.mounts.sysChdir w.task path buf = .ok p ∧ w' = { w with task := p }
    | .change i t, w' => (w.mounts.tree i).Keeps t ∧
        w' = { w with mounts := { w.mounts with tree := update w.mounts.tree i t } }

variable (w : Session)

/-- The canonical path is shorter than `cwd_path`, and the walk is not misled by file systems that are
stacked on each other. -/
def Careful : SessionAction → Prop
  | .chdir path _ => (render (foldPath (words slash (fullPath w.task.cwdPath path).bytes))).length < cwdSize ∧
      w.mounts.Unstacked (words slash path.bytes) (w.mounts.startInode path (some w.task.cwd))
  | .change _ _ => True

structure NamesCwd : Prop where
  canonical : w.task.cwdPath.Canonical
  lookup : w.mounts.vfsLookup w.task.cwdPath none = .ok w.task.cwd
  getcwd : ∀ size l, sysGetcwd w.task size = .ok l → ∀ path : CString, path.bytes = l →
    w.mounts.vfsLookup path none = .ok w.task.cwd
  target : ∀ path d, w.mounts.vfsLookup path (some w.task.cwd) = .ok d →
    w.mounts.Unstacked (words slash path.bytes) (w.mounts.startInode path (some w.task.cwd)) →
    ∀ buf canon, w.task.canon path buf = .ok canon → w.mounts.vfsLookup canon none = .ok d ∧
      (∀ fs, w.mounts.sysMount w.task path buf none fs = w.mounts.mountAt d fs) ∧
      ∀ busy, w.mounts.sysUmount w.task path buf busy = w.mounts.umountAt busy d

variable {w}

lemma canon_ok {p : Task} {path canon : CString} {buf : Option (ℕ → UInt8)}
    (hlen : p.cwdPath.bytes.length + 1 + path.bytes.length < pathMax * 2) (h : p.canon path buf = .ok canon) :
    canon.bytes = render (foldPath (words slash (fullPath p.cwdPath path).bytes)) ∧
      canon.bytes.length < pathMax := by
  cases buf with
  | none => cases h
  | some mem =>
    simp only [Task.canon] at h
    split_ifs at h with hok
    have hzero : ∀ v ∈ foldPath (words slash (fullPath p.cwdPath path).bytes), 0 ∉ v := fun v hv hz => by
      have hm := (foldPath_plain (fun _ hw => (word_of_mem hw).1) v hv).2
      exact (fullPath p.cwdPath path).noZero ((word_of_mem hm).2 0 hz)
    obtain ⟨hat, hshort⟩ := pathNormalize_at (s := renderString _ hzero) (fullPath_length hlen) (by decide) hok rfl
    cases h
    rw [hat.read hshort]
    exact ⟨rfl, hshort⟩

structure Invariant (w : Session) : Prop where
  mounts : w.mounts.Invariant
  canonical : w.task.cwdPath.Canonical
  short : w.task.cwdPath.bytes.length < cwdSize
  lookup : w.mounts.vfsLookup w.task.cwdPath none = .ok w.task.cwd
  isDir : w.mounts.isDir w.task.cwd = true

lemma Invariant.canon_lookup (hw : w.Invariant) {path canon : CString} {buf : Option (ℕ → UInt8)} {d : SbInode}
    (hlook : w.mounts.vfsLookup path (some w.task.cwd) = .ok d)
    (hun : w.mounts.Unstacked (words slash path.bytes) (w.mounts.startInode path (some w.task.cwd)))
    (h : w.task.canon path buf = .ok canon) :
    canon.bytes = render (foldPath (words slash (fullPath w.task.cwdPath path).bytes)) ∧
      w.mounts.vfsLookup canon none = .ok d := by
  obtain ⟨-, hpath, hwalk⟩ := Mounts.vfsLookup_ok hlook
  have hcwd := hw.short
  obtain ⟨hcanon, hshort⟩ := canon_ok (by
    have : cwdSize + 1 + pathMax ≤ pathMax * 2 := by decide
    omega) h
  refine ⟨hcanon, ?_⟩
  have hwords : ∀ v ∈ words slash path.bytes, Word slash v := fun v hv => (word_of_mem hv).1
  have hplain := foldPath_words_plain (fullPath w.task.cwdPath path).bytes
  rw [Mounts.vfsLookup_abs (by rw [hcanon, render_head]) hshort, hcanon, words_render fun v hv => (hplain v hv).1]
  rw [Mounts.startInode] at hwalk hun
  rw [fullPath]
  split_ifs at hwalk hun ⊢ with habs
  · exact Mounts.walk_foldl hw.mounts (List.forall_mem_nil _) hwords rfl hun hwalk
  · obtain ⟨stack, hstack, hbytes⟩ := hw.canonical
    have hname := hw.lookup
    rw [Mounts.vfsLookup_abs (by rw [hbytes, render_head]) (by
      have : cwdSize ≤ pathMax := by decide
      omega), hbytes, words_render fun v hv => (hstack v hv).1] at hname
    have hfull : foldPath (words slash (w.task.cwdPath.join path).bytes) =
        (words slash path.bytes).foldl foldStep stack := by
      rw [CString.join, words_append_sep, hbytes, words_render fun v hv => (hstack v hv).1, foldPath,
        List.foldl_append, foldl_plain hstack, List.nil_append]
    rw [hfull]
    exact Mounts.walk_foldl hw.mounts hstack hwords hname hun hwalk

lemma Invariant.namesCwd (hw : w.Invariant) : w.NamesCwd where
  canonical := hw.canonical
  lookup := hw.lookup
  getcwd size l h path hp := by
    rw [sysGetcwd] at h
    split_ifs at h
    obtain ⟨bytes, hno⟩ := path
    obtain rfl : bytes = w.task.cwdPath.bytes := hp.trans (Except.ok.inj h).symm
    exact hw.lookup
  target path d hlook hun buf canon h := by
    have hc := (hw.canon_lookup hlook hun h).2
    refine ⟨hc, fun fs => ?_, fun busy => ?_⟩
    · rw [Mounts.sysMount, h]
      show w.mounts.vfsLookup canon none >>= _ = _
      rw [hc]
      rfl
    · rw [Mounts.sysUmount, h]
      show w.mounts.vfsLookup canon none >>= _ = _
      rw [hc]
      rfl

section Change

variable {s : Mounts} {i : ℕ} {t : FsTree} {d e : SbInode} {a : Name} {stack : List Name}

def changed (s : Mounts) (i : ℕ) (t : FsTree) : Mounts := { s with tree := update s.tree i t }

lemma changed_keeps (ht : (s.tree i).Keeps t) (j : ℕ) : (s.tree j).Keeps ((changed s i t).tree j) := by
  show (s.tree j).Keeps (update s.tree i t j)
  by_cases hj : j = i
  · subst hj
    rw [update_self]
    exact ht
  · rw [update_of_ne hj]
    exact ⟨rfl, fun _ h => h, fun _ _ _ h _ => h⟩

lemma changed_followMounts (p : SbInode) : (changed s i t).followMounts p = s.followMounts p := by
  have hall : ∀ k p, (changed s i t).follow k p = s.follow k p := by
    intro k
    induction k with
    | zero => exact fun _ => rfl
    | succ k ih =>
      intro p
      rw [Mounts.follow, Mounts.follow]
      simp only [ih]
      rfl
  exact hall _ p

lemma component_keeps (hs : s.Invariant) (ht : (s.tree i).Keeps t) (ha : PlainName a)
    (h : s.component d a = .ok e) (he : s.isDir e = true) : (changed s i t).component d a = .ok e := by
  obtain ⟨-, hdot, hdots⟩ := ha
  change a ≠ dotDot at hdots
  obtain ⟨hd, n, hf, hn⟩ := Mounts.step_name (Mounts.component_ok h) hdot hdots
  have hdir : s.isDir ⟨d.sb, n⟩ = true := by
    cases hm : s.mounted ⟨d.sb, n⟩ with
    | none => rwa [hn, Mounts.Invariant.followMounts_free hm] at he
    | some r => exact hs.isDir _ r hm
  have hkeep := changed_keeps ht d.sb
  have hd' : (changed s i t).isDir d = true := hkeep.isDir d.num hd
  rw [Mounts.component] at h ⊢
  split_ifs at h ⊢
  rw [Mounts.step, if_neg (ne_false_of_eq_true hd'), if_neg hdot, if_neg fun hc => hdots hc.1]
  simp only [if_neg hdots, Mounts.lookup_name hdots, hkeep.find d.num a n hf hdir, Option.map_some,
    changed_followMounts, hn]

lemma isDir_of_walk (h : s.walk stack d = .ok e) (he : s.isDir e = true) : s.isDir d = true := by
  cases stack with
  | nil => exact Except.ok.inj h ▸ he
  | cons a stack =>
    obtain ⟨d', ha, -⟩ := Mounts.walk_cons_ok h
    exact Mounts.step_isDir (Mounts.component_ok ha)

lemma walk_keeps (hs : s.Invariant) (ht : (s.tree i).Keeps t) (hplain : ∀ v ∈ stack, PlainName v)
    (h : s.walk stack d = .ok e) (he : s.isDir e = true) : (changed s i t).walk stack d = .ok e := by
  induction stack generalizing d with
  | nil => exact h
  | cons a stack ih =>
    obtain ⟨d', ha, hwalk⟩ := Mounts.walk_cons_ok h
    rw [Mounts.walk_cons,
      component_keeps hs ht (hplain a List.mem_cons_self) ha (isDir_of_walk hwalk he)]
    exact ih (fun v hv => hplain v (List.mem_cons_of_mem _ hv)) hwalk

end Change

lemma Invariant.chdir (hw : w.Invariant) {path : CString} {buf : Option (ℕ → UInt8)} {p : Task}
    (h : w.mounts.sysChdir w.task path buf = .ok p) (hc : w.Careful (.chdir path buf)) :
    Invariant { w with task := p } := by
  obtain ⟨hfits, hun⟩ := hc
  rw [Mounts.sysChdir] at h
  cases hlook : w.mounts.vfsLookup path (some w.task.cwd) with
  | error e =>
    rw [hlook] at h
    cases h
  | ok d =>
    rw [hlook] at h
    change (if w.mounts.isDir d = false then _ else _) = _ at h
    split_ifs at h with hd
    cases hcanon : w.task.canon path buf with
    | error e =>
      rw [hcanon] at h
      cases h
    | ok canon =>
      rw [hcanon] at h
      cases h
      obtain ⟨hbytes, hlead⟩ := hw.canon_lookup hlook hun hcanon
      have hshort : canon.bytes.length < cwdSize := by
        rw [hbytes]
        exact hfits
      have hcut : canon.cut cwdSize = canon := by
        obtain ⟨l, hl⟩ := canon
        simp only [CString.cut, CString.mk.injEq]
        exact CString.cut_of_lt (s := ⟨l, hl⟩) hshort
      dsimp only
      rw [hcut]
      exact ⟨hw.mounts, ⟨_, foldPath_words_plain _, hbytes⟩, hshort, hlead, by simpa using hd⟩

lemma Invariant.change (hw : w.Invariant) {i : ℕ} {t : FsTree} (ht : (w.mounts.tree i).Keeps t) :
    Invariant { w with mounts := changed w.mounts i t } := by
  have hcwd := hw.short
  have hmax : cwdSize ≤ pathMax := by decide
  obtain ⟨stack, hstack, hbytes⟩ := hw.canonical
  have habs : w.task.cwdPath.bytes.head? = some slash := by rw [hbytes, render_head]
  have hwords : words slash w.task.cwdPath.bytes = stack := by
    rw [hbytes, words_render fun v hv => (hstack v hv).1]
  have hname := hw.lookup
  rw [Mounts.vfsLookup_abs habs (by omega), hwords] at hname
  refine ⟨hw.mounts.change ht.root fun d hd hsb => ?_, ⟨stack, hstack, hbytes⟩, hw.short, ?_, ?_⟩
  · obtain ⟨r, hr⟩ := Option.ne_none_iff_exists'.1 hd
    subst hsb
    exact ht.isDir d.num (hw.mounts.isDir d r hr)
  · have hroot : (changed w.mounts i t).rootInode = w.mounts.rootInode :=
      congrArg (SbInode.mk 0) (changed_keeps ht 0).root
    show (changed w.mounts i t).vfsLookup _ none = _
    rw [Mounts.vfsLookup_abs habs (by omega), hwords, hroot]
    exact walk_keeps hw.mounts ht hstack hname hw.isDir
  · exact (changed_keeps ht _).isDir _ hw.isDir

theorem careful_namesCwd (h : (system.guarded Careful).Reachable w) : w.NamesCwd := by
  refine Invariant.namesCwd (h.invariant (fun w hi => ?_) fun w a w' hw hst => ?_)
  · obtain ⟨hreach, hcwd, hpath⟩ := hi
    have hs := Mounts.reachable_invariant hreach
    refine ⟨hs, ⟨[], nofun, hpath⟩, by rw [hpath]; decide, ?_, ?_⟩
    · rw [Mounts.vfsLookup_abs (by rw [hpath]; rfl) (by rw [hpath]; decide), hpath, hcwd]
      rfl
    · rw [hcwd]
      exact (w.mounts.tree 0).root_isDir
  · obtain ⟨hc, hst⟩ := hst
    cases a with
    | chdir path buf =>
      obtain ⟨p, hp, rfl⟩ := hst
      exact hw.chdir hp hc
    | change i t =>
      obtain ⟨ht, rfl⟩ := hst
      exact hw.change ht

section Examples

def start (t : FsTree) : Session := ⟨Mounts.start t, ⟨⟨0, t.root⟩, ⟨[slash], by decide⟩⟩⟩

lemma start_init (t : FsTree) : system.init (start t) :=
  ⟨.init ⟨rfl, fun _ => rfl, fun _ => rfl, rfl⟩, rfl, rfl⟩

/-- `/a` is a mount point, and the file system on it has a directory `b`. -/
def beforeMount : Session := ⟨Mounts.mountedOnce, ⟨⟨0, 0⟩, ⟨[slash], by decide⟩⟩⟩

lemma not_stacked_once (d : SbInode) : ¬ Mounts.mountedOnce.Stacked d := by
  rintro ⟨c, hc, hne⟩
  by_cases hd : d = ⟨1, 0⟩
  · subst hd
    obtain rfl : ⟨0, 1⟩ = c := Option.some.inj hc
    exact hne (by decide)
  · have hnone : Mounts.mountedOnce.covered d = none := update_of_ne hd ..
    exact nomatch hnone.symm.trans hc

def pathAB : CString := ⟨[97, slash, 98], by decide⟩

def pathUp : CString := ⟨[dot, dot, slash, dot, dot, slash, 97], by decide⟩

/-- `chdir("a/b")` and `chdir("../../a")`. -/
def visited : { w : Session // (system.guarded Careful).Reachable w } :=
  have h₀ : (system.guarded Careful).Reachable beforeMount := .init ⟨Mounts.mountedOnce_reachable, rfl, rfl⟩
  have h₁ : (system.guarded Careful).Reachable _ := .step (.chdir pathAB (some fun _ => 0)) h₀
    ⟨⟨by decide +kernel, fun _ _ e _ _ => not_stacked_once e⟩, _, rfl, rfl⟩
  have h₂ : (system.guarded Careful).Reachable _ := .step (.chdir pathUp (some fun _ => 0)) h₁
    ⟨⟨by decide +kernel, fun _ _ e _ _ => not_stacked_once e⟩, _, rfl, rfl⟩
  ⟨_, h₂⟩

theorem careful_namesCwd_visited : visited.1.task.cwd = ⟨1, 0⟩ ∧ visited.1.task.cwdPath.bytes = [slash, 97] ∧
    visited.1.NamesCwd :=
  ⟨by decide +kernel, by decide +kernel, careful_namesCwd visited.2⟩

def longName : Name := List.replicate nameMax 97

def longPath : CString := ⟨slash :: longName, by simp [longName, slash]⟩

def beforeLong : Session := start (Mounts.oneDir longName)

def canonLong : CString := .read (pathNormalize beforeLong.task.cwdPath longPath (fun _ => 0) pathMax).2 pathMax

lemma canon_long : beforeLong.task.canon longPath (some fun _ => 0) = .ok canonLong := by
  have hok : (pathNormalize beforeLong.task.cwdPath longPath (fun _ => 0) pathMax).1 = true := by decide +kernel
  simp only [Task.canon, hok, if_true]
  rfl

theorem cwdPath_cut : ¬ ∀ w, system.Reachable w →
    w.mounts.vfsLookup w.task.cwdPath none = .ok w.task.cwd := by
  intro hall
  have hlook : beforeLong.mounts.vfsLookup longPath (some ⟨0, 0⟩) = .ok ⟨0, 1⟩ := by decide +kernel
  have hchdir : beforeLong.mounts.sysChdir beforeLong.task longPath (some fun _ => 0) =
      .ok ⟨⟨0, 1⟩, canonLong.cut cwdSize⟩ := by
    rw [Mounts.sysChdir, show beforeLong.task.cwd = ⟨0, 0⟩ from rfl, hlook, canon_long]
    rfl
  have hreach : system.Reachable ⟨beforeLong.mounts, ⟨⟨0, 1⟩, canonLong.cut cwdSize⟩⟩ :=
    .step (.chdir longPath (some fun _ => 0)) (.init (start_init _)) ⟨_, hchdir, rfl⟩
  have hname : canonLong.cut cwdSize = longPath.cut cwdSize := by
    have hbytes := (canon_ok (by decide +kernel) canon_long).1
    simp only [CString.cut, CString.mk.injEq, hbytes]
    decide +kernel
  have hlost := hall _ hreach
  dsimp only at hlost
  rw [hname] at hlost
  exact absurd hlost (by decide +kernel)

end Examples

end Session

end MyOS.Fs
