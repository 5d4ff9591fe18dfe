import MyOS.Fs.Ext2.Rename

/-! A rename that fails has changed nothing, one that succeeds has moved one name. -/

namespace MyOS.Fs.Ext2

def IsDots (name : Name) : Prop := name = dot ∨ name = dotdot

def Ext2Fs.find (v : Ext2Fs) (bs d : ℕ) : Name → ℕ := dirFind bs allReads (v.inode d).dir

/-- What a consistent file system promises about its directories; `used` are the inodes in use. -/
structure Consistent (bs : ℕ) (used : ℕ → Prop) (v : Ext2Fs) : Prop where
  count : v.inodesCount < 2 ^ 32
  number : ∀ i, used i → 1 ≤ i ∧ i ≤ v.inodesCount
  sound : ∀ d, used d → v.isDir d = true → Sound bs (v.inode d).dir
  dots : ∀ d, used d → v.isDir d = true → ∃ p, used p ∧ Dots bs (v.inode d).dir d p
  entry : ∀ d, used d → v.isDir d = true → ∀ name, v.find bs d name ≠ 0 → used (v.find bs d name)
  child : ∀ d, used d → v.isDir d = true → ∀ name, ¬ IsDots name → v.find bs d name ≠ 0 →
    v.isDir (v.find bs d name) = true → v.find bs (v.find bs d name) dotdot = d

structure Moved (bs : ℕ) (v v' : Ext2Fs) (odir : ℕ) (oname : Name) (ndir : ℕ) (nname : Name) :
    Prop where
  new : v'.find bs ndir nname = v.find bs odir oname
  old : v'.find bs odir oname = 0
  frame : ∀ d name, ¬ (d = ndir ∧ name = nname) → ¬ (d = odir ∧ name = oname) →
    ¬ (d = v.find bs odir oname ∧ name = dotdot ∧ v.isDir d = true ∧ odir ≠ ndir) →
    v'.find bs d name = v.find bs d name
  up : v.isDir (v.find bs odir oname) = true → odir ≠ ndir ∨ ¬ IsDots oname →
    v'.find bs (v.find bs odir oname) dotdot = ndir

structure Sets (bs : ℕ) (v v' : Ext2Fs) (d : ℕ) (name : Name) (n : ℕ) : Prop where
  find : ∀ i x, v'.find bs i x = if i = d ∧ x = name then n else v.find bs i x
  sound : ∀ i, Sound bs (v.inode i).dir → Sound bs (v'.inode i).dir
  mode : ∀ i, (v'.inode i).mode = (v.inode i).mode
  dir : ∀ i, i ≠ d → (v'.inode i).dir = (v.inode i).dir

namespace Ext2Fs

variable {v v' : Ext2Fs} {bs d i n : ℕ} {name : Name} {dir : Dir}

@[simp] lemma setDir_dir : ((v.setDir d dir).inode d).dir = dir := by simp [setDir]

lemma setDir_dir_ne (h : i ≠ d) : ((v.setDir d dir).inode i).dir = (v.inode i).dir := by
  simp [setDir, h]

@[simp] lemma setDir_mode : ((v.setDir d dir).inode i).mode = (v.inode i).mode := by
  by_cases h : i = d
  · simp [setDir, h]
  · simp [setDir, h]

@[simp] lemma setDir_self : v.setDir d (v.inode d).dir = v := by simp [setDir]

@[simp] lemma setNlink_dir : ((v.setNlink d n).inode i).dir = (v.inode i).dir := by
  by_cases h : i = d
  · simp [setNlink, h]
  · simp [setNlink, h]

@[simp] lemma setNlink_mode : ((v.setNlink d n).inode i).mode = (v.inode i).mode := by
  by_cases h : i = d
  · simp [setNlink, h]
  · simp [setNlink, h]

lemma setDir_sets (h : Sound bs dir)
    (hf : dirFind bs allReads dir = Function.update (v.find bs d) name n) :
    Sets bs v (v.setDir d dir) d name n := by
  refine ⟨fun i x => ?_, fun i hi => ?_, fun i => setDir_mode, fun i => setDir_dir_ne⟩
  · by_cases hi : i = d
    · subst hi
      rw [find, setDir_dir, hf, Function.update_apply]
      simp
    · rw [find, setDir_dir_ne hi, if_neg fun hx => hi hx.1]
      rfl
  · by_cases hid : i = d
    · subst hid
      rwa [setDir_dir]
    · rwa [setDir_dir_ne hid]

end Ext2Fs

lemma Sets.setNlink {v v' : Ext2Fs} {bs d n : ℕ} {name : Name} (h : Sets bs v v' d name n)
    (i m : ℕ) : Sets bs v (v'.setNlink i m) d name n := by
  refine ⟨fun j x => ?_, fun j hj => ?_, fun j => ?_, fun j hj => ?_⟩
  · rw [Ext2Fs.find, Ext2Fs.setNlink_dir]
    exact h.find j x
  · rw [Ext2Fs.setNlink_dir]
    exact h.sound j hj
  · rw [Ext2Fs.setNlink_mode, h.mode]
  · rw [Ext2Fs.setNlink_dir, h.dir j hj]

lemma Sets.of_free {v : Ext2Fs} {bs d : ℕ} {name : Name} (h : v.find bs d name = 0) :
    Sets bs v v d name 0 := by
  refine ⟨fun i x => ?_, fun i hi => hi, fun i => rfl, fun i hi => rfl⟩
  split_ifs with hx
  · rw [hx.1, hx.2, h]
  · rfl

lemma Sets.isDir {v v' : Ext2Fs} {bs d n : ℕ} {name : Name} (h : Sets bs v v' d name n) (i : ℕ) :
    v'.isDir i = v.isDir i := by
  rw [Ext2Fs.isDir, h.mode, Ext2Fs.isDir]

section Stages

variable {bs odir ndir src dst : ℕ} {oname nname : Name} {v v' : Ext2Fs} {err : Option RenameError}
  {block : Except DirError Block}

def HasRoom (bs : ℕ) (dir : Dir) (name : Name) : Prop :=
  ∀ ino ft block, (dirAdd bs allReads dir name ino ft { block := block }).1 = none

lemma removeTarget_spec (hs : BlockSize bs) (hn : Sound bs (v.inode ndir).dir)
    (hname : v.find bs ndir nname ≠ 0) {b : Bool}
    (h : v.removeTarget bs { block := block } odir ndir nname b dst = some (err, v')) :
    err = none ∧ Sets bs v v' ndir nname 0 ∧ HasRoom bs (v'.inode ndir).dir nname := by
  obtain ⟨hok, hsound, hfind⟩ := hn.remove hs hname
  have hroom : HasRoom bs (dirRemove bs allReads (v.inode ndir).dir nname true).2 nname :=
    fun ino ft g => dirAdd_of_removed hs hn.wellFormed hok ino ft { block := g }
  have hset := Ext2Fs.setDir_sets (v := v) hsound hfind
  simp only [Ext2Fs.removeTarget, hok] at h
  by_cases hheld : dst = odir ∨ dst = ndir
  · rw [if_pos hheld] at h
    cases h
  · rw [if_neg hheld] at h
    cases h
    refine ⟨rfl, ?_, ?_⟩
    · cases b with
      | true => exact (hset.setNlink _ _).setNlink _ _
      | false => exact hset.setNlink _ _
    · cases b with
      | true => simpa using hroom
      | false => simpa using hroom

lemma replaceTarget_spec (hs : BlockSize bs) (hn : Sound bs (v.inode ndir).dir)
    (hname : v.find bs ndir nname ≠ 0) {b : Bool}
    (h : v.replaceTarget bs { block := block } odir ndir nname b dst = some (err, v')) :
    err ≠ none ∧ v' = v ∨
      err = none ∧ Sets bs v v' ndir nname 0 ∧ HasRoom bs (v'.inode ndir).dir nname := by
  rw [Ext2Fs.replaceTarget] at h
  by_cases hkind : v.isDir dst ≠ b
  · rw [if_pos hkind] at h
    cases h
    exact .inl ⟨Option.some_ne_none _, rfl⟩
  rw [if_neg hkind] at h
  by_cases hb : b = true
  · rw [if_pos hb] at h
    split_ifs at h with hheld hempty
    · exact .inr (removeTarget_spec hs hn hname h)
    · cases h
      exact .inl ⟨Option.some_ne_none _, rfl⟩
  · rw [if_neg hb] at h
    exact .inr (removeTarget_spec hs hn hname h)

def movedFind (v : Ext2Fs) (bs odir : ℕ) (oname : Name) (ndir : ℕ) (nname : Name) (src d : ℕ)
    (x : Name) : ℕ :=
  if d = src ∧ x = dotdot ∧ v.isDir src = true ∧ odir ≠ ndir then ndir
  else if d = odir ∧ x = oname then 0
  else if d = ndir ∧ x = nname then src
  else v.find bs d x

lemma setParent_spec (hndir : ndir ≠ 0) (hndir' : ndir < 2 ^ 32)
    (hup : v.isDir src = true → src ≠ odir → src ≠ ndir →
      Sound bs (v.inode src).dir ∧ ∃ p, p ≠ 0 ∧ Dots bs (v.inode src).dir src p)
    (h : v.setParent bs { block := block } odir ndir src = some (err, v')) :
    err = none ∧ (v.isDir src = true → odir ≠ ndir → src ≠ odir) ∧ ∀ d x, v'.find bs d x =
      if d = src ∧ x = dotdot ∧ v.isDir src = true ∧ odir ≠ ndir then ndir
      else v.find bs d x := by
  unfold Ext2Fs.setParent at h
  by_cases hmove : v.isDir src = true ∧ odir ≠ ndir
  · rw [if_pos hmove] at h
    split_ifs at h with hheld
    obtain ⟨hso, hsn⟩ := not_or.1 hheld
    obtain ⟨hsound, p, hp, hdots⟩ := hup hmove.1 hso hsn
    obtain ⟨hsound', hfind⟩ := setDotdot_spec hsound hdots hp hndir hndir'
    have hset := Ext2Fs.setDir_sets (v := v) hsound' hfind
    cases h
    refine ⟨rfl, fun _ _ => hso, fun d x => ?_⟩
    rw [((hset.setNlink _ _).setNlink _ _).find]
    simp only [hmove.1, hmove.2, ne_eq, not_false_eq_true, and_true]
  · rw [if_neg hmove] at h
    cases h
    refine ⟨rfl, fun hd hne => absurd ⟨hd, hne⟩ hmove, fun d x => ?_⟩
    rw [if_neg fun hx => hmove hx.2.2]

lemma moveName_spec (hs : BlockSize bs) (ho : Sound bs (v.inode odir).dir)
    (hn : Sound bs (v.inode ndir).dir) (hold : v.find bs odir oname ≠ 0)
    (hfree : v.find bs ndir nname = 0) (hsrc : src < 2 ^ 32) (hndir : ndir ≠ 0)
    (hndir' : ndir < 2 ^ 32)
    (hup : v.isDir src = true → src ≠ ndir →
      Sound bs (v.inode src).dir ∧ ∃ p, p ≠ 0 ∧ Dots bs (v.inode src).dir src p)
    (h : v.moveName bs { block := block } odir oname ndir nname src = some (err, v')) :
    err ≠ none ∧ v' = v ∧ ¬ HasRoom bs (v.inode ndir).dir nname ∨
      err = none ∧ (v.isDir src = true → odir ≠ ndir → src ≠ odir) ∧
        ∀ d x, v'.find bs d x = movedFind v bs odir oname ndir nname src d x := by
  have hadd := hn.add hs hsrc hfree (modeToFt (v.inode src).mode) block
  dsimp only at hadd
  rcases hadd with ⟨herr, hsame⟩ | ⟨hok, hsound, hfind⟩
  · -- nothing has been written yet
    left
    obtain ⟨e, he⟩ := Option.ne_none_iff_exists'.1 herr
    simp only [Ext2Fs.moveName, he, hsame, Ext2Fs.setDir_self] at h
    cases h
    refine ⟨Option.some_ne_none _, rfl, fun hroom => ?_⟩
    exact herr (hroom src (modeToFt (v.inode src).mode) block)
  · right
    have h₁ := Ext2Fs.setDir_sets (v := v) hsound hfind
    simp only [Ext2Fs.moveName, hok] at h
    generalize v.setDir ndir _ = w at h h₁
    have hold' : w.find bs odir oname ≠ 0 := by
      rw [h₁.find, if_neg]
      · exact hold
      · rintro ⟨rfl, rfl⟩
        exact hold hfree
    obtain ⟨hok', hsound', hfind'⟩ := (h₁.sound odir ho).remove hs hold'
    have h₂ := Ext2Fs.setDir_sets (v := w) hsound' hfind'
    simp only [Ext2Fs.removeOld, hok'] at h
    generalize w.setDir odir _ = u at h h₂
    have hkind : u.isDir src = v.isDir src := (h₂.isDir src).trans (h₁.isDir src)
    have hdir : src ≠ odir → src ≠ ndir → (u.inode src).dir = (v.inode src).dir :=
      fun hso hsn => (h₂.dir src hso).trans (h₁.dir src hsn)
    obtain ⟨rfl, hother, hfinal⟩ := setParent_spec hndir hndir' (fun hd hso hsn => by
      rw [hdir hso hsn]
      exact hup (hkind ▸ hd) hsn) h
    refine ⟨rfl, fun hd => hother (hkind.trans hd), fun d x => ?_⟩
    rw [hfinal, hkind, h₂.find, h₁.find, movedFind]

end Stages

section Whole

variable {bs odir ndir : ℕ} {used : ℕ → Prop} {oname nname : Name} {v v' : Ext2Fs}
  {err : Option RenameError}

namespace Consistent

variable {d : ℕ} {name : Name}

lemma lt (hc : Consistent bs used v) (hd : used d) : d ≠ 0 ∧ d < 2 ^ 32 := by
  have := hc.number d hd
  have := hc.count
  omega

lemma lookup_eq (hc : Consistent bs used v) (hd : used d) (hdir : v.isDir d = true) (name : Name) :
    v.lookup bs allReads true d name =
      if v.find bs d name = 0 then none else some (v.find bs d name) := by
  by_cases h : v.find bs d name = 0
  · rw [if_pos h]
    exact if_neg fun hn => hn h
  · rw [if_neg h]
    obtain ⟨hlow, hhigh⟩ := hc.number _ (hc.entry d hd hdir name h)
    exact (if_pos h).trans (if_pos ⟨hlow, hhigh, rfl⟩)

lemma parent (hc : Consistent bs used v) (hd : used d) (hdir : v.isDir d = true) :
    Sound bs (v.inode d).dir ∧ ∃ p, p ≠ 0 ∧ Dots bs (v.inode d).dir d p := by
  obtain ⟨p, hp, hdots⟩ := hc.dots d hd hdir
  exact ⟨hc.sound d hd hdir, p, (hc.lt hp).1, hdots⟩

lemma moved (hc : Consistent bs used v) (ho : used odir) (hod : v.isDir odir = true)
    (hsrc : v.find bs odir oname ≠ 0) (hne : v.find bs odir oname ≠ v.find bs ndir nname)
    (hother : v.isDir (v.find bs odir oname) = true → odir ≠ ndir → v.find bs odir oname ≠ odir)
    (h : ∀ d x, v'.find bs d x = movedFind v bs odir oname ndir nname (v.find bs odir oname) d x) :
    Moved bs v v' odir oname ndir nname := by
  refine ⟨?_, ?_, fun d name hnew hold hup => ?_, fun hdir hwhere => ?_⟩
  · rw [h, movedFind]
    split_ifs with h₁ h₂ h₃
    · exact h₁.1
    · rw [h₂.1, h₂.2] at hne
      exact absurd rfl hne
    · rfl
    · exact absurd ⟨rfl, rfl⟩ h₃
  · rw [h, movedFind, if_neg, if_pos ⟨rfl, rfl⟩]
    rintro ⟨h₁, -, h₂, h₃⟩
    exact hother h₂ h₃ h₁.symm
  · rw [h, movedFind, if_neg, if_neg hold, if_neg hnew]
    rintro ⟨h₁, h₂, h₃, h₄⟩
    exact hup ⟨h₁, h₂, h₁ ▸ h₃, h₄⟩
  · rw [h, movedFind]
    by_cases hsame : odir = ndir
    · -- in one directory `..` stays as it is
      subst hsame
      have hdots : ¬ IsDots oname := hwhere.resolve_left fun hn => hn rfl
      have hchild := hc.child odir ho hod oname hdots hsrc hdir
      rw [if_neg fun hx => hx.2.2.2 rfl, if_neg, if_neg, hchild]
      · rintro ⟨hself, rfl⟩
        rw [hself] at hchild hne
        exact hne hchild.symm
      · rintro ⟨-, rfl⟩
        exact hdots (.inr rfl)
    · rw [if_pos ⟨rfl, rfl, hdir, hsame⟩]

lemma moveName_spec (hs : BlockSize bs) (hc : Consistent bs used v) (ho : used odir)
    (hod : v.isDir odir = true) (hn : used ndir) (hnd : v.isDir ndir = true)
    (hsrc : v.find bs odir oname ≠ 0) (hne : v.find bs odir oname ≠ v.find bs ndir nname)
    {w : Ext2Fs} (hset : Sets bs v w ndir nname 0) {block : Except DirError Block}
    (h : w.moveName bs { block := block } odir oname ndir nname (v.find bs odir oname) =
      some (err, v')) :
    err ≠ none ∧ v' = w ∧ ¬ HasRoom bs (w.inode ndir).dir nname ∨
      err = none ∧ Moved bs v v' odir oname ndir nname := by
  have hused : used (v.find bs odir oname) := hc.entry odir ho hod oname hsrc
  have hold : w.find bs odir oname ≠ 0 := by
    rw [hset.find, if_neg]
    · exact hsrc
    · rintro ⟨rfl, rfl⟩
      exact hne rfl
  have hfree : w.find bs ndir nname = 0 := by rw [hset.find, if_pos ⟨rfl, rfl⟩]
  have hup : w.isDir (v.find bs odir oname) = true → v.find bs odir oname ≠ ndir →
      Sound bs (w.inode (v.find bs odir oname)).dir ∧
        ∃ p, p ≠ 0 ∧ Dots bs (w.inode (v.find bs odir oname)).dir (v.find bs odir oname) p := by
    intro hd hsn
    rw [hset.dir _ hsn]
    exact hc.parent hused ((hset.isDir _).symm.trans hd)
  obtain ⟨hn₀, hn₁⟩ := hc.lt hn
  rcases Ext2.moveName_spec hs (hset.sound odir (hc.sound odir ho hod))
    (hset.sound ndir (hc.sound ndir hn hnd)) hold hfree (hc.lt hused).2 hn₀ hn₁ hup h with
    hr | ⟨herr, hother, hall⟩
  · exact .inl hr
  · refine .inr ⟨herr, hc.moved ho hod hsrc hne ?_ fun d x => ?_⟩
    · exact fun hd => hother ((hset.isDir _).trans hd)
    · rw [hall, movedFind, movedFind, hset.isDir, hset.find]
      by_cases hnew : d = ndir ∧ x = nname
      · simp only [hnew, and_self, if_true]
      · simp only [hnew, if_false]

end Consistent

theorem rename_atomic (hs : BlockSize bs) (hc : Consistent bs used v) (ho : used odir)
    (hod : v.isDir odir = true) (hn : used ndir) (hnd : v.isDir ndir = true)
    (block : Except DirError Block)
    (h : v.rename bs { block := block } odir oname ndir nname = some (err, v')) :
    (err ≠ none → (∀ d name, v'.find bs d name = v.find bs d name) ∧
      ∀ i, (v'.inode i).nlink = (v.inode i).nlink) ∧
    (err = none → v.find bs odir oname ≠ v.find bs ndir nname →
      Moved bs v v' odir oname ndir nname) := by
  have hfail : ∀ {e}, some (some e, v) = some (err, v') → err ≠ none ∧ v' = v := by
    intro e he
    cases he
    exact ⟨Option.some_ne_none _, rfl⟩
  have hdone : err ≠ none ∧ v' = v ∨ err = none ∧
      (v.find bs odir oname ≠ v.find bs ndir nname → Moved bs v v' odir oname ndir nname) := by
    unfold Ext2Fs.rename at h
    rw [hc.lookup_eq ho hod, hc.lookup_eq hn hnd] at h
    by_cases hsrc : v.find bs odir oname = 0
    · rw [if_pos hsrc] at h
      exact .inl (hfail h)
    rw [if_neg hsrc] at h
    by_cases hdst : v.find bs ndir nname = 0
    · -- the new name is free
      have hne : v.find bs odir oname ≠ v.find bs ndir nname := hdst ▸ hsrc
      have hset : Sets bs v v ndir nname 0 := .of_free hdst
      simp only [hdst, if_true, reduceCtorEq, if_false] at h
      split_ifs at h
      · exact .inl (hfail h)
      · rcases hc.moveName_spec hs ho hod hn hnd hsrc hne hset h with ⟨herr, hv, -⟩ | ⟨herr, hv⟩
        · exact .inl ⟨herr, hv⟩
        · exact .inr ⟨herr, fun _ => hv⟩
    · simp only [hdst, if_false, Option.some.injEq] at h
      split_ifs at h with hsame
      · exact .inr ⟨(Prod.mk.inj (Option.some.inj h)).1.symm, fun hne => absurd hsame.symm hne⟩
      · exact .inl (hfail h)
      · cases hrep : v.replaceTarget bs { block := block } odir ndir nname
          (v.isDir (v.find bs odir oname)) (v.find bs ndir nname) with
        | none => simp [hrep] at h
        | some res =>
          obtain ⟨e, w⟩ := res
          rw [hrep] at h
          rcases replaceTarget_spec hs (hc.sound ndir hn hnd) hdst hrep with
            ⟨he, rfl⟩ | ⟨rfl, hset, hroom⟩
          · obtain ⟨e', rfl⟩ := Option.ne_none_iff_exists'.1 he
            exact .inl (hfail h)
          · have hne : v.find bs odir oname ≠ v.find bs ndir nname := Ne.symm hsame
            rcases hc.moveName_spec hs ho hod hn hnd hsrc hne hset h with
              ⟨-, -, hno⟩ | ⟨herr, hv⟩
            · exact absurd hroom hno
            · exact .inr ⟨herr, fun _ => hv⟩
  rcases hdone with ⟨herr, rfl⟩ | ⟨herr, hv⟩
  · exact ⟨fun _ => ⟨fun _ _ => rfl, fun _ => rfl⟩, fun he => absurd he herr⟩
  · exact ⟨fun he => absurd herr he, fun _ => hv⟩

end Whole

section TwoFiles

def twoFilesRecs : List Rec :=
  [⟨0, 2, 12, 2, dot⟩, ⟨12, 2, 12, 2, dotdot⟩, ⟨24, 11, 12, 1, [97]⟩, ⟨36, 12, 988, 1, [98]⟩]

def twoFilesBlock : Block := twoFilesRecs.foldl
  (fun b r => setEntry (setRecLen b r.off r.recLen) r.off r.inode r.fileType r.name) fun _ => 0

def twoFiles : Ext2Fs where
  inodesCount := 16
  inode i := if i = 2 then ⟨0x41ED, 2, [some twoFilesBlock]⟩ else ⟨0x81A4, 1, []⟩

lemma twoFiles_tiled : Tiled 1024 twoFilesBlock 0 twoFilesRecs 1024 := by
  refine ⟨by decide +kernel, ⟨by decide, by decide, by decide, by decide⟩, by decide +kernel,
    ⟨by decide, by decide, by decide, by decide⟩, by decide +kernel,
    ⟨by decide, by decide, by decide, by decide⟩, by decide +kernel,
    ⟨by decide, by decide, by decide, by decide⟩, rfl⟩

lemma twoFiles_entries : entries 1024 [some twoFilesBlock] =
    [⟨dot, 2, 2⟩, ⟨dotdot, 2, 2⟩, ⟨[97], 11, 1⟩, ⟨[98], 12, 1⟩] := by
  simp [entries, twoFiles_tiled.blockEntries, twoFilesRecs, live, Rec.entry]

lemma twoFiles_sound : Sound 1024 [some twoFilesBlock] := by
  constructor
  · intro b hb
    rw [Option.some.inj (List.mem_singleton.1 hb)]
    exact twoFiles_tiled.blockTiled
  · rw [Distinct, twoFiles_entries]
    decide

lemma twoFiles_find {name : Name} (h : twoFiles.find 1024 2 name ≠ 0) :
    IsDots name ∧ twoFiles.find 1024 2 name = 2 ∨ twoFiles.find 1024 2 name = 11 ∨
      twoFiles.find 1024 2 name = 12 := by
  have hfind : twoFiles.find 1024 2 name = lookup _ name :=
    congrFun (twoFiles_sound.find_eq.trans (congrArg lookup twoFiles_entries)) name
  rw [hfind] at h ⊢
  unfold lookup at h ⊢
  by_cases h₁ : dot = name
  · exact .inl ⟨.inl h₁.symm, by simp [h₁]⟩
  by_cases h₂ : dotdot = name
  · exact .inl ⟨.inr h₂.symm, by simp [h₁, h₂]⟩
  by_cases h₃ : [97] = name
  · exact .inr (.inl (by simp [h₁, h₂, h₃]))
  by_cases h₄ : [98] = name
  · exact .inr (.inr (by simp [h₁, h₂, h₃, h₄]))
  · simp [h₁, h₂, h₃, h₄] at h

lemma twoFiles_isDir {d : ℕ} : twoFiles.isDir d = true ↔ d = 2 := by
  by_cases h : d = 2
  · simp [twoFiles, Ext2Fs.isDir, h]
  · simp [twoFiles, Ext2Fs.isDir, h]

lemma twoFiles_consistent :
    Consistent 1024 (fun i => i = 2 ∨ i = 11 ∨ i = 12) twoFiles := by
  have hdots : Dots 1024 [some twoFilesBlock] 2 2 :=
    ⟨_, _, _, _, _, rfl, twoFiles_tiled, rfl, rfl, rfl, rfl⟩
  refine ⟨by decide, fun i hi => ?_, fun d _ hd => ?_, fun d _ hd => ?_, fun d _ hd name hn => ?_,
    fun d _ hd name hdot hn hdir => ?_⟩
  · simp only [twoFiles]
    omega
  · rw [twoFiles_isDir.1 hd]
    exact twoFiles_sound
  · rw [twoFiles_isDir.1 hd]
    exact ⟨2, .inl rfl, hdots⟩
  · rw [twoFiles_isDir.1 hd] at hn ⊢
    exact (twoFiles_find hn).imp_left And.right
  · rw [twoFiles_isDir.1 hd] at hn hdir
    rw [twoFiles_isDir] at hdir
    rcases twoFiles_find hn with ⟨h, -⟩ | h | h
    · exact absurd h hdot
    · omega
    · omega

theorem rename_atomic_twoFiles : ∃ v',
    twoFiles.rename 1024 { block := .error .nospc } 2 [97] 2 [98] = some (none, v') ∧
      Moved 1024 twoFiles v' 2 [97] 2 [98] := by
  have hret : (twoFiles.rename 1024 { block := .error .nospc } 2 [97] 2 [98]).map Prod.fst =
      some none := by decide +kernel
  obtain ⟨⟨err, v'⟩, hres, herr⟩ := Option.map_eq_some_iff.1 hret
  obtain rfl : err = none := herr
  refine ⟨v', hres, ?_⟩
  exact (rename_atomic (by decide) twoFiles_consistent (.inl rfl) (twoFiles_isDir.2 rfl)
    (.inl rfl) (twoFiles_isDir.2 rfl) (.error .nospc) hres).2 rfl (by decide +kernel)

end TwoFiles

end MyOS.Fs.Ext2
