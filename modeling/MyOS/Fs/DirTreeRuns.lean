import MyOS.Fs.DirTree

/-! Concurrent calls keep the directories a tree and removed directories empty, as long as no
directory gains an entry or moves between a check of it and the change that the check is for. -/

namespace MyOS.Fs

open Library Function

namespace DirPc

def HeldDir : DirPc → ℕ → Prop
  | .idle, _ => False
  | .add dir _ _ q, d => q ≠ .entering ∧ d = dir
  | .rm dir _ q, d => q ≠ .entering ∧ d = dir
  | .mv _ .entering, _ => False
  | .mv m .first, d => d = m.low
  | .mv m .last, d => d = m.low
  | .mv m _, d => d = m.odir ∨ d = m.ndir

def held : DirPc → Option ℕ
  | .rm _ _ (.holding v) | .rm _ _ (.checked v) | .rm _ _ (.refused v) => some v
  | .mv _ (.holding _ v) | .mv _ (.checked _ v) | .mv _ (.refused _ v) => some v
  | _ => none

def Held (x : DirPc) (d : ℕ) : Prop := x.HeldDir d ∨ x.held = some d

def target : DirPc → Option ℕ
  | .add dir _ _ _ => some dir
  | .mv m _ => some m.ndir
  | _ => none

def AddsTo (x : DirPc) (d : ℕ) : Prop := x.target = some d ∧ x.HeldDir d

def emptied : DirPc → Option ℕ
  | .rm _ _ (.checked v) | .rm _ _ (.empty v) => some v
  | .mv _ (.checked _ v) | .mv _ (.empty _ v) => some v
  | _ => none

def Ordered (ext2 : Bool) : DirPc → Prop
  | .mv _ q => match q with
    | .entering | .first | .locked | .found _ | .last => False
    | .leaving h => h = true
    | _ => ext2 = true
  | _ => False

def placed : DirPc → Option (Mv × ℕ)
  | .mv m q => match q with
    | .passed src _ | .holding src _ | .checked src _ | .refused src _ | .empty src _ | .clear src
    | .half src | .linked src => some (m, src)
    | _ => none
  | _ => none

def moves (x : DirPc) (m : Mv) (src : ℕ) : Prop :=
  x.placed = some (m, src) ∨ ∃ dst p k, x = .mv m (.walk src dst p k)

lemma target_of_placed {x : DirPc} {m : Mv} {src : ℕ} (h : x.placed = some (m, src)) :
    x.target = some m.ndir := by
  cases x with
  | mv m' q =>
    cases q <;> simp only [placed, reduceCtorEq, Option.some.injEq, Prod.mk.injEq] at h <;>
      rw [target, h.1]
  | _ => cases h

end DirPc

namespace DirTree

variable {s s' : DirTree} {t u d e : ℕ} {x y : DirPc}

@[simp] lemma setPc_self : (s.setPc t x).pc t = x := update_self ..

lemma setPc_ne (h : u ≠ t) : (s.setPc t x).pc u = s.pc u := update_of_ne h ..

section Locks

structure LockInv (s : DirTree) : Prop where
  held : ∀ t d, (s.pc t).Held d → s.lock d = some t
  apart : ∀ t v, (s.pc t).held = some v → ¬ (s.pc t).HeldDir v
  ordered : ∀ t, (s.pc t).Ordered s.ext2 → s.renameLock = some t

structure SameLocks (ext2 : Bool) (x y : DirPc) : Prop where
  dirs : ∀ d, y.HeldDir d → x.HeldDir d
  held : ∀ v, y.held = some v → x.held = some v
  ordered : y.Ordered ext2 → x.Ordered ext2

lemma Reads.sameLocks (h : s.Reads x y) : SameLocks s.ext2 x y := by
  cases h <;> constructor <;> simp_all [DirPc.HeldDir, DirPc.held, DirPc.Ordered]

lemma LockInv.of_pc (hs : s.LockInv) (hpc : s'.pc = update s.pc t y) (hfs : s'.ext2 = s.ext2)
    (hheld : ∀ d, y.Held d → s'.lock d = some t) (hapart : ∀ v, y.held = some v → ¬ y.HeldDir v)
    (hordered : y.Ordered s.ext2 → s'.renameLock = some t)
    (hlock : ∀ u ≠ t, ∀ d, (s.pc u).Held d → s'.lock d = some u)
    (hrename : ∀ u ≠ t, (s.pc u).Ordered s.ext2 → s'.renameLock = some u) : s'.LockInv := by
  have hself : s'.pc t = y := by rw [hpc, update_self]
  have hother : ∀ u ≠ t, s'.pc u = s.pc u := fun u hu => by rw [hpc, update_of_ne hu]
  refine ⟨fun u d hd => ?_, fun u v hv hd => ?_, fun u ho => ?_⟩ <;> by_cases hu : u = t
  · subst hu
    exact hheld d (hself ▸ hd)
  · exact hlock u hu d (hother u hu ▸ hd)
  · subst hu
    exact hapart v (hself ▸ hv) (hself ▸ hd)
  · rw [hother u hu] at hv hd
    exact hs.apart u v hv hd
  · subst hu
    exact hordered (hself ▸ hfs ▸ ho)
  · exact hrename u hu (hother u hu ▸ hfs ▸ ho)

lemma LockInv.setPc (hs : s.LockInv) (h : SameLocks s.ext2 (s.pc t) y)
    (hpc : s'.pc = update s.pc t y) (hlock : s'.lock = s.lock)
    (hrename : s'.renameLock = s.renameLock) (hfs : s'.ext2 = s.ext2) : s'.LockInv := by
  refine hs.of_pc hpc hfs (fun d hd => ?_) (fun v hv hd => hs.apart t v (h.held v hv) (h.dirs v hd))
    (fun ho => ?_) (fun u _ d hd => ?_) fun u _ ho => ?_
  · exact hlock ▸ hs.held t d (hd.imp (h.dirs d) (h.held d))
  · exact hrename ▸ hs.ordered t (h.ordered ho)
  · exact hlock ▸ hs.held u d hd
  · exact hrename ▸ hs.ordered u ho

lemma Mv.dirs_iff {m : Mv} : d = m.odir ∨ d = m.ndir ↔ d = m.low ∨ d = m.high := by
  simp only [Mv.low, Mv.high]
  omega

structure TakesLock (ext2 : Bool) (x : DirPc) (d : ℕ) (y : DirPc) : Prop where
  dirs : ∀ e, y.HeldDir e → x.HeldDir e ∨ e = d
  held : ∀ v, y.held = some v → x.held = some v ∨ v = d
  victim : y.held = none ∨ ∀ e, y.HeldDir e → x.HeldDir e
  ordered : y.Ordered ext2 → x.Ordered ext2

lemma Takes.takesLock (h : s.Takes x d y) : TakesLock s.ext2 x d y := by
  cases h with
  | high => constructor <;> simp [DirPc.HeldDir, DirPc.held, DirPc.Ordered, Mv.dirs_iff]
  | only h => constructor <;> simp_all [DirPc.HeldDir, DirPc.held, DirPc.Ordered, Mv.low]
  | _ => constructor <;> simp_all [DirPc.HeldDir, DirPc.held, DirPc.Ordered]

structure DropsLock (ext2 : Bool) (x : DirPc) (d : ℕ) (y : DirPc) : Prop where
  mine : x.Held d
  dirs : ∀ e, y.HeldDir e → x.HeldDir e
  held : y.held = none
  gone : x.held = some d ∨ ¬ y.HeldDir d
  ordered : y.Ordered ext2 → x.Ordered ext2

lemma Drops.dropsLock (h : s.Drops x d y) : DropsLock s.ext2 x d y := by
  cases h with
  | high h =>
    refine ⟨.inl (Mv.dirs_iff.2 (.inr rfl)), fun e he => Mv.dirs_iff.2 (.inl he), rfl,
      .inr fun he => h ?_, by simp [DirPc.Ordered]⟩
    simp only [DirPc.HeldDir, Mv.high, Mv.low] at he
    omega
  | only h =>
    exact ⟨.inl (Mv.dirs_iff.2 (.inl rfl)), fun e he => he.elim, rfl, .inr id,
      by simp [DirPc.Ordered]⟩
  | _ => constructor <;> simp_all [DirPc.HeldDir, DirPc.held, DirPc.Held, DirPc.Ordered]

lemma LockInv.take (hs : s.LockInv) (h : s.Takes (s.pc t) d y) (hl : s.lock d = none) :
    ({ s.setPc t y with lock := update s.lock d (some t) } : DirTree).LockInv := by
  have h := h.takesLock
  have hfree : ∀ u, ¬ (s.pc u).Held d := fun u hu => by
    have := hs.held u d hu
    simp [hl] at this
  have hold : ∀ u e, (s.pc u).Held e → update s.lock d (some t) e = some u := by
    intro u e he
    rw [update_of_ne]
    · exact hs.held u e he
    · rintro rfl
      exact hfree u he
  refine hs.of_pc rfl rfl (fun e he => ?_) (fun v hv he => ?_) (fun ho => hs.ordered t (h.ordered ho))
    (fun u _ => hold u) fun u _ => hs.ordered u
  · rcases he with he | he
    · rcases h.dirs e he with he | rfl
      · exact hold t e (.inl he)
      · exact update_self ..
    · rcases h.held e he with he | rfl
      · exact hold t e (.inr he)
      · exact update_self ..
  · rcases h.victim with hnone | hdirs
    · simp [hnone] at hv
    · rcases h.held v hv with hv | rfl
      · exact hs.apart t v hv (hdirs v he)
      · exact hfree t (.inl (hdirs v he))

lemma LockInv.drop (hs : s.LockInv) (h : s.Drops (s.pc t) d y) :
    ({ s.setPc t y with lock := update s.lock d none } : DirTree).LockInv := by
  have h := h.dropsLock
  have hmine := hs.held t d h.mine
  refine hs.of_pc rfl rfl (fun e he => ?_) (fun v hv => ?_) (fun ho => hs.ordered t (h.ordered ho))
    (fun u hu e he => ?_) fun u _ => hs.ordered u
  · have he : y.HeldDir e := he.resolve_right (by simp [h.held])
    have hed : e ≠ d := by
      rintro rfl
      rcases h.gone with hx | hy
      · exact hs.apart t e hx (h.dirs e he)
      · exact hy he
    exact (update_of_ne hed ..).trans (hs.held t e (.inl (h.dirs e he)))
  · simp [h.held] at hv
  · have hlock := hs.held u e he
    have hed : e ≠ d := by
      rintro rfl
      exact hu (Option.some.inj (hlock.symm.trans hmine))
    exact (update_of_ne hed ..).trans hlock

lemma LockInv.step {a : DirAction} (hs : s.LockInv) (h : Step s a s') : s'.LockInv := by
  cases h with
  | start hi hro hx =>
    refine hs.setPc ?_ rfl rfl rfl rfl
    rw [hi]
    cases hx <;> constructor <;> simp [DirPc.HeldDir, DirPc.held, DirPc.Ordered]
  | take ht hl => exact hs.take ht hl
  | drop ht => exact hs.drop ht
  | @order t m src ht hfs hl =>
    refine hs.of_pc rfl rfl (fun d hd => hs.held t d ?_) (by simp [DirPc.held]) (fun _ => rfl)
      (fun u _ => hs.held u) fun u _ ho => ?_
    · rw [ht]
      simpa [DirPc.Held, DirPc.HeldDir, DirPc.held] using hd
    · simpa [hl] using hs.ordered u ho
  | @release t m ht =>
    have hmine : s.renameLock = some t := hs.ordered t (by simp [ht, DirPc.Ordered])
    refine hs.of_pc rfl rfl (fun d hd => hs.held t d ?_) (by simp [DirPc.held])
      (by simp [DirPc.Ordered]) (fun u _ => hs.held u) fun u hu ho => ?_
    · rw [ht]
      simpa [DirPc.Held, DirPc.HeldDir, DirPc.held] using hd
    · exact absurd (Option.some.inj ((hs.ordered u ho).symm.trans hmine)) hu
  | read ht => exact hs.setPc ht.sameLocks rfl rfl rfl rfl
  | link ht hq | cut ht hq =>
    refine hs.setPc ?_ rfl rfl rfl rfl
    rw [ht]
    rcases hq with ⟨hfs, rfl, rfl⟩ | ⟨hfs, rfl, rfl⟩ <;> constructor <;>
      simp [DirPc.HeldDir, DirPc.held, DirPc.Ordered]
  | make ht | rmdir ht | replace ht | move ht =>
    refine hs.setPc ?_ rfl rfl rfl rfl
    rw [ht]
    constructor <;> simp [DirPc.HeldDir, DirPc.held, DirPc.Ordered]

end Locks

def Watched (s : DirTree) (d : ℕ) : Prop :=
  s.unlinked d = true ∨ s.isDir d = true ∧ ∃ u, (s.pc u).emptied = some d

def Closed (s : DirTree) (d : ℕ) : Prop := s.entries d = [] ∧ ∀ u, ¬ (s.pc u).AddsTo d

/-- No call locks a directory in order to add to it after it has been found empty by the call that
unlinks it; on tmpfs, none holds it so when it is found empty; and on tmpfs no directory is moved
that is above the new place of a rename whose walk has begun. -/
def Timely (s : DirTree) : DirAction → Prop
  | .take t d => ∀ y, s.Takes (s.pc t) d y → y.AddsTo d → ¬ s.Watched d
  | .read _ y => s.ext2 = false → ∀ v, y.emptied = some v → s.isDir v = true →
      ∀ u, ¬ (s.pc u).AddsTo v
  | .move t => s.ext2 = false → ∀ m src, (s.pc t).placed = some (m, src) → ∀ u, u ≠ t →
      ∀ m' src', (s.pc u).moves m' src' → s.isDir src' = true → m'.odir ≠ m'.ndir →
        ¬ Forest.Reaches s.parent m'.ndir src
  | _ => True

structure TreeSafe (s : DirTree) : Prop where
  acyclic : ∀ d, ¬ Relation.TransGen (fun a b => s.parent a = some b) d d
  empty : ∀ d, s.unlinked d = true → s.entries d = []

section Entries

def EmptyInv (s : DirTree) : Prop := ∀ d, s.Watched d → s.Closed d

lemma EmptyInv.mono (hs : s.EmptyInv) (hw : ∀ d, s'.Watched d → s.Watched d ∨ s'.Closed d)
    (hc : ∀ d, s.Watched d → s.Closed d → s'.Closed d) : s'.EmptyInv := fun d hd =>
  (hw d hd).elim (fun h => hc d h (hs d h)) id

lemma EmptyInv.setPc (hs : s.EmptyInv) (hpc : s'.pc = update s.pc t y)
    (hkind : s'.isDir = s.isDir) (hunlinked : ∀ d, s'.unlinked d = true → s.unlinked d = true)
    (hentries : ∀ d, s.Closed d → s'.entries d = [])
    (hadds : ∀ d, y.AddsTo d → (s.pc t).AddsTo d ∨ ¬ s.Watched d)
    (hempty : ∀ v, y.emptied = some v → s.isDir v = true →
      (s.pc t).emptied = some v ∨ s'.Closed v) : s'.EmptyInv := by
  refine hs.mono (fun d hd => ?_) fun d hd hcl => ⟨hentries d hcl, fun u hu => ?_⟩
  · rcases hd with hd | ⟨hdir, u, hu⟩
    · exact .inl (.inl (hunlinked d hd))
    · rw [hkind] at hdir
      by_cases hut : u = t
      · rw [hpc, hut, update_self] at hu
        exact (hempty d hu hdir).imp_left fun h => .inr ⟨hdir, t, h⟩
      · rw [hpc, update_of_ne hut] at hu
        exact .inl (.inr ⟨hdir, u, hu⟩)
  · by_cases hut : u = t
    · rw [hpc, hut, update_self] at hu
      exact (hadds d hu).elim (hcl.2 t) fun h => h hd
    · rw [hpc, update_of_ne hut] at hu
      exact hcl.2 u hu

lemma Reads.addsTo (h : s.Reads x y) (hd : y.AddsTo d) : x.AddsTo d := by
  refine ⟨?_, h.sameLocks.dirs d hd.2⟩
  have := hd.1
  cases h <;> exact this

lemma Reads.emptied (h : s.Reads x y) (hv : y.emptied = some d) (hdir : s.isDir d = true) :
    x.emptied = some d ∨ s.entries d = [] ∧ (s.ext2 = false ∨ x.held = some d) := by
  cases h <;> simp_all [DirPc.emptied, DirPc.held]

lemma Takes.addsTo (h : s.Takes x d y) (he : y.AddsTo e) : x.AddsTo e ∨ e = d := by
  rcases h.takesLock.dirs e he.2 with hx | rfl
  · refine .inl ⟨?_, hx⟩
    have := he.1
    cases h <;> exact this
  · exact .inr rfl

lemma Drops.addsTo (h : s.Drops x d y) (he : y.AddsTo e) : x.AddsTo e := by
  refine ⟨?_, h.dropsLock.dirs e he.2⟩
  have := he.1
  cases h <;> first | exact this | exact absurd this (by simp [DirPc.target])

lemma Takes.emptied (h : s.Takes x d y) : y.emptied = none := by
  cases h <;> rfl

lemma Drops.emptied (h : s.Drops x d y) (hv : y.emptied = some e) : x.emptied = some e := by
  cases h <;> exact hv

lemma EmptyInv.read (hs : s.EmptyInv) (hl : s.LockInv) (h : s.Reads (s.pc t) y)
    (ht : s.Timely (.read t y)) : (s.setPc t y).EmptyInv := by
  refine hs.setPc rfl rfl (fun _ => id) (fun d hd => hd.1) (fun d hd => .inl (h.addsTo hd))
    fun v hv hdir => ?_
  rcases h.emptied hv hdir with hx | ⟨hnil, hheld⟩
  · exact .inl hx
  have hnone : ∀ u, ¬ (s.pc u).AddsTo v := by
    rcases hheld with hfs | hheld
    · exact ht hfs v hv hdir
    · -- On ext2 the victim is locked, so nobody else adds to it.
      intro u hu
      have hlock := hl.held t v (.inr hheld)
      have hut : u = t := Option.some.inj ((hl.held u v (.inl hu.2)).symm.trans hlock)
      exact hl.apart t v hheld (hut ▸ hu.2)
  refine .inr ⟨hnil, fun u hu => ?_⟩
  by_cases hut : u = t
  · rw [hut, setPc_self] at hu
    exact hnone t (h.addsTo hu)
  · rw [setPc_ne hut] at hu
    exact hnone u hu

lemma delEntry_nil {dir : ℕ} {name : String} (h : s.entries d = []) :
    (s.delEntry dir name).entries d = [] := by
  simp only [delEntry, update_apply]
  split
  · next hd => rw [← hd, h, List.eraseP_nil]
  · exact h

lemma EmptyInv.unlink {dir v : ℕ} {name : String} (hs : s.EmptyInv)
    (hx : (s.pc t).emptied = some v) (hadds : ∀ d, y.AddsTo d → (s.pc t).AddsTo d)
    (hy : y.emptied = none) : (((s.delEntry dir name).orphan v).setPc t y).EmptyInv := by
  have hclosed : ∀ d, s.Closed d → (((s.delEntry dir name).orphan v).setPc t y).Closed d := by
    intro d hd
    refine ⟨delEntry_nil hd.1, fun u hu => ?_⟩
    by_cases hut : u = t
    · rw [hut, setPc_self] at hu
      exact hd.2 t (hadds d hu)
    · rw [setPc_ne hut] at hu
      exact hd.2 u hu
  refine hs.mono (fun d hd => ?_) fun d _ => hclosed d
  rcases hd with hd | ⟨hdir, u, hu⟩
  · have hun : s.unlinked d = true ∨ d = v ∧ s.isDir v = true := by
      simp only [DirTree.setPc, orphan, delEntry, update_apply] at hd
      split at hd
      · next hdv =>
        rw [Bool.or_eq_true] at hd
        exact hd.imp (fun h => hdv ▸ h) fun h => ⟨hdv, h⟩
      · exact .inl hd
    rcases hun with hd | ⟨rfl, hdir⟩
    · exact .inl (.inl hd)
    · exact .inl (.inr ⟨hdir, t, hx⟩)
  · by_cases hut : u = t
    · rw [hut, setPc_self, hy] at hu
      cases hu
    · rw [setPc_ne hut] at hu
      exact .inl (.inr ⟨hdir, u, hu⟩)

lemma Closed.addEntry {dir n : ℕ} {name : String} (hd : s.Closed d) (ht : (s.pc t).AddsTo dir) :
    (s.addEntry dir name n).entries d = [] := by
  have hne : d ≠ dir := fun heq => hd.2 t (heq ▸ ht)
  simp only [DirTree.addEntry, update_of_ne hne]
  exact hd.1

lemma EmptyInv.step {a : DirAction} (hs : s.EmptyInv) (hl : s.LockInv) (ha : s.Timely a)
    (h : Step s a s') : s'.EmptyInv := by
  cases h with
  | start hi hro hx =>
    refine hs.setPc rfl rfl (fun _ => id) (fun d hd => hd.1) (fun d hd => ?_) fun v hv => ?_
    · cases hx <;> simp [DirPc.AddsTo, DirPc.HeldDir] at hd
    · cases hx <;> cases hv
  | take ht =>
    refine hs.setPc rfl rfl (fun _ => id) (fun d hd => hd.1) (fun e he => ?_) fun v hv => ?_
    · rcases ht.addsTo he with hx | rfl
      · exact .inl hx
      · exact .inr (ha _ ht he)
    · rw [ht.emptied] at hv
      cases hv
  | drop ht =>
    exact hs.setPc rfl rfl (fun _ => id) (fun d hd => hd.1) (fun e he => .inl (ht.addsTo he))
      fun v hv _ => .inl (ht.emptied hv)
  | order ht hfs | release ht | move ht =>
    refine hs.setPc rfl rfl (fun _ => id) (fun d hd => hd.1) (fun e he => .inl ?_)
      fun v hv => by cases hv
    rwa [ht]
  | read ht => exact hs.read hl ht ha
  | @make t dir name b n ht hn hb =>
    have hx : (s.pc t).AddsTo dir := by simp [ht, DirPc.AddsTo, DirPc.target, DirPc.HeldDir]
    refine hs.setPc rfl rfl (fun d hd => ?_) (fun d hd => ?_) (fun e he => .inl ?_)
      fun v hv => by cases hv
    · simp only [DirTree.make, DirTree.addEntry, DirTree.setPc, update_apply] at hd
      split at hd
      · cases hd
      · exact hd
    · have hne : d ≠ dir := fun heq => hd.2 t (heq ▸ hx)
      simp only [DirTree.make, DirTree.addEntry, DirTree.setPc, update_of_ne hne,
        update_apply]
      split
      · rfl
      · exact hd.1
    · rw [ht]
      exact ⟨he.1, by simp, he.2.2⟩
  | rmdir ht =>
    refine hs.unlink (by rw [ht]; rfl) (fun d hd => ?_) rfl
    cases hd.1
  | replace ht =>
    refine hs.unlink (by rw [ht]; rfl) (fun d hd => ?_) rfl
    rwa [ht]
  | @link t m src q r ht hq =>
    have hr : ∀ d, (DirPc.mv m r).AddsTo d → (s.pc t).AddsTo d := by
      rw [ht]
      rcases hq with ⟨-, rfl, rfl⟩ | ⟨-, rfl, rfl⟩ <;> exact fun d hd => hd
    have hx : (s.pc t).AddsTo m.ndir := by
      rw [ht]
      rcases hq with ⟨-, rfl, rfl⟩ | ⟨-, rfl, rfl⟩ <;> exact ⟨rfl, .inr rfl⟩
    refine hs.setPc rfl rfl (fun _ => id) (fun d hd => hd.addEntry hx)
      (fun d hd => .inl (hr d hd)) fun v hv => ?_
    rcases hq with ⟨-, -, rfl⟩ | ⟨-, -, rfl⟩ <;> cases hv
  | @cut t m src q r ht hq =>
    refine hs.setPc rfl rfl (fun _ => id) (fun d hd => delEntry_nil hd.1)
      (fun d hd => .inl ?_) fun v hv => ?_
    · rw [ht]
      rcases hq with ⟨-, rfl, rfl⟩ | ⟨-, rfl, rfl⟩ <;> exact hd
    · rcases hq with ⟨-, -, rfl⟩ | ⟨-, -, rfl⟩ <;> cases hv

end Entries

section Parents

open Forest

structure RenameInv (s : DirTree) (x : DirPc) : Prop where
  target : ∀ d, x.target = some d → s.used d = true
  walks : ∀ m src dst p k, x = .mv m (.walk src dst p k) → s.isDir src = true
  walked : ∀ m src dst p k, x = .mv m (.walk src dst p k) → m.odir ≠ m.ndir →
    Walked s.parent src m.ndir p
  outside : ∀ m src, x.placed = some (m, src) → s.isDir src = true → m.odir ≠ m.ndir →
    ¬ Reaches s.parent m.ndir src

structure ParentInv (s : DirTree) : Prop where
  acyclic : Acyclic s.parent
  up : ∀ a b, s.parent a = some b → s.used b = true
  rename : ∀ t, s.RenameInv (s.pc t)

lemma ParentInv.used_of_reaches (hs : s.ParentInv) {a b : ℕ} (ha : s.used a = true)
    (h : Reaches s.parent a b) : s.used b = true := by
  induction h with
  | refl => exact ha
  | tail _ hcd _ => exact hs.up _ _ hcd

lemma RenameInv.congr (hx : s.RenameInv x) (hkind : s'.isDir = s.isDir)
    (hused : ∀ d, s.used d = true → s'.used d = true)
    (hp : ∀ m src, x.moves m src → s.isDir src = true → m.odir ≠ m.ndir →
      ∀ b, Reaches s.parent m.ndir b → s'.parent b = s.parent b) : s'.RenameInv x where
  target d hd := hused d (hx.target d hd)
  walks m src dst p k h := by
    rw [hkind]
    exact hx.walks m src dst p k h
  walked m src dst p k h hne := (hx.walked m src dst p k h hne).congr
    (hp m src (.inr ⟨dst, p, k, h⟩) (hx.walks m src dst p k h) hne)
  outside m src h hdir hne hr := by
    rw [hkind] at hdir
    exact hx.outside m src h hdir hne (Reaches.congr hr (hp m src (.inl h) hdir hne))

lemma Reads.renameInv (h : s.Reads x y) (hx : s.RenameInv x) : s.RenameInv y := by
  have htarget : ∀ d, y.target = some d → s.used d = true := by
    intro d hd
    refine hx.target d ?_
    cases h <;> exact hd
  cases h with
  | @walk m src h hw =>
    refine ⟨htarget, fun m' src' dst p k heq => ?_, fun m' src' dst p k heq _ => ?_,
      fun m' src' heq => by cases heq⟩
    · cases heq
      exact hw.1
    · cases heq
      exact .start
  | @noWalk m src h hw =>
    refine ⟨htarget, fun m' src' dst p k heq => by (cases heq),
      fun m' src' dst p k heq => by (cases heq), fun m' src' heq hdir hne => ?_⟩
    cases heq
    exact absurd ⟨hdir, fun _ => hne⟩ hw
  | @up m src dst p k h hk =>
    refine ⟨htarget, fun m' src' dst' p' k' heq => ?_, fun m' src' dst' p' k' heq hne => ?_,
      fun m' src' heq => by cases heq⟩
    · cases heq
      exact hx.walks _ _ _ _ _ rfl
    · cases heq
      exact .up (hx.walked _ _ _ _ _ rfl hne) h
  | @root m src dst k =>
    refine ⟨htarget, fun m' src' dst' p' k' heq => by (cases heq),
      fun m' src' dst' p' k' heq => by (cases heq), fun m' src' heq _ hne => ?_⟩
    cases heq
    exact (hx.walked _ _ _ _ _ rfl hne).not_reaches
  | _ =>
    refine ⟨htarget, fun m' src' dst' p' k' heq => by (cases heq),
      fun m' src' dst' p' k' heq => by (cases heq), fun m' src' heq hdir hne => ?_⟩
    first
    | exact hx.outside m' src' heq hdir hne
    | cases heq

lemma ParentInv.setPc (hs : s.ParentInv) (hpc : s'.pc = update s.pc t y)
    (hparent : s'.parent = s.parent) (hkind : s'.isDir = s.isDir) (hused : s'.used = s.used)
    (hy : s.RenameInv y) : s'.ParentInv := by
  have hcongr : ∀ x, s.RenameInv x → s'.RenameInv x := fun x hx =>
    hx.congr hkind (fun d hd => by rwa [hused]) fun _ _ _ _ _ b _ => by rw [hparent]
  refine ⟨hparent ▸ hs.acyclic, fun a b h => ?_, fun u => hcongr _ ?_⟩
  · rw [hparent] at h
    rw [hused]
    exact hs.up a b h
  · by_cases hu : u = t
    · rw [hpc, hu, update_self]
      exact hy
    · rw [hpc, update_of_ne hu]
      exact hs.rename u

lemma RenameInv.of_eq (hx : s.RenameInv x) (ht : ∀ d, y.target = some d → x.target = some d)
    (hw : ∀ m src dst p k, y ≠ .mv m (.walk src dst p k))
    (hp : ∀ m src, y.placed = some (m, src) → x.placed = some (m, src)) : s.RenameInv y where
  target d hd := hx.target d (ht d hd)
  walks m src dst p k h := absurd h (hw m src dst p k)
  walked m src dst p k h := absurd h (hw m src dst p k)
  outside m src h := hx.outside m src (hp m src h)

lemma Takes.renameInv (h : s.Takes x d y) (hx : s.RenameInv x) : s.RenameInv y := by
  cases h <;> exact hx.of_eq (fun _ => id) (by simp) (by simp [DirPc.placed])

lemma Drops.renameInv (h : s.Drops x d y) (hx : s.RenameInv x) : s.RenameInv y := by
  cases h <;> exact hx.of_eq (by simp [DirPc.target]) (by simp) (by simp [DirPc.placed])

lemma Starts.renameInv (h : s.Starts y) : s.RenameInv y := by
  cases h with
  | add hu hd | mv hu hd =>
    exact ⟨by simp [DirPc.target, hu], by simp, by simp, by simp [DirPc.placed]⟩
  | rm hu hd => exact ⟨by simp [DirPc.target], by simp, by simp, by simp [DirPc.placed]⟩

lemma ParentInv.make {dir n : ℕ} {name : String} {b : Bool} (hs : s.ParentInv)
    (ht : (s.pc t).target = some dir) (hn : s.used n = false)
    (hy : ∀ d, y.target = some d → (s.pc t).target = some d)
    (hw : ∀ m src dst p k, y ≠ .mv m (.walk src dst p k)) (hp : y.placed = none) :
    ((s.make dir name b n).setPc t y).ParentInv := by
  have hdir := (hs.rename t).target dir ht
  have hfresh : ∀ {d e}, s.used d = true → Reaches s.parent d e → e ≠ n := by
    rintro d e hd he rfl
    have := hs.used_of_reaches hd he
    simp [hn] at this
  have hused : ∀ d, s.used d = true → (s.make dir name b n).used d = true := by
    intro d hd
    simp only [DirTree.make, DirTree.addEntry, update_apply]
    split
    · rfl
    · exact hd
  have hrename : ∀ x, s.RenameInv x → ((s.make dir name b n).setPc t y).RenameInv x := fun x hx => by
    refine hx.congr rfl hused fun m src hm _ _ c hc => ?_
    have hndir : s.used m.ndir = true := by
      refine hx.target _ ?_
      rcases hm with hm | ⟨dst, p, k, rfl⟩
      · exact DirPc.target_of_placed hm
      · rfl
    simp only [DirTree.setPc, DirTree.make, DirTree.addEntry]
    exact update_of_ne (hfresh hndir hc) ..
  refine ⟨?_, fun a c h => ?_, fun u => ?_⟩
  · cases b with
    | true => exact hs.acyclic.update fun hr => hfresh hdir hr rfl
    | false =>
      refine hs.acyclic.mono fun a c h => ?_
      by_cases ha : a = n
      · rw [ha, Up, DirTree.setPc, DirTree.make, DirTree.addEntry] at h
        simp at h
      · rw [Up, DirTree.setPc, DirTree.make, DirTree.addEntry] at h
        simp only [update_of_ne ha] at h
        exact h
  · refine hused c ?_
    by_cases ha : a = n
    · rw [ha] at h
      cases b with
      | true =>
        have hc : some dir = some c := by
          rw [← h]
          simp [DirTree.make, DirTree.addEntry, DirTree.setPc]
        exact Option.some.inj hc ▸ hdir
      | false => simp [DirTree.make, DirTree.addEntry, DirTree.setPc] at h
    · refine hs.up a c ?_
      rw [← h]
      simp [DirTree.make, DirTree.addEntry, DirTree.setPc, update_of_ne ha]
  · by_cases hu : u = t
    · rw [hu, setPc_self]
      have hx := hrename _ (hs.rename t)
      exact ⟨fun d hd => hx.target d (hy d hd), fun m src dst p k h => absurd h (hw m src dst p k),
        fun m src dst p k h => absurd h (hw m src dst p k), fun m src h => by simp [hp] at h⟩
    · rw [setPc_ne hu]
      exact hrename _ (hs.rename u)

lemma ParentInv.move {m : Mv} {src : ℕ} (hs : s.ParentInv) (ht : s.pc t = .mv m (.linked src))
    (hd : s.isDir src = true) (hne : m.odir ≠ m.ndir) (hl : s.LockInv) (ha : s.Timely (.move t)) :
    ({ s.setPc t (.mv m (.leaving s.ext2)) with
      parent := update s.parent src (some m.ndir) } : DirTree).ParentInv := by
  have hout := (hs.rename t).outside m src (by rw [ht]; rfl) hd hne
  -- No other rename of a directory has a place below `src` in view.
  have hothers : ∀ u, u ≠ t → ∀ m' src', (s.pc u).moves m' src' → s.isDir src' = true →
      m'.odir ≠ m'.ndir → ¬ Reaches s.parent m'.ndir src := by
    intro u hu m' src' hm hdir' hne'
    cases hfs : s.ext2 with
    | false => exact ha hfs m src (by rw [ht]; rfl) u hu m' src' hm hdir' hne'
    | true =>
      have hmine := hl.ordered t (by rw [ht]; exact hfs)
      have hord : (s.pc u).Ordered s.ext2 := by
        rcases hm with hm | ⟨dst, p, k, hm⟩
        · revert hm
          cases s.pc u with
          | mv m'' q => cases q <;> simp [DirPc.placed, DirPc.Ordered, hfs]
          | _ => simp [DirPc.placed]
        · rw [hm]
          exact hfs
      exact absurd (Option.some.inj ((hl.ordered u hord).symm.trans hmine)) hu
  refine ⟨hs.acyclic.update hout, fun a c h => ?_, fun u => ?_⟩
  · by_cases hsrc : a = src
    · have hc : some m.ndir = some c := by
        rw [← h, hsrc]
        exact (update_self src (some m.ndir) s.parent).symm
      exact Option.some.inj hc ▸ (hs.rename t).target m.ndir (by rw [ht]; rfl)
    · refine hs.up a c ?_
      rw [← h]
      exact (update_of_ne hsrc (some m.ndir) s.parent).symm
  · by_cases hu : u = t
    · simp only [hu, setPc_self]
      refine ⟨fun d hd => ?_, by simp, by simp, by simp [DirPc.placed]⟩
      exact (hs.rename t).target d (by rw [ht]; exact hd)
    · simp only [setPc_ne hu]
      refine (hs.rename u).congr rfl (fun _ => id) fun m' src' hm hdir' hne' b hb => ?_
      refine update_of_ne ?_ ..
      rintro rfl
      exact hothers u hu m' src' hm hdir' hne' hb

lemma ParentInv.step {a : DirAction} (hs : s.ParentInv) (hl : s.LockInv) (ha : s.Timely a)
    (h : Step s a s') : s'.ParentInv := by
  cases h with
  | start hi hro hx => exact hs.setPc rfl rfl rfl rfl hx.renameInv
  | take ht | drop ht | read ht => exact hs.setPc rfl rfl rfl rfl (ht.renameInv (hs.rename _))
  | @order t m src ht hfs | @release t m ht =>
    refine hs.setPc rfl rfl rfl rfl ((hs.rename t).of_eq (fun d hd => ?_) (by simp) (by simp [DirPc.placed]))
    rwa [ht]
  | make ht hn hb =>
    refine hs.make (by rw [ht]; rfl) hn (fun d hd => ?_) (by simp) rfl
    rwa [ht]
  | @rmdir t dir name v ht =>
    exact hs.setPc rfl rfl rfl rfl ((hs.rename t).of_eq (by simp [DirPc.target]) (by simp)
      (by simp [DirPc.placed]))
  | @replace t m src v ht =>
    refine hs.setPc rfl rfl rfl rfl ((hs.rename t).of_eq (fun d hd => ?_) (by simp) fun m' src' h => ?_)
    · rwa [ht]
    · rwa [ht]
  | @link t m src q r ht hq | @cut t m src q r ht hq =>
    rcases hq with ⟨-, rfl, rfl⟩ | ⟨-, rfl, rfl⟩ <;>
    · refine hs.setPc rfl rfl rfl rfl ((hs.rename t).of_eq (fun d hd => ?_) (by simp)
        fun m' src' h => ?_)
      · rwa [ht]
      · rwa [ht]
  | move ht hd hne => exact hs.move ht hd hne hl ha

end Parents

theorem reachable_treeSafe (h : (system.guarded Timely).Reachable s) : s.TreeSafe := by
  suffices s.LockInv ∧ s.EmptyInv ∧ s.ParentInv from
    ⟨this.2.2.acyclic, fun d hd => (this.2.1 d (.inl hd)).1⟩
  refine h.invariant (I := fun s => s.LockInv ∧ s.EmptyInv ∧ s.ParentInv) ?_ fun s a s' hs h => ?_
  · rintro s ⟨hac, hup, hun, hlock, hren, hpc⟩
    refine ⟨⟨fun t d hd => ?_, fun t v hv => ?_, fun t ho => ?_⟩, fun d hd => ?_,
      ⟨hac, fun a b h => (hup a b h).2, fun t => ?_⟩⟩
    · simp [hpc t, DirPc.Held, DirPc.HeldDir, DirPc.held] at hd
    · simp [hpc t, DirPc.held] at hv
    · simp [hpc t, DirPc.Ordered] at ho
    · rcases hd with hd | ⟨-, u, hu⟩
      · simp [hun d] at hd
      · simp [hpc u, DirPc.emptied] at hu
    · rw [hpc t]
      exact ⟨by simp [DirPc.target], by simp, by simp, by simp [DirPc.placed]⟩
  · obtain ⟨hl, he, hp⟩ := hs
    exact ⟨hl.step h.2, he.step hl h.1 h.2, hp.step hl h.1 h.2⟩

section Examples

lemma reachable_step {c : DirTree → DirAction → Prop} {a : DirAction}
    (h : (system.guarded c).Reachable s) (hs : Step s a s') (hc : c s a) :
    (system.guarded c).Reachable s' := .step a h ⟨hc, hs⟩

def twoDirs (b : Bool) : DirTree where
  ext2 := b
  readOnly := false
  isDir _ := true
  mounted _ := false
  used d := d < 5
  entries d := if d = 0 then [("p", 1), ("q", 2)] else if d = 1 then [("a", 3)] else
    if d = 2 then [("b", 4)] else []
  parent d := if d = 1 ∨ d = 2 then some 0 else if d = 3 then some 1 else
    if d = 4 then some 2 else none

lemma twoDirs_initial (b : Bool) : (twoDirs b).Initial := by
  refine ⟨Forest.Acyclic.of_rank (r := id) fun a p h => ?_, fun a p h => ?_, fun _ => rfl,
    fun _ => rfl, rfl, fun _ => rfl⟩
  all_goals
    simp only [twoDirs] at h ⊢
    split_ifs at h <;> simp_all <;> omega

lemma timely_rm {dir : ℕ} {name : String} {q : RmPc} (h : s.pc t = .rm dir name q) : s.Timely (.take t d) := by
  intro y hy hadds
  rw [h] at hy
  cases hy <;> exact nomatch hadds.1

lemma timely_mv {m : Mv} {q : MvPc} (h : s.pc t = .mv m q) (hd : d ≠ m.ndir) : s.Timely (.take t d) := by
  intro y hy hadds
  rw [h] at hy
  cases hy <;> exact absurd (Option.some.inj hadds.1).symm hd

lemma timely_unwatched (hd : s.unlinked d = false) (h : ∀ u, (s.pc u).emptied = none) : s.Timely (.take t d) := by
  rintro y - - (hw | ⟨-, u, hu⟩)
  · exact nomatch hd.symm.trans hw
  · exact nomatch (h u).symm.trans hu

lemma timely_read (h : s.ext2 = true) : s.Timely (.read t y) := fun hfs => nomatch h.symm.trans hfs

/-- On ext2, `rename` of `p/a` to `q/x` while `q/b` is removed. -/
def removeMove : { s : DirTree // (system.guarded Timely).Reachable s } :=
  let m : Mv := ⟨1, "a", 2, "x"⟩
  have h₀ : (system.guarded Timely).Reachable (twoDirs true) := .init (twoDirs_initial true)
  have h₁ := reachable_step h₀ (.start (t := 1) (x := .rm 2 "b" .entering) rfl rfl (.rm rfl rfl)) trivial
  have h₂ := reachable_step h₁ (.take (t := 1) (d := 2) .rm rfl) (timely_rm rfl)
  have h₃ := reachable_step h₂ (.start (t := 0) (x := .mv m .entering) rfl rfl (.mv ⟨rfl, rfl⟩ ⟨rfl, rfl⟩)) trivial
  have h₄ := reachable_step h₃ (.read (t := 1) (.victim (v := 4) rfl rfl rfl)) (timely_read rfl)
  have h₅ := reachable_step h₄ (.take (t := 0) (d := 1) (.low (by decide)) rfl) (timely_mv rfl (by decide))
  have h₆ := reachable_step h₅ (.take (t := 1) (d := 4) (.rmVictim rfl) rfl) (timely_rm rfl)
  have h₇ := reachable_step h₆ (.read (t := 1) (.rmChecked (v := 4) rfl)) (timely_read rfl)
  have h₈ := reachable_step h₇ (.drop (t := 1) .rmChecked) trivial
  have h₉ := reachable_step h₈ (.rmdir (t := 1) rfl) trivial
  have h₁₀ := reachable_step h₉ (.drop (t := 1) .rm) trivial
  have h₁₁ := reachable_step h₁₀ (.take (t := 0) (d := 2) .high rfl) (timely_unwatched rfl fun u => by
    rcases u with _ | _ | u <;> rfl)
  have h₁₂ := reachable_step (a := .read 0 (.mv m (.found 3))) h₁₁ (.read (.source rfl)) (timely_read rfl)
  have h₁₃ := reachable_step h₁₂ (.order (t := 0) rfl rfl rfl) trivial
  have h₁₄ := reachable_step h₁₃ (.read (t := 0) (.walk (fun h => nomatch show none = some 3 from h)
    ⟨rfl, fun _ => by decide⟩)) (timely_read rfl)
  have h₁₅ := reachable_step h₁₄ (.read (t := 0) (.up (by decide) (by decide))) (timely_read rfl)
  have h₁₆ := reachable_step h₁₅ (.read (t := 0) (.up (by decide) (by decide))) (timely_read rfl)
  have h₁₇ := reachable_step h₁₆ (.read (t := 0) .root) (timely_read rfl)
  have h₁₈ := reachable_step h₁₇ (.read (t := 0) .fresh) (timely_read rfl)
  have h₁₉ := reachable_step h₁₈ (.link (t := 0) rfl (.inl ⟨rfl, rfl, rfl⟩)) trivial
  have h₂₀ := reachable_step h₁₉ (.cut (t := 0) rfl (.inr ⟨rfl, rfl, rfl⟩)) trivial
  have h₂₁ := reachable_step h₂₀ (.move (t := 0) rfl rfl (by decide) fun _ => rfl) (fun hfs => nomatch hfs)
  have h₂₂ := reachable_step h₂₁ (.release (t := 0) rfl) trivial
  have h₂₃ := reachable_step h₂₂ (.drop (t := 0) (.high (by decide))) trivial
  have h₂₄ := reachable_step h₂₃ (.drop (t := 0) .low) trivial
  ⟨_, h₂₄⟩

theorem reachable_treeSafe_removeMove : removeMove.1.unlinked 4 = true ∧ removeMove.1.entries 1 = [] ∧
    removeMove.1.entries 2 = [("x", 3)] ∧ removeMove.1.parent 3 = some 2 ∧ removeMove.1.TreeSafe :=
  ⟨rfl, rfl, rfl, rfl, reachable_treeSafe removeMove.2⟩

def oneDir (b : Bool) : DirTree where
  ext2 := b
  readOnly := false
  isDir _ := true
  mounted _ := false
  used d := d = 0 || d = 1
  entries d := if d = 0 then [("d", 1)] else []
  parent d := if d = 1 then some 0 else none

lemma oneDir_initial (b : Bool) : (oneDir b).Initial := by
  refine ⟨Forest.Acyclic.of_rank (r := id) fun a p h => ?_, fun a p h => ?_, fun _ => rfl,
    fun _ => rfl, rfl, fun _ => rfl⟩
  all_goals
    simp only [oneDir] at h ⊢
    split at h <;> simp_all

lemma exists_removed_ne_nil (b : Bool) : ∃ s, system.Reachable s ∧ s.ext2 = b ∧
    s.unlinked 1 = true ∧ s.entries 1 ≠ [] := by
  have h₀ : (system.guarded fun _ _ => True).Reachable (oneDir b) := .init (oneDir_initial b)
  have h₁ := reachable_step h₀ (.start (t := 1) (x := .add 1 "x" true .entering) rfl rfl
    (.add rfl rfl)) trivial
  have h₂ := reachable_step h₁ (.start (t := 0) (x := .rm 0 "d" .entering) rfl rfl
    (.rm rfl rfl)) trivial
  have h₃ := reachable_step h₂ (.take (t := 0) (d := 0) .rm rfl) trivial
  have h₄ := reachable_step h₃ (.read (t := 0) (.victim (v := 1) rfl rfl rfl)) trivial
  cases b with
  | false =>
    have h₅ := reachable_step h₄ (.read (t := 0) (.rmEmpty (v := 1) rfl rfl)) trivial
    have h₆ := reachable_step h₅ (.rmdir (t := 0) rfl) trivial
    have h₇ := reachable_step h₆ (.take (t := 1) (d := 1) .add rfl) trivial
    have h₈ := reachable_step h₇ (.read (t := 1) (.miss rfl)) trivial
    have h₉ := reachable_step h₈ (.make (t := 1) (n := 2) rfl rfl rfl) trivial
    exact ⟨_, h₉.of_guarded, rfl, rfl, by decide⟩
  | true =>
    have h₅ := reachable_step h₄ (.take (t := 0) (d := 1) (.rmVictim rfl) rfl) trivial
    have h₆ := reachable_step h₅ (.read (t := 0) (.rmChecked (v := 1) rfl)) trivial
    have h₇ := reachable_step h₆ (.drop (t := 0) .rmChecked) trivial
    have h₈ := reachable_step h₇ (.rmdir (t := 0) rfl) trivial
    have h₉ := reachable_step h₈ (.take (t := 1) (d := 1) .add rfl) trivial
    have h₁₀ := reachable_step h₉ (.read (t := 1) (.miss rfl)) trivial
    have h := reachable_step h₁₀ (.make (t := 1) (n := 2) rfl rfl rfl) trivial
    exact ⟨_, h.of_guarded, rfl, rfl, by decide⟩

lemma exists_cycle_tmpfs : ∃ s, system.Reachable s ∧ s.ext2 = false ∧
    s.parent 3 = some 4 ∧ s.parent 4 = some 3 := by
  have h₀ : (system.guarded fun _ _ => True).Reachable (twoDirs false) := .init (twoDirs_initial false)
  let m : Mv := ⟨1, "a", 4, "x"⟩
  let m' : Mv := ⟨2, "b", 3, "y"⟩
  have h₁ := reachable_step h₀ (.start (t := 0) (x := .mv m .entering) rfl rfl
    (.mv ⟨rfl, rfl⟩ ⟨rfl, rfl⟩)) trivial
  have h₂ := reachable_step h₁ (.take (t := 0) (d := 1) (.low (by decide)) rfl) trivial
  have h₃ := reachable_step h₂ (.take (t := 0) (d := 4) .high rfl) trivial
  have h₄ := reachable_step (a := .read 0 (.mv m (.found 3))) h₃ (.read (.source rfl)) trivial
  have h₅ := reachable_step h₄ (.read (t := 0) (.order rfl)) trivial
  have h₆ := reachable_step h₅ (.read (t := 0) (.walk (fun h => absurd h.1 (by decide))
    ⟨rfl, fun _ => by decide⟩)) trivial
  have h₇ := reachable_step h₆ (.read (t := 0) (.up (by decide) (by decide))) trivial
  have h₈ := reachable_step h₇ (.read (t := 0) (.up (by decide) (by decide))) trivial
  have h₉ := reachable_step h₈ (.read (t := 0) (.up (by decide) (by decide))) trivial
  have h₁₀ := reachable_step h₉ (.read (t := 0) .root) trivial
  have h₁₁ := reachable_step h₁₀ (.start (t := 1) (x := .mv m' .entering) rfl rfl
    (.mv ⟨rfl, rfl⟩ ⟨rfl, rfl⟩)) trivial
  have h₁₂ := reachable_step h₁₁ (.take (t := 1) (d := 2) (.low (by decide)) rfl) trivial
  have h₁₃ := reachable_step h₁₂ (.take (t := 1) (d := 3) .high rfl) trivial
  have h₁₄ := reachable_step (a := .read 1 (.mv m' (.found 4))) h₁₃ (.read (.source rfl))
    trivial
  have h₁₅ := reachable_step h₁₄ (.read (t := 1) (.order rfl)) trivial
  have h₁₆ := reachable_step h₁₅ (.read (t := 1) (.walk (fun h => absurd h.1 (by decide))
    ⟨rfl, fun _ => by decide⟩)) trivial
  have h₁₇ := reachable_step h₁₆ (.read (t := 1) (.up (by decide) (by decide))) trivial
  have h₁₈ := reachable_step h₁₇ (.read (t := 1) (.up (by decide) (by decide))) trivial
  have h₁₉ := reachable_step h₁₈ (.read (t := 1) (.up (by decide) (by decide))) trivial
  have h₂₀ := reachable_step h₁₉ (.read (t := 1) .root) trivial
  have h₂₁ := reachable_step h₂₀ (.read (t := 0) .fresh) trivial
  have h₂₂ := reachable_step h₂₁ (.cut (t := 0) rfl (.inl ⟨rfl, rfl, rfl⟩)) trivial
  have h₂₃ := reachable_step h₂₂ (.link (t := 0) rfl (.inr ⟨rfl, rfl, rfl⟩)) trivial
  have h₂₄ := reachable_step h₂₃ (.move (t := 0) rfl rfl (by decide) (by decide)) trivial
  have h₂₅ := reachable_step h₂₄ (.read (t := 1) .fresh) trivial
  have h₂₆ := reachable_step h₂₅ (.cut (t := 1) rfl (.inl ⟨rfl, rfl, rfl⟩)) trivial
  have h₂₇ := reachable_step h₂₆ (.link (t := 1) rfl (.inr ⟨rfl, rfl, rfl⟩)) trivial
  have h₂₈ := reachable_step h₂₇ (.move (t := 1) rfl rfl (by decide) (by decide)) trivial
  exact ⟨_, h₂₈.of_guarded, rfl, rfl, rfl⟩

theorem not_treeSafe_races :
    (∀ b, ¬ ∀ s, system.Reachable s → s.ext2 = b → s.TreeSafe) ∧
      ∃ s, system.Reachable s ∧ s.ext2 = false ∧
        Relation.TransGen (fun a b => s.parent a = some b) 3 3 := by
  refine ⟨fun b hsafe => ?_, ?_⟩
  · obtain ⟨s, hs, hb, hd, he⟩ := exists_removed_ne_nil b
    exact he ((hsafe s hs hb).empty 1 hd)
  · obtain ⟨s, hs, hb, h₃, h₄⟩ := exists_cycle_tmpfs
    exact ⟨s, hs, hb, .tail (.single h₃) h₄⟩

end Examples

end DirTree

end MyOS.Fs
