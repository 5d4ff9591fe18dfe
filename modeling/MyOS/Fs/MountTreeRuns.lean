import MyOS.Fs.MountTree

/-! Mount points stay in the tree as long as no call takes one away. -/

namespace MyOS.Fs

open Library Forest Relation Function

namespace Volume

variable {v v' : Volume} {c : ℕ → Prop} {n k : ℕ} {a : VolumeAction}

lemma Visible.drop (h : v.Visible c n) (v' : Volume) (hr : v'.root = v.root) (hk : k ≠ v.root)
    (hn : ∀ d a n, v.Named d a n → d ≠ k → v'.Named d a n) (hno : ∀ d a, ¬ v.Named d a k) :
    v'.Visible c n := by
  have hne : ∀ n, v.Visible c n → n ≠ k := by
    rintro n hvis rfl
    rcases hvis.named with he | ⟨d, a, ha⟩
    · exact hk he
    · exact hno d a ha
  induction h with
  | root =>
    rw [← hr]
    exact .root
  | name hd hc ha ih => exact ih.name hc (hn _ _ _ ha (hne _ hd))

lemma Visible.step (h : v.Visible c n) (hv : v.WellFormed) (hd : v.isDir n = true)
    (hs : Step v a v') (hremove : ∀ d b x, a = .unlink d b x ∨ a = .rmdir d b x → n ≠ x)
    (hdrop : ∀ x, a = .drop x → ∀ d b, ¬ v.Named d b x)
    (hrename : ∀ m src dst, a = .rename m src dst → dst ≠ some n ∧
      (Reaches v.parent n src → v.Visible c m.ndir ∧ ¬ c m.ndir)) :
    v'.Visible c n ∧ v'.isDir n = true := by
  cases hs with
  | @create dir name b x hp hf hn =>
    have hne : n ≠ x := ne_of_used (h.used hv) hn
    constructor
    · apply h.mono
      · cases b <;> rfl
      · exact fun d a y ha => (named_create hv hn).2 (.inl ha)
    · have hdir : (v.create dir name b x).isDir = update v.isDir x b := by
        cases b <;> rfl
      rw [hdir, update_of_ne hne, hd]
  | @unlink dir name x _ hf hx =>
    refine ⟨?_, hd⟩
    apply h.remove (v.unlink dir name x) dir name x rfl
    · exact fun _ _ _ => named_unlink hv
    · exact fun y hy => named_unique (hv.nodup dir) (find_named hf) hy
    · intro b y hy
      rw [(hv.dir x b y hy).2] at hx
      cases hx
    · exact hremove dir name x (.inl rfl)
  | @rmdir dir name x _ hf hx he =>
    refine ⟨?_, hd⟩
    apply h.remove (v.rmdir dir name x) dir name x rfl
    · exact fun _ _ _ => named_rmdir hv
    · exact fun y hy => named_unique (hv.nodup dir) (find_named hf) hy
    · intro b y hy
      rw [Named, he] at hy
      cases hy
    · exact hremove dir name x (.inr rfl)
  | @rename src m _ hn hf hsame hw htarget =>
    obtain ⟨hdst, hplace⟩ := hrename m src _ rfl
    have hr := Replaceable.of_rename hv htarget
    refine ⟨?_, by rw [rename_isDir, hd]⟩
    by_cases hin : v.isDir src = true ∧ Reaches v.parent n src
    · obtain ⟨hvis, hfree⟩ := hplace hin.2
      exact h.rename hv hr (find_named hf) hd hvis hfree hn.isDir
        (not_inside hv (find_named hf) hw hvis hn.isDir) hdst
    · exact h.rename_outside hv hr (find_named hf) hd (fun hsd hreach => hin ⟨hsd, hreach⟩) hdst
  | reload _ => exact ⟨h.mono rfl fun _ _ _ ha => ha, hd⟩
  | @drop x hr _ =>
    refine ⟨?_, hd⟩
    apply h.drop _ (k := x)
    · rfl
    · exact hr
    · intro d b y hy hne
      simpa [Named, hne] using hy
    · exact hdrop x rfl

lemma Visible.cover_self (h : v.Visible c n) (hv : v.WellFormed) (hd : v.isDir n = true) :
    v.Visible (fun d => c d ∨ d = n) n := by
  cases h with
  | root => exact .root
  | @name d b n h hc ha =>
    have hdir := (hv.dir d b n ha).2
    have hx : ¬ Reaches v.parent d n := fun hr =>
      h.no_cycle hv hdir (TransGen.tail' hr (hv.parent d b n ha hd))
    refine (h.cover hv hdir hx).name ?_ ha
    rintro (h' | rfl)
    · exact hc h'
    · exact hx .refl

end Volume

namespace MountTree

variable {s t : MountTree} {a : MountTreeAction} {p q mp : SbInode} {i j w : ℕ} {m : MountRecord}
  {path : List String} {b : SbVolume}

structure Invariant (s : MountTree) : Prop where
  wellFormed : ∀ w, (s.vol w).WellFormed
  made : ∀ m ∈ s.mounts, s.made m.sb = true
  record : ∀ p i, s.mounted p = some i → ⟨i, some p⟩ ∈ s.mounts
  mounted : ∀ m ∈ s.mounts, ∀ p, m.mountpoint = some p → s.mounted p = some m.sb
  placed : ∀ m ∈ s.mounts, ∀ p, m.mountpoint = some p →
    (s.fs p.sb).Visible (s.Covered p.sb) p.num ∧ (s.fs p.sb).isDir p.num = true
  active : ∀ m ∈ s.mounts, ∀ p, m.mountpoint = some p → ∃ m' ∈ s.mounts, m'.sb = p.sb
  ranked : ∃ rank : ℕ → ℕ, ∀ m ∈ s.mounts, ∀ p, m.mountpoint = some p → rank p.sb < rank m.sb
  first : ∀ m ∈ s.mounts, m.mountpoint = none → m.sb = s.rootSb
  root : ⟨s.rootSb, none⟩ ∈ s.mounts
  nodup : s.mounts.Nodup

lemma Arrives.visible (h : s.Arrives path p) (hs : s.Invariant) :
    (s.fs p.sb).Visible (s.Covered p.sb) p.num ∧ ∃ m ∈ s.mounts, m.sb = p.sb := by
  induction h with
  | root => exact ⟨.root, _, hs.root, rfl⟩
  | follow _ hm _ => exact ⟨.root, _, hs.record _ _ hm, rfl⟩
  | name _ hm hf ih =>
    refine ⟨ih.1.name ?_ (Volume.find_named hf), ih.2⟩
    exact fun hc => hc hm

lemma Invariant.arrives_visible (hs : s.Invariant) (h : ∃ path, s.Arrives path (s.rootOf i))
    {n : ℕ} (hn : (s.fs i).Visible (s.Covered i) n) : ∃ path, s.Arrives path ⟨i, n⟩ := by
  induction hn with
  | root => exact h
  | @name d a n _ hc ha ih =>
    obtain ⟨path, hd⟩ := ih
    refine ⟨path ++ [a], hd.name (not_not.1 hc) ?_⟩
    exact Volume.find_of_named ((hs.wellFormed _).nodup _) ha

lemma Invariant.arrives_root (hs : s.Invariant) :
    ∀ m ∈ s.mounts, ∃ path, s.Arrives path (s.rootOf m.sb) := by
  obtain ⟨rank, hrank⟩ := hs.ranked
  have hall : ∀ k, ∀ m ∈ s.mounts, rank m.sb = k → ∃ path, s.Arrives path (s.rootOf m.sb) := by
    intro k
    induction k using Nat.strong_induction_on with
    | _ k ih =>
      intro m hm hk
      cases hp : m.mountpoint with
      | none =>
        rw [hs.first m hm hp]
        exact ⟨[], .root⟩
      | some p =>
        obtain ⟨m', hm', hsb⟩ := hs.active m hm p hp
        have hlt := hrank m hm p hp
        rw [← hsb, hk] at hlt
        have hroot := ih _ hlt m' hm' rfl
        rw [hsb] at hroot
        obtain ⟨path, ha⟩ := hs.arrives_visible hroot (hs.placed m hm p hp).1
        exact ⟨path, ha.follow (hs.mounted m hm p hp)⟩
  intro m hm
  exact hall _ m hm rfl

lemma Invariant.kept (hs : s.Invariant) : s.Kept := by
  intro m hm p hp
  obtain ⟨m', hm', hsb⟩ := hs.active m hm p hp
  have hroot := hs.arrives_root m' hm'
  rw [hsb] at hroot
  obtain ⟨path, ha⟩ := hs.arrives_visible hroot (hs.placed m hm p hp).1
  exact ⟨path, ha, hs.mounted m hm p hp, ha.follow (hs.mounted m hm p hp)⟩

lemma Invariant.call {x : VolumeAction} {v : Volume} (hs : s.Invariant)
    (hx : Volume.Step (s.fs i) x v) (hc : s.CarefulCall i x) :
    (s.setVol (s.sb i).vol v).Invariant := by
  have hdrop : ∀ n, x = .drop n → ∀ d a, ¬ (s.fs i).Named d a n := by
    rintro n rfl
    exact hc
  refine ⟨?_, hs.made, hs.record, hs.mounted, ?_, hs.active, hs.ranked, hs.first, hs.root,
    hs.nodup⟩
  · intro w
    by_cases hw : w = (s.sb i).vol
    · subst hw
      rw [setVol]
      simp only [update_self]
      exact (hs.wellFormed _).step hx hdrop
    · simp only [setVol, update_of_ne hw]
      exact hs.wellFormed w
  · intro m hm p hp
    obtain ⟨hvis, hd⟩ := hs.placed m hm p hp
    have hmounted : s.mounted p ≠ none := by
      rw [hs.mounted m hm p hp]
      simp
    by_cases hw : (s.sb p.sb).vol = (s.sb i).vol
    · have hfs : s.fs p.sb = s.fs i := by rw [fs, hw, fs]
      have hfs' : (s.setVol (s.sb i).vol v).fs p.sb = v := by
        simp only [fs, setVol, hw, update_self]
      rw [hfs'] at *
      rw [hfs] at hvis hd
      refine hvis.step (hs.wellFormed _) hd hx ?_ hdrop ?_
      · rintro d e y (rfl | rfl)
        · exact hc p hw hmounted
        · exact hc p hw hmounted
      · rintro m src dst rfl
        exact hc p hw hmounted
    · have hfs' : (s.setVol (s.sb i).vol v).fs p.sb = s.fs p.sb := by
        simp only [fs, setVol, update_of_ne hw]
      rw [hfs']
      exact ⟨hvis, hd⟩

lemma Invariant.made_of_mounted (hs : s.Invariant) (hm : m ∈ s.mounts)
    (hp : m.mountpoint = some p) : s.made p.sb = true := by
  obtain ⟨m', hm', hsb⟩ := hs.active m hm p hp
  rw [← hsb]
  exact hs.made m' hm'

lemma fs_setVol (hb : ∀ j, s.made j = true → (s.sb j).vol ≠ w) {v : Volume}
    (hj : s.made j = true) : (s.setVol w v).fs j = s.fs j := by
  simp only [fs, setVol, update_of_ne (hb j hj)]

lemma Invariant.setNew (hs : s.Invariant) (hb : ∀ j, s.made j = true → (s.sb j).vol ≠ w) :
    (s.setVol w newTmpfs).Invariant := by
  refine ⟨?_, hs.made, hs.record, hs.mounted, ?_, hs.active, hs.ranked, hs.first, hs.root,
    hs.nodup⟩
  · intro u
    by_cases hu : u = w
    · subst hu
      simp only [setVol, update_self]
      exact Volume.newTmpfs_wellFormed
    · simp only [setVol, update_of_ne hu]
      exact hs.wellFormed u
  · intro m hm p hp
    rw [fs_setVol hb (hs.made_of_mounted hm hp)]
    exact hs.placed m hm p hp

lemma Invariant.mountOn (hs : s.Invariant)
    (hvis : (s.fs mp.sb).Visible (s.Covered mp.sb) mp.num) (hact : ∃ m ∈ s.mounts, m.sb = mp.sb)
    (hfree : s.mounted mp = none) (hdir : (s.fs mp.sb).isDir mp.num = true)
    (hi : s.made i = false) (hcov : ∀ p, s.mounted p ≠ none → p.sb = mp.sb →
      ¬ Reaches (s.fs p.sb).parent p.num mp.num) : (s.mountOn mp i b).Invariant := by
  have hne : ∀ j, s.made j = true → j ≠ i := by
    rintro j hj rfl
    rw [hi] at hj
    cases hj
  have hfs : ∀ j, s.made j = true → (s.mountOn mp i b).fs j = s.fs j := by
    intro j hj
    simp only [fs, MountTree.mountOn, update_of_ne (hne j hj)]
  have hold : ∀ m ∈ s.mounts, ∀ p, m.mountpoint = some p → p ≠ mp := by
    rintro m hm p hp rfl
    rw [hs.mounted m hm p hp] at hfree
    cases hfree
  have hcover : ∀ j d, (s.mountOn mp i b).Covered j d → s.Covered j d ∨ (⟨j, d⟩ : SbInode) = mp := by
    intro j d hc
    by_cases hd : (⟨j, d⟩ : SbInode) = mp
    · exact .inr hd
    · left
      simpa [Covered, MountTree.mountOn, hd] using hc
  have hmp : s.made mp.sb = true := by
    obtain ⟨m, hm, hsb⟩ := hact
    rw [← hsb]
    exact hs.made m hm
  have hmem : ∀ m, m ∈ (s.mountOn mp i b).mounts → m ∈ s.mounts ∨ m = ⟨i, some mp⟩ := by
    intro m hm
    simpa [MountTree.mountOn] using hm
  have hkeep : ∀ m ∈ s.mounts, m ∈ (s.mountOn mp i b).mounts :=
    fun m hm => List.mem_append_left _ hm
  refine ⟨hs.wellFormed, ?_, ?_, ?_, ?_, ?_, ?_, ?_, hkeep _ hs.root, ?_⟩
  · intro m hm
    rcases hmem m hm with hm | rfl
    · simp only [MountTree.mountOn, update_of_ne (hne _ (hs.made m hm))]
      exact hs.made m hm
    · exact update_self ..
  · intro p j hp
    by_cases hpm : p = mp
    · subst hpm
      simp only [MountTree.mountOn, update_self, Option.some.injEq] at hp
      subst hp
      exact List.mem_append_right _ (List.mem_singleton_self _)
    · simp only [MountTree.mountOn, update_of_ne hpm] at hp
      exact hkeep _ (hs.record p j hp)
  · intro m hm p hp
    rcases hmem m hm with hm | rfl
    · simp only [MountTree.mountOn, update_of_ne (hold m hm p hp)]
      exact hs.mounted m hm p hp
    · cases hp
      exact update_self ..
  · intro m hm p hp
    rcases hmem m hm with hm | rfl
    · rw [hfs _ (hs.made_of_mounted hm hp)]
      obtain ⟨hv, hd⟩ := hs.placed m hm p hp
      refine ⟨?_, hd⟩
      by_cases hsb : p.sb = mp.sb
      · have hmounted : s.mounted p ≠ none := by
          rw [hs.mounted m hm p hp]
          simp
        apply (hv.cover (hs.wellFormed _) hd (hcov p hmounted hsb)).weaken
        intro d hc
        rcases hcover _ d hc with hc | hc
        · exact .inl hc
        · exact .inr (congrArg SbInode.num hc)
      · apply hv.weaken
        intro d hc
        rcases hcover _ d hc with hc | hc
        · exact hc
        · exact absurd (congrArg SbInode.sb hc) hsb
    · cases hp
      rw [hfs _ hmp]
      refine ⟨?_, hdir⟩
      apply (hvis.cover_self (hs.wellFormed _) hdir).weaken
      intro d hc
      rcases hcover _ d hc with hc | hc
      · exact .inl hc
      · exact .inr (congrArg SbInode.num hc)
  · intro m hm p hp
    rcases hmem m hm with hm | rfl
    · obtain ⟨m', hm', hsb⟩ := hs.active m hm p hp
      exact ⟨m', hkeep m' hm', hsb⟩
    · cases hp
      obtain ⟨m', hm', hsb⟩ := hact
      exact ⟨m', hkeep m' hm', hsb⟩
  · obtain ⟨rank, hrank⟩ := hs.ranked
    refine ⟨update rank i (rank mp.sb + 1), ?_⟩
    intro m hm p hp
    rcases hmem m hm with hm | rfl
    · rw [update_of_ne (hne _ (hs.made_of_mounted hm hp)),
        update_of_ne (hne _ (hs.made m hm))]
      exact hrank m hm p hp
    · cases hp
      rw [update_of_ne (hne _ hmp), update_self]
      exact Nat.lt_succ_self _
  · intro m hm hp
    rcases hmem m hm with hm | rfl
    · exact hs.first m hm hp
    · cases hp
  · apply hs.nodup.append (List.nodup_singleton _)
    intro m hm hm'
    obtain rfl := List.mem_singleton.1 hm'
    exact hne _ (hs.made _ hm) rfl

lemma Invariant.umount (hs : s.Invariant) (hm : m ∈ s.mounts) (hp : m.mountpoint = some p)
    (hc : ∀ p, s.mounted p ≠ none → p.sb ≠ m.sb) :
    Invariant { s with
      mounted := update s.mounted p none
      mounts := s.mounts.erase m } := by
  have hmem : ∀ m' ∈ s.mounts.erase m, m' ∈ s.mounts := fun m' hm' => List.mem_of_mem_erase hm'
  have hother : ∀ m' ∈ s.mounts.erase m, ∀ q, m'.mountpoint = some q → q ≠ p := by
    rintro m' hm' q hq rfl
    have hsb := hs.mounted m' (hmem m' hm') q hq
    rw [hs.mounted m hm q hp] at hsb
    have heq : m' = m := by
      cases m'
      cases m
      simp_all
    exact hs.nodup.not_mem_erase (heq ▸ hm')
  refine ⟨hs.wellFormed, fun m' hm' => hs.made m' (hmem m' hm'), ?_, ?_, ?_, ?_, ?_, ?_, ?_,
    hs.nodup.erase m⟩
  · intro q j hq
    by_cases hqp : q = p
    · simp [hqp] at hq
    · simp only [update_of_ne hqp] at hq
      refine (List.mem_erase_of_ne ?_).2 (hs.record q j hq)
      rintro rfl
      exact hqp (Option.some.inj hp)
  · intro m' hm' q hq
    simp only [update_of_ne (hother m' hm' q hq)]
    exact hs.mounted m' (hmem m' hm') q hq
  · intro m' hm' q hq
    obtain ⟨hv, hd⟩ := hs.placed m' (hmem m' hm') q hq
    refine ⟨hv.weaken ?_, hd⟩
    intro d hcov hnone
    apply hcov
    by_cases hqp : (⟨q.sb, d⟩ : SbInode) = p
    · simp [hqp]
    · simp [hqp, hnone]
  · intro m' hm' q hq
    obtain ⟨m'', hm'', hsb⟩ := hs.active m' (hmem m' hm') q hq
    refine ⟨m'', (List.mem_erase_of_ne ?_).2 hm'', hsb⟩
    rintro rfl
    refine hc q ?_ hsb.symm
    rw [hs.mounted m' (hmem m' hm') q hq]
    simp
  · obtain ⟨rank, hrank⟩ := hs.ranked
    exact ⟨rank, fun m' hm' => hrank m' (hmem m' hm')⟩
  · exact fun m' hm' => hs.first m' (hmem m' hm')
  · refine (List.mem_erase_of_ne ?_).2 hs.root
    intro he
    rw [← he] at hp
    cases hp

lemma Invariant.step (hs : s.Invariant) (hc : s.Careful a) (h : Step s a t) : t.Invariant := by
  cases h with
  | call _ _ hx _ => exact hs.call hx hc
  | @mountTmpfs _ mp _ _ ht hi hb =>
    obtain ⟨hvis, hact⟩ := ht.arrives.visible hs
    have hmade : s.made mp.sb = true := by
      obtain ⟨m, hm, hsb⟩ := hact
      rw [← hsb]
      exact hs.made m hm
    have hfs := fs_setVol (v := newTmpfs) hb hmade
    refine (hs.setNew hb).mountOn ?_ hact ht.free ?_ hi ?_
    · rw [hfs]
      exact hvis
    · rw [hfs]
      exact ht.isDir
    · intro p hp hsb
      rw [hsb, hfs, ← hsb]
      exact hc mp p ht hp hsb
  | mountExt2 ht hi _ =>
    obtain ⟨hvis, hact⟩ := ht.arrives.visible hs
    exact hs.mountOn hvis hact ht.free ht.isDir hi fun p hp hsb => hc _ p ht hp hsb
  | umount hm hp _ _ => exact hs.umount hm hp hc
  | fails => exact hs

lemma invariant_run (h : (system.guarded Careful).Reachable s) : s.Invariant := by
  apply h.invariant
  · rintro s ⟨hwf, hmounted, hmounts, hmade⟩
    have hmem : ∀ m ∈ s.mounts, m = ⟨s.rootSb, none⟩ := by
      intro m hm
      rw [hmounts] at hm
      exact List.mem_singleton.1 hm
    refine ⟨hwf, ?_, ?_, ?_, ?_, ?_, ⟨fun _ => 0, ?_⟩, ?_, ?_, ?_⟩
    · intro m hm
      rw [hmem m hm]
      exact (hmade _).2 rfl
    · intro p i hp
      rw [hmounted] at hp
      cases hp
    · intro m hm p hp
      rw [hmem m hm] at hp
      cases hp
    · intro m hm p hp
      rw [hmem m hm] at hp
      cases hp
    · intro m hm p hp
      rw [hmem m hm] at hp
      cases hp
    · intro m hm p hp
      rw [hmem m hm] at hp
      cases hp
    · intro m hm _
      rw [hmem m hm]
    · rw [hmounts]
      exact List.mem_singleton_self _
    · rw [hmounts]
      exact List.nodup_singleton _
  · intro s a t hs h
    exact hs.step h.1 h.2

theorem careful_kept (s : MountTree) (h : (system.guarded Careful).Reachable s) : s.Kept :=
  (invariant_run h).kept

section Replaced

lemma careful_next (a : MountTreeAction) (h : (system.guarded Careful).Reachable s)
    (hc : s.Careful a) (hs : Step s a t) : (system.guarded Careful).Reachable t :=
  .step a h ⟨hc, hs⟩

def onlyRoot : MountTree where
  vol _ := newTmpfs
  sb i := ⟨i, false⟩
  made i := i == 0
  mounted _ := none
  mounts := [⟨0, none⟩]
  rootSb := 0

def withA : Volume := newTmpfs.create 0 "a" true 1

def withAB : Volume := withA.create 0 "b" true 2

def madeDirs : MountTree := { onlyRoot with vol := update onlyRoot.vol 0 withAB }

def mountedB : MountTree := madeDirs.mountOn ⟨0, 2⟩ 1 ⟨1, false⟩

def renamedA : Volume := withAB.rename ⟨0, "a", 0, "b"⟩ 1 (some 2)

def replacedB : MountTree := mountedB.setVol 0 renamedA

lemma madeDirs_reachable : (system.guarded Careful).Reachable madeDirs := by
  have h₀ : (system.guarded Careful).Reachable onlyRoot := by
    refine .init ⟨fun _ => Volume.newTmpfs_wellFormed, fun _ => rfl, rfl, ?_⟩
    simp [onlyRoot]
  have h₁ := careful_next (.call 0 (.create 0 "a" true 1)) h₀ trivial
    (.call (v := withA) rfl rfl (.create ⟨rfl, rfl, by decide⟩ (by decide) rfl)
      fun _ hx => by cases hx)
  have h₂ := careful_next (.call 0 (.create 0 "b" true 2)) h₁ trivial
    (.call (v := withAB) rfl rfl (.create (v := withA) ⟨rfl, rfl, by decide⟩ (by decide) rfl)
      fun _ hx => by cases hx)
  have heq : ((onlyRoot.setVol 0 withA).setVol 0 withAB) = madeDirs := by
    simp [setVol, madeDirs]
  exact heq ▸ h₂

lemma mountedB_reachable : (system.guarded Careful).Reachable mountedB := by
  have harrives : madeDirs.Arrives ["b"] ⟨0, 2⟩ :=
    (show madeDirs.Arrives [] ⟨0, 0⟩ from .root).name rfl (by decide)
  have hvol : madeDirs.setVol 1 newTmpfs = madeDirs := by
    have hv : madeDirs.vol 1 = newTmpfs := by simp [madeDirs, onlyRoot]
    rw [setVol, ← hv, update_eq_self]
  have hs : Step madeDirs (.mount ["b"] 1 ⟨1, false⟩) mountedB := by
    have hm := Step.mountTmpfs (s := madeDirs) (i := 1) (b := ⟨1, false⟩)
      ⟨harrives, rfl, by decide, by decide⟩ rfl (by
        intro j hj
        have hj₀ : j = 0 := by simpa [madeDirs, onlyRoot] using hj
        rw [hj₀]
        decide)
    rw [hvol] at hm
    exact hm
  refine careful_next _ madeDirs_reachable ?_ hs
  intro mp p _ hp
  exact absurd rfl hp

theorem careful_kept_mountedB : mountedB.Kept := careful_kept mountedB mountedB_reachable

lemma renamedA_names (d : ℕ) (a : String) : ¬ renamedA.Named d a 2 := by
  by_cases hd : d = 0
  · subst hd
    rw [Volume.Named, show renamedA.entries 0 = [("b", 1)] by decide]
    simp
  · have he : renamedA.entries d = [] := by
      simp [renamedA, Volume.rename, Volume.move_entries, Volume.replace, Volume.rmdir,
        Volume.addEntry, Volume.delEntry, Volume.decLink, Volume.setLink, withAB, withA,
        Volume.create, Volume.newInode, Volume.incLink, newTmpfs, hd, update_apply]
    rw [Volume.Named, he]
    simp

lemma not_arrives_replacedB (h : replacedB.Arrives path p) : p ≠ ⟨0, 2⟩ := by
  intro hp
  cases h with
  | root => cases hp
  | @follow _ _ i _ _ =>
    have hroot : (replacedB.fs i).root = 2 := congrArg SbInode.num hp
    have hvol : ∀ w, (replacedB.vol w).root = 0 := by
      intro w
      by_cases hw : w = 0
      · subst hw
        rfl
      · simp [replacedB, setVol, mountedB, MountTree.mountOn, madeDirs, onlyRoot, newTmpfs, hw]
    rw [fs, hvol] at hroot
    cases hroot
  | @name _ d a n _ _ hf =>
    obtain ⟨hsb, hn⟩ := SbInode.mk.inj hp
    subst hn
    rw [hsb] at hf
    exact renamedA_names _ a (Volume.find_named hf)

theorem not_kept_replacedB : ¬ ∀ s : MountTree, system.Reachable s → s.Kept := by
  intro h
  have hr : system.Reachable replacedB := by
    refine .step (.call 0 (.rename ⟨0, "a", 0, "b"⟩ 1 (some 2))) mountedB_reachable.of_guarded ?_
    refine .call (v := renamedA) rfl rfl ?_ fun _ hx => by cases hx
    have hw : Forest.Walked withAB.parent 1 0 none := .up .start (by decide)
    refine Volume.Step.rename (v := withAB) (m := ⟨0, "a", 0, "b"⟩) ⟨rfl, rfl, by decide⟩
      ⟨rfl, rfl, by decide⟩ (by decide) ?_ (fun _ => hw) ?_
    · rintro ⟨-, hn⟩
      exact absurd hn (by decide)
    · intro x hx
      obtain rfl : 2 = x := Option.some.inj hx
      decide
  obtain ⟨path, ha, -⟩ := h replacedB hr ⟨1, some ⟨0, 2⟩⟩ (by decide) ⟨0, 2⟩ rfl
  exact not_arrives_replacedB ha rfl

end Replaced

end MountTree

end MyOS.Fs
