import MyOS.Fs.VolumeTree

/-! The directories of a volume form a tree and the link counts are right, as long as nothing is put
into a directory that was removed. -/

namespace MyOS.Fs

open Library Forest Relation Function

namespace Volume

def Reach (v : Volume) : ℕ → Prop := v.Visible fun _ => False

def Linked (v : Volume) (n : ℕ) : Prop := n = v.root ∨ ∃ d a, v.Named d a n

def Subdir (v : Volume) (d n : ℕ) : Prop := v.isDir n = true ∧ ∃ a, v.Named d a n

def NameOf (v : Volume) (n : ℕ) (e : ℕ × String) : Prop := v.Named e.1 e.2 n

structure Tree (v : Volume) : Prop extends WellFormed v where
  reach : ∀ d a n, v.Named d a n → v.Reach d ∧ v.Reach n
  dirs : ∀ n, v.Linked n → v.isDir n = true → ∃ k, v.nlink n = 2 + k ∧ Numbered (v.Subdir n) k
  files : ∀ n, v.used n = true → v.isDir n = false → Numbered (v.NameOf n) (v.nlink n)

def maxLinks (v : Volume) : ℕ := if v.ext2 then 2 ^ 16 else 2 ^ 32

structure Consistent (v : Volume) : Prop extends Tree v where
  small : ∀ n, v.used n = true → (v.isDir n = true → v.Linked n) → v.nlink n < v.maxLinks
  removed : ∀ n, v.used n = true → v.isDir n = true → v.nlink n ≠ 0 → v.Linked n

def HasRoom (v : Volume) (d : ℕ) : Prop := v.nlink d + 1 < v.maxLinks

/-- Nothing is put into a directory that was removed, and no directory gets more subdirectories
than its link count can count. -/
def Careful (v : Volume) : VolumeAction → Prop
  | .create dir _ b _ => v.nlink dir ≠ 0 ∧ (b = true → v.HasRoom dir)
  | .rename m src dst => v.nlink m.ndir ≠ 0 ∧
      (v.isDir src = true → m.odir ≠ m.ndir → dst = none → v.HasRoom m.ndir)
  | _ => True

def system : System Volume VolumeAction where
  init := Consistent
  step := Step

variable {v v' : Volume} {d e dir n x k src : ℕ} {a b name : String} {m : Mv} {dst : Option ℕ}

/-- What consistency asks of one inode. -/
structure Right (v : Volume) (n : ℕ) : Prop where
  dir : v.Linked n → v.isDir n = true → ∃ k, v.nlink n = 2 + k ∧ Numbered (v.Subdir n) k
  file : v.used n = true → v.isDir n = false → Numbered (v.NameOf n) (v.nlink n)
  small : v.used n = true → (v.isDir n = true → v.Linked n) → v.nlink n < v.maxLinks
  removed : v.used n = true → v.isDir n = true → v.nlink n ≠ 0 → v.Linked n

structure Kept (v v' : Volume) (n : ℕ) : Prop where
  used : v'.used n = v.used n
  isDir : v'.isDir n = v.isDir n
  root : v'.root = v.root
  ext2 : v'.ext2 = v.ext2

lemma Consistent.right (h : v.Consistent) (n : ℕ) : v.Right n :=
  ⟨h.dirs n, h.files n, h.small n, h.removed n⟩

lemma Consistent.of_right (h : v.WellFormed) (hhome : ∀ d a n, v.Named d a n → v.Reach d)
    (hright : ∀ n, v.Right n) : v.Consistent :=
  ⟨⟨h, fun d a n ha => ⟨hhome d a n ha, (hhome d a n ha).name id ha⟩, fun n => (hright n).dir,
    fun n => (hright n).file⟩, fun n => (hright n).small, fun n => (hright n).removed⟩

lemma Kept.maxLinks (h : v.Kept v' n) : v'.maxLinks = v.maxLinks := by
  unfold Volume.maxLinks
  rw [h.ext2]

lemma Kept.linked (h : v.Kept v' n) (hn : ∀ e a, v'.Named e a n ↔ v.Named e a n) :
    v'.Linked n ↔ v.Linked n := by
  simp only [Linked, h.root, hn]

lemma Right.congr (h : v.Right n) (hk : v.Kept v' n) (hlink : v'.nlink n = v.nlink n)
    (hname : ∀ e a, v'.Named e a n ↔ v.Named e a n)
    (hsub : ∀ y, v'.Subdir n y ↔ v.Subdir n y) : v'.Right n := by
  refine ⟨?_, ?_, ?_, ?_⟩
  · rw [hk.linked hname, hk.isDir, hlink]
    intro hl hd
    obtain ⟨k, hk, hnum⟩ := h.dir hl hd
    exact ⟨k, hk, hnum.congr hsub⟩
  · rw [hk.used, hk.isDir, hlink]
    exact fun hu hd => (h.file hu hd).congr fun e => hname e.1 e.2
  · rw [hk.used, hk.isDir, hlink, hk.maxLinks, hk.linked hname]
    exact h.small
  · rw [hk.used, hk.isDir, hlink, hk.linked hname]
    exact h.removed

lemma Right.of_dir (hl : v.Linked n) (hd : v.isDir n = true) (hlink : v.nlink n = 2 + k)
    (hnum : Numbered (v.Subdir n) k) (hs : v.nlink n < v.maxLinks) : v.Right n := by
  refine ⟨fun _ _ => ⟨k, hlink, hnum⟩, fun _ hf => ?_, fun _ _ => hs, fun _ _ _ => hl⟩
  rw [hd] at hf
  cases hf

lemma Right.of_file (hd : v.isDir n = false) (hnum : Numbered (v.NameOf n) (v.nlink n))
    (hs : v.nlink n < v.maxLinks) : v.Right n := by
  refine ⟨fun _ hn => ?_, fun _ _ => hnum, fun _ _ => hs, fun _ hn => ?_⟩ <;>
    rw [hd] at hn <;> cases hn

lemma Right.of_removed (hl : ¬ v.Linked n) (hd : v.isDir n = true) (h0 : v.nlink n = 0) :
    v.Right n := by
  refine ⟨fun hn => absurd hn hl, fun _ hf => ?_, fun _ hn => absurd (hn hd) hl,
    fun _ _ hn => absurd h0 hn⟩
  rw [hd] at hf
  cases hf

lemma Linked.reach (h : v.Linked n) (hv : v.Tree) : v.Reach n := by
  rcases h with rfl | ⟨d, a, ha⟩
  · exact .root
  · exact (hv.reach d a n ha).2

lemma Linked.used (h : v.Linked n) (hv : v.WellFormed) : v.used n = true := by
  rcases h with rfl | ⟨d, a, ha⟩
  · exact hv.root.1
  · exact hv.used d a n ha

lemma Visible.linked {c : ℕ → Prop} (h : v.Visible c n) : v.Linked n := h.named

lemma name_unique (hv : v.WellFormed) (ha : v.Named d a n) (hb : v.Named e b n)
    (hn : v.isDir n = true) : e = d ∧ b = a := by
  have hp := hv.parent d a n ha hn
  rw [hv.parent e b n hb hn] at hp
  obtain rfl := Option.some.inj hp
  exact ⟨rfl, hv.once e b a n hb ha hn⟩

lemma not_root_of_named (hv : v.WellFormed) (ha : v.Named d a n) (hn : v.isDir n = true) :
    n ≠ v.root := by
  rintro rfl
  have hp := hv.parent _ _ _ ha hn
  rw [hv.top] at hp
  cases hp

lemma incLink_nlink (v : Volume) (dir : ℕ) (hk : v.nlink dir + 1 < 2 ^ 32) :
    (v.incLink dir).nlink = update v.nlink dir (v.nlink dir + 1) := by
  simp only [incLink, setLink]
  rw [Nat.mod_eq_of_lt hk]

lemma decLink_nlink (v : Volume) (dir : ℕ) (h0 : 0 < v.nlink dir)
    (hk : v.nlink dir < 2 ^ 32) :
    (v.decLink dir).nlink = update v.nlink dir (v.nlink dir - 1) := by
  simp only [decLink, setLink]
  have hmod : (v.nlink dir + 2 ^ 32 - 1) % 2 ^ 32 = v.nlink dir - 1 := by omega
  rw [hmod]

lemma maxLinks_le : v.maxLinks ≤ 2 ^ 32 := by
  unfold maxLinks
  split_ifs <;> decide

section Remove

lemma Tree.home_remove (h : v.Tree) (v' : Volume) (hr : v'.root = v.root)
    (hn : ∀ d a n, v'.Named d a n ↔ v.Named d a n ∧ ¬ (d = dir ∧ a = name))
    (hx : v.Named dir name x) (he : ∀ a n, ¬ v.Named x a n) :
    ∀ d a n, v'.Named d a n → v'.Reach d := by
  intro d a n ha
  have hold := ((hn d a n).1 ha).1
  apply (h.reach d a n hold).1.remove v' dir name x hr hn
  · exact fun y hy => named_unique (h.nodup dir) hx hy
  · exact he
  · rintro rfl
    exact he a n hold

lemma file_empty (h : v.WellFormed) (hx : v.isDir x = false) (a : String) (n : ℕ) :
    ¬ v.Named x a n := by
  intro ha
  rw [(h.dir x a n ha).2] at hx
  cases hx

lemma named_other (h : v.WellFormed) (hx : v.Named dir name x)
    (hn : ∀ e a y, v'.Named e a y ↔ v.Named e a y ∧ ¬ (e = dir ∧ a = name)) {y : ℕ} (hy : y ≠ x) :
    v'.Named e a y ↔ v.Named e a y := by
  rw [hn]
  refine ⟨And.left, fun ha => ⟨ha, ?_⟩⟩
  rintro ⟨rfl, rfl⟩
  exact hy (named_unique (h.nodup _) hx ha)

lemma WellFormed.delEntry (h : v.WellFormed)
    (he : v'.entries = (v.delEntry dir name).entries) (hp : v'.parent = v.parent)
    (hd : v'.isDir = v.isDir) (hr : v'.root = v.root) (hu : v'.used = v.used) :
    v'.WellFormed := by
  refine h.sub ?_ ?_ hp hd hr ?_
  · rw [he]
    exact fun _ => nodup_delEntry h.nodup
  · intro d a n ha
    rw [Named, he] at ha
    exact ((named_delEntry (h.nodup dir)).1 ha).1
  · intro n hn hnot
    rw [hu, hn] at hnot
    cases hnot

lemma Consistent.unlink (h : v.Consistent) (hf : v.Named dir name x) (hx : v.isDir x = false) :
    (v.unlink dir name x).Consistent := by
  have hnamed : ∀ e a y, (v.unlink dir name x).Named e a y ↔
      v.Named e a y ∧ ¬ (e = dir ∧ a = name) := fun e a y => named_unlink h.toWellFormed
  have hfile := h.files x (h.used dir name x hf) hx
  have hsmall := h.small x (h.used dir name x hf) fun hd => absurd hd (by simp [hx])
  have hlink : (v.unlink dir name x).nlink = update v.nlink x (v.nlink x - 1) :=
    decLink_nlink (v.delEntry dir name) x (hfile.pos (a := (dir, name)) hf)
      (hsmall.trans_le maxLinks_le)
  refine Consistent.of_right (h.toWellFormed.delEntry rfl rfl rfl rfl rfl)
    (h.home_remove _ rfl hnamed hf (file_empty h.toWellFormed hx)) ?_
  intro n
  by_cases hn : n = x
  · subst hn
    apply Right.of_file (v := v.unlink dir name n) hx
    · rw [hlink, update_self]
      apply hfile.remove (a := (dir, name)) hf
      rintro ⟨e, a⟩
      simp only [NameOf, hnamed, ne_eq, Prod.mk.injEq]
    · rw [hlink, update_self]
      exact (Nat.sub_le _ _).trans_lt hsmall
  · have hkept : v.Kept (v.unlink dir name x) n := ⟨rfl, rfl, rfl, rfl⟩
    apply (h.right n).congr hkept
    · rw [hlink, update_of_ne hn]
    · exact fun _ _ => named_other h.toWellFormed hf hnamed hn
    · intro y
      apply and_congr_right
      intro hy
      have hyx : y ≠ x := by
        rintro rfl
        rw [show v.isDir y = true from hy] at hx
        cases hx
      simp only [named_other h.toWellFormed hf hnamed hyx]

lemma rmdir_nlink (name : String) (hne : dir ≠ x) (h0 : 0 < v.nlink dir) (hk : v.nlink dir < 2 ^ 32) :
    (v.rmdir dir name x).nlink =
      update (update v.nlink x 0) dir (v.nlink dir - 1) := by
  have hd : ((v.delEntry dir name).setLink x 0).nlink dir = v.nlink dir :=
    update_of_ne hne _ _
  have hdec := decLink_nlink ((v.delEntry dir name).setLink x 0) dir (hd ▸ h0) (hd ▸ hk)
  rw [hd] at hdec
  exact hdec

lemma Consistent.rmdir (h : v.Consistent) (hf : v.Named dir name x) (hx : v.isDir x = true)
    (he : v.entries x = []) : (v.rmdir dir name x).Consistent := by
  have hempty : ∀ a n, ¬ v.Named x a n := by
    intro a n ha
    rw [Named, he] at ha
    cases ha
  have hne : dir ≠ x := by
    rintro rfl
    exact hempty name dir hf
  have hnamed : ∀ e a y, (v.rmdir dir name x).Named e a y ↔
      v.Named e a y ∧ ¬ (e = dir ∧ a = name) := fun e a y => named_rmdir h.toWellFormed
  have hsubx : v.Subdir dir x := ⟨hx, name, hf⟩
  obtain ⟨hdu, hdd⟩ := h.dir dir name x hf
  have hdl : v.Linked dir := (h.reach dir name x hf).1.linked
  obtain ⟨j, hj, hnum⟩ := h.dirs dir hdl hdd
  have hjpos := hnum.pos hsubx
  have hsmall := h.small dir hdu fun _ => hdl
  have hlink : (v.rmdir dir name x).nlink =
      update (update v.nlink x 0) dir (v.nlink dir - 1) :=
    rmdir_nlink name hne (by omega) (hsmall.trans_le maxLinks_le)
  have hgone : ∀ d a, ¬ (v.rmdir dir name x).Named d a x := by
    intro d a ha
    obtain ⟨hold, hn⟩ := (hnamed d a x).1 ha
    exact hn (name_unique h.toWellFormed hf hold hx)
  have hsub : ∀ n y, (v.rmdir dir name x).Subdir n y ↔ v.Subdir n y ∧ y ≠ x := by
    intro n y
    by_cases hy : y = x
    · subst hy
      simp only [Subdir, hgone, exists_false, and_false, ne_eq, not_true_eq_false]
    · simp only [Subdir, named_other h.toWellFormed hf hnamed hy, hy, ne_eq, not_false_eq_true,
        and_true]
      rfl
  refine Consistent.of_right (h.toWellFormed.delEntry rfl rfl rfl rfl rfl)
    (h.home_remove _ rfl hnamed hf hempty) ?_
  intro n
  by_cases hnx : n = x
  · subst hnx
    apply Right.of_removed (v := v.rmdir dir name n) _ hx
    · rw [hlink, update_of_ne (Ne.symm hne), update_self]
    · rintro (hr | ⟨d, a, ha⟩)
      · exact not_root_of_named h.toWellFormed hf hx hr
      · exact hgone d a ha
  · have hname : ∀ e a, (v.rmdir dir name x).Named e a n ↔ v.Named e a n :=
      fun _ _ => named_other h.toWellFormed hf hnamed hnx
    have hkept : v.Kept (v.rmdir dir name x) n := ⟨rfl, rfl, rfl, rfl⟩
    by_cases hnd : n = dir
    · subst hnd
      have hlinkd : (v.rmdir n name x).nlink n = v.nlink n - 1 := by
        rw [hlink, update_self]
      apply Right.of_dir ((hkept.linked hname).2 hdl) hdd _ (hnum.remove hsubx (hsub n))
      · rw [hlinkd]
        exact (Nat.sub_le _ _).trans_lt hsmall
      · omega
    · apply (h.right n).congr hkept _ hname
      · intro y
        rw [hsub]
        refine ⟨And.left, fun hy => ⟨hy, ?_⟩⟩
        rintro rfl
        obtain ⟨a, ha⟩ := hy.2
        exact hnd (name_unique h.toWellFormed hf ha hx).1
      · rw [hlink, update_of_ne hnd, update_of_ne hnx]

end Remove

section Add

lemma create_fields (v : Volume) (dir : ℕ) (name : String) (b : Bool) (n : ℕ) :
    (v.create dir name b n).isDir = update v.isDir n b ∧
    (v.create dir name b n).used = update v.used n true ∧
    (v.create dir name b n).root = v.root ∧ (v.create dir name b n).ext2 = v.ext2 := by
  cases b <;> exact ⟨rfl, rfl, rfl, rfl⟩

lemma create_nlink {b : Bool} (hne : dir ≠ n) (hk : b = true → v.nlink dir + 1 < 2 ^ 32) :
    (v.create dir name b n).nlink = update (update v.nlink n (if b then 2 else 1)) dir
      (if b then v.nlink dir + 1 else v.nlink dir) := by
  have hd : ((v.newInode dir b n).addEntry dir name n).nlink dir = v.nlink dir :=
    update_of_ne hne _ _
  cases b with
  | true =>
    have hinc := incLink_nlink ((v.newInode dir true n).addEntry dir name n) dir
      (by rw [hd]; exact hk rfl)
    rw [hd] at hinc
    exact hinc
  | false =>
    funext y
    by_cases hy : y = dir
    · subst hy
      rw [update_self]
      exact hd
    · rw [update_of_ne hy]
      rfl

lemma create_other {b : Bool} (h : v.WellFormed) (hn : v.used n = false) {y : ℕ} (hy : y ≠ n) :
    (v.create dir name b n).Named e a y ↔ v.Named e a y := by
  rw [named_create h hn]
  exact ⟨fun ha => ha.resolve_right fun hc => hy hc.2.2, .inl⟩

lemma not_named_new (h : v.WellFormed) (hn : v.used n = false) : ¬ v.Named e a n :=
  fun ha => ne_of_used (h.used e a n ha) hn rfl

lemma create_subdir {b : Bool} (h : v.WellFormed) (hn : v.used n = false) {y z : ℕ} :
    (v.create dir name b n).Subdir y z ↔ v.Subdir y z ∨ y = dir ∧ z = n ∧ b = true := by
  have hdir := (create_fields v dir name b n).1
  by_cases hz : z = n
  · subst hz
    simp only [Subdir, hdir, update_self, named_create h hn, not_named_new h hn, false_or,
      exists_false, and_false]
    constructor
    · rintro ⟨hb, a, hy, -, -⟩
      exact ⟨hy, trivial, hb⟩
    · rintro ⟨hy, -, hb⟩
      exact ⟨hb, name, hy, rfl, trivial⟩
  · simp only [Subdir, hdir, update_of_ne hz, create_other h hn hz, hz, false_and, and_false,
      or_false]

lemma WellFormed.right_created {b : Bool} (h : v.WellFormed) (hn : v.used n = false)
    (hne : dir ≠ n) (hlink : (v.create dir name b n).nlink n = if b then 2 else 1) :
    (v.create dir name b n).Right n := by
  have hdir : (v.create dir name b n).isDir n = b := by
    rw [(create_fields v dir name b n).1, update_self]
  have hsmall : (v.create dir name b n).nlink n < (v.create dir name b n).maxLinks := by
    rw [hlink]
    unfold maxLinks
    split_ifs <;> decide
  cases b with
  | true =>
    refine Right.of_dir (k := 0) (.inr ⟨dir, name, ?_⟩) hdir hlink (Numbered.zero ?_) hsmall
    · exact (named_create h hn).2 (.inr ⟨rfl, rfl, rfl⟩)
    · intro z hz
      rcases (create_subdir h hn).1 hz with ⟨-, a, ha⟩ | ⟨hd, -, -⟩
      · exact not_named_unused h hn ha
      · exact hne hd.symm
  | false =>
    apply Right.of_file hdir _ hsmall
    rw [hlink]
    have hnone : Numbered (v.NameOf n) 0 := Numbered.zero fun _ => not_named_new h hn
    apply hnone.add (a := (dir, name)) (not_named_new h hn)
    rintro ⟨e, a⟩
    simp only [NameOf, named_create h hn, and_true, Prod.mk.injEq]

lemma Consistent.create {b : Bool} (h : v.Consistent) (hp : v.WithParent dir name)
    (hf : v.find dir name = none) (hn : v.used n = false) (hreach : v.Reach dir)
    (hroom : b = true → v.HasRoom dir) : (v.create dir name b n).Consistent := by
  have hwf := h.toWellFormed
  obtain ⟨hdir, hused, hroot, hext2⟩ := create_fields v dir name b n
  have hne : dir ≠ n := ne_of_used hp.used hn
  have hlink : (v.create dir name b n).nlink = _ := create_nlink hne fun hb => (hroom hb).trans_le maxLinks_le
  apply Consistent.of_right (hwf.create hp hf hn)
  · intro d a y ha
    have hold : v.Reach d := by
      rcases (named_create hwf hn).1 ha with ha | ⟨rfl, -, -⟩
      · exact (h.reach d a y ha).1
      · exact hreach
    exact hold.mono hroot fun d a x ha => (named_create hwf hn).2 (.inl ha)
  · intro y
    by_cases hyn : y = n
    · subst hyn
      apply hwf.right_created hn hne
      rw [hlink, update_of_ne (Ne.symm hne), update_self]
    · have hkept : v.Kept (v.create dir name b n) y :=
        ⟨by rw [hused, update_of_ne hyn], by rw [hdir, update_of_ne hyn], hroot, hext2⟩
      have hother : ∀ e a, (v.create dir name b n).Named e a y ↔ v.Named e a y :=
        fun _ _ => create_other hwf hn hyn
      by_cases hy : y = dir ∧ b = true
      · obtain ⟨rfl, rfl⟩ := hy
        have hlinky : (v.create y name true n).nlink y = v.nlink y + 1 := by
          rw [hlink, update_self, if_pos rfl]
        obtain ⟨j, hj, hnum⟩ := h.dirs y hreach.linked hp.isDir
        refine Right.of_dir (k := j + 1) ((hkept.linked hother).2 hreach.linked)
          (hkept.isDir.trans hp.isDir) (by omega) (hnum.add (a := n) ?_ ?_) ?_
        · exact fun ⟨_, a, ha⟩ => not_named_new hwf hn ha
        · intro z
          rw [create_subdir hwf hn]
          simp only [true_and, and_true]
        · rw [hlinky, hkept.maxLinks]
          exact hroom rfl
      · apply (h.right y).congr hkept _ hother
        · intro z
          rw [create_subdir hwf hn]
          exact or_iff_left fun hc => hy ⟨hc.1, hc.2.2⟩
        · rw [hlink]
          by_cases hyd : y = dir
          · subst hyd
            rw [update_self, if_neg fun hb => hy ⟨rfl, hb⟩]
          · rw [update_of_ne hyd, update_of_ne hyn]

end Add

section Move

lemma named_move (h : v.WellFormed) (hfree : v.find m.ndir m.nname = none) :
    (v.rename m src none).Named e a x ↔
      v.Named e a x ∧ ¬ (e = m.odir ∧ a = m.oname) ∨ e = m.ndir ∧ a = m.nname ∧ x = src := by
  have hn : (v.rename m src (v.find m.ndir m.nname)).Named e a x ↔ _ := named_rename h
  rw [hfree] at hn
  rw [hn]
  have hno : v.Named e a x → ¬ (e = m.ndir ∧ a = m.nname) := by
    rintro ha ⟨rfl, rfl⟩
    exact not_named_of_find hfree x ha
  constructor
  · rintro (⟨⟨ha, -⟩, hne⟩ | hnew)
    · exact .inl ⟨ha, hne⟩
    · exact .inr hnew
  · rintro (⟨ha, hne⟩ | hnew)
    · exact .inl ⟨⟨ha, hno ha⟩, hne⟩
    · exact .inr hnew

lemma move_nlink (hd : v.isDir src = true ∧ m.odir ≠ m.ndir) (h0 : 0 < v.nlink m.odir)
    (ho : v.nlink m.odir < 2 ^ 32) (hn : v.nlink m.ndir + 1 < 2 ^ 32) :
    (v.rename m src none).nlink = update
      (update v.nlink m.odir (v.nlink m.odir - 1)) m.ndir (v.nlink m.ndir + 1) := by
  have hmove : v.rename m src none =
      (((((v.delEntry m.odir m.oname).addEntry m.ndir m.nname src).setParent src m.ndir).decLink
        m.odir).incLink m.ndir) := by
    simp only [rename, replace, move]
    exact if_pos hd
  have hdec := decLink_nlink
    (((v.delEntry m.odir m.oname).addEntry m.ndir m.nname src).setParent src m.ndir) m.odir h0 ho
  have hdn : ((((v.delEntry m.odir m.oname).addEntry m.ndir m.nname src).setParent src
      m.ndir).decLink m.odir).nlink m.ndir = v.nlink m.ndir := by
    rw [hdec]
    exact update_of_ne (Ne.symm hd.2) _ _
  rw [hmove, incLink_nlink _ _ (by rw [hdn]; exact hn), hdn, hdec]
  rfl

lemma move_nlink_same (hd : ¬ (v.isDir src = true ∧ m.odir ≠ m.ndir)) :
    (v.rename m src none).nlink = v.nlink := by
  have hmove : v.rename m src none =
      (v.delEntry m.odir m.oname).addEntry m.ndir m.nname src := by
    simp only [rename, replace, move]
    exact if_neg hd
  rw [hmove]
  rfl

lemma move_kept (n : ℕ) : v.Kept (v.rename m src none) n :=
  ⟨congrFun rename_used n, congrFun rename_isDir n, rename_root m src none, rename_ext2⟩

lemma move_other (h : v.WellFormed) (hs : v.Named m.odir m.oname src)
    (hfree : v.find m.ndir m.nname = none) (hn : n ≠ src) :
    (v.rename m src none).Named e a n ↔ v.Named e a n := by
  rw [named_move h hfree]
  constructor
  · rintro (⟨ha, -⟩ | ⟨-, -, hc⟩)
    · exact ha
    · exact absurd hc hn
  · intro ha
    refine .inl ⟨ha, ?_⟩
    rintro ⟨rfl, rfl⟩
    exact hn (named_unique (h.nodup _) hs ha)

lemma move_subdir (h : v.WellFormed) (hs : v.Named m.odir m.oname src)
    (hfree : v.find m.ndir m.nname = none) (hn : n ≠ src) :
    (v.rename m src none).Subdir d n ↔ v.Subdir d n := by
  simp only [Subdir, rename_isDir, move_other h hs hfree hn]

lemma subdir_iff (h : v.WellFormed) (hs : v.Named e a n) :
    v.Subdir d n ↔ v.isDir n = true ∧ d = e := by
  constructor
  · rintro ⟨hd, b, hb⟩
    exact ⟨hd, (name_unique h hs hb hd).1⟩
  · rintro ⟨hd, rfl⟩
    exact ⟨hd, a, hs⟩

lemma move_subdir_src (h : v.WellFormed) (hp : v.WithParent m.ndir m.nname)
    (hs : v.Named m.odir m.oname src) (hfree : v.find m.ndir m.nname = none) :
    (v.rename m src none).Subdir d src ↔ v.isDir src = true ∧ d = m.ndir := by
  have hwf : (v.rename m src none).WellFormed := by
    have hr := h.rename hp hs
    rwa [hfree] at hr
  have hnew : (v.rename m src none).Named m.ndir m.nname src :=
    (named_move h hfree).2 (.inr ⟨rfl, rfl, rfl⟩)
  rw [subdir_iff hwf hnew, rename_isDir]

lemma Consistent.right_moved_file (h : v.Consistent) (hs : v.Named m.odir m.oname src)
    (hfree : v.find m.ndir m.nname = none) (hd : v.isDir src = false) :
    (v.rename m src none).Right src := by
  have hu := h.used _ _ _ hs
  have hnum := h.files src hu hd
  have hlink : (v.rename m src none).nlink = v.nlink :=
    move_nlink_same fun hc => by
      rw [hd] at hc
      cases hc.1
  apply Right.of_file ((move_kept src).isDir.trans hd)
  · have hless : Numbered (fun e => v.NameOf src e ∧ e ≠ (m.odir, m.oname)) (v.nlink src - 1) :=
      hnum.remove (a := (m.odir, m.oname)) hs fun _ => Iff.rfl
    have hmore := hless.add (a := (m.ndir, m.nname)) (Q := (v.rename m src none).NameOf src)
      (fun hc => not_named_of_find hfree src hc.1) (by
        rintro ⟨e, a⟩
        simp only [NameOf, named_move h.toWellFormed hfree, and_true, Prod.mk.injEq, ne_eq])
    rw [hlink]
    rwa [Nat.sub_add_cancel (hnum.pos (a := (m.odir, m.oname)) hs)] at hmore
  · rw [hlink, (move_kept src).maxLinks]
    exact h.small src hu fun hc => absurd hc (by simp [hd])

lemma Consistent.right_moved_parents (h : v.Consistent) (hp : v.WithParent m.ndir m.nname)
    (hs : v.Named m.odir m.oname src) (hfree : v.find m.ndir m.nname = none)
    (hreach : v.Reach m.ndir) (hd : v.isDir src = true) (hne : m.odir ≠ m.ndir)
    (hsrc : src ≠ m.odir ∧ src ≠ m.ndir) (hroom : v.HasRoom m.ndir)
    (hlink : (v.rename m src none).nlink = update (update v.nlink m.odir (v.nlink m.odir - 1))
      m.ndir (v.nlink m.ndir + 1)) :
    (v.rename m src none).Right m.odir ∧ (v.rename m src none).Right m.ndir := by
  have hwf := h.toWellFormed
  have hlinked : ∀ y, src ≠ y → v.Linked y → (v.rename m src none).Linked y := fun y hy =>
    ((move_kept y).linked fun _ _ => move_other hwf hs hfree (Ne.symm hy)).2
  have hold : v.Subdir m.odir src := ⟨hd, m.oname, hs⟩
  constructor
  · obtain ⟨hu, hod⟩ := h.dir _ _ _ hs
    have hl : v.Linked m.odir := (h.reach _ _ _ hs).1.linked
    obtain ⟨i, hi, hnum⟩ := h.dirs m.odir hl hod
    have hpos := hnum.pos hold
    have hlinko : (v.rename m src none).nlink m.odir = v.nlink m.odir - 1 := by
      rw [hlink, update_of_ne hne, update_self]
    refine Right.of_dir (k := i - 1) (hlinked _ hsrc.1 hl) ((move_kept _).isDir.trans hod)
      (by omega) (hnum.remove hold ?_) ?_
    · intro z
      by_cases hz : z = src
      · subst hz
        simp only [move_subdir_src hwf hp hs hfree, hne, and_false, ne_eq, not_true_eq_false]
      · rw [move_subdir hwf hs hfree hz, and_iff_left hz]
    · rw [hlinko, (move_kept m.odir).maxLinks]
      exact (Nat.sub_le _ _).trans_lt (h.small m.odir hu fun _ => hl)
  · obtain ⟨j, hj, hnum⟩ := h.dirs m.ndir hreach.linked hp.isDir
    have hlinkn : (v.rename m src none).nlink m.ndir = v.nlink m.ndir + 1 := by
      rw [hlink, update_self]
    refine Right.of_dir (k := j + 1) (hlinked _ hsrc.2 hreach.linked)
      ((move_kept _).isDir.trans hp.isDir) (by omega) (hnum.add (a := src) ?_ ?_) ?_
    · exact fun hc => hne ((subdir_iff hwf hs).1 hc).2.symm
    · intro z
      by_cases hz : z = src
      · subst hz
        simp only [move_subdir_src hwf hp hs hfree, hd, and_self, or_true]
      · rw [move_subdir hwf hs hfree hz, or_iff_left hz]
    · rw [hlinkn, (move_kept m.ndir).maxLinks]
      exact hroom

lemma move_subdir_congr (h : v.WellFormed) (hp : v.WithParent m.ndir m.nname)
    (hs : v.Named m.odir m.oname src) (hfree : v.find m.ndir m.nname = none)
    (hd : v.isDir src = true → m.odir ≠ m.ndir → d ≠ m.odir ∧ d ≠ m.ndir) :
    (v.rename m src none).Subdir d n ↔ v.Subdir d n := by
  by_cases hn : n = src
  · subst hn
    rw [move_subdir_src h hp hs hfree, subdir_iff h hs]
    apply and_congr_right
    intro hsd
    by_cases hne : m.odir = m.ndir
    · rw [hne]
    · obtain ⟨ho, hn⟩ := hd hsd hne
      exact iff_of_false hn ho
  · exact move_subdir h hs hfree hn

lemma Consistent.move (h : v.Consistent) (hp : v.WithParent m.ndir m.nname)
    (hs : v.Named m.odir m.oname src) (hfree : v.find m.ndir m.nname = none)
    (hreach : v.Reach m.ndir) (hin : v.isDir src = true → ¬ Reaches v.parent m.ndir src)
    (hroom : v.isDir src = true → m.odir ≠ m.ndir → v.HasRoom m.ndir) :
    (v.rename m src none).Consistent := by
  have hwf := h.toWellFormed
  have hvis : ∀ d, v.isDir d = true → v.Reach d → (v.rename m src none).Reach d := by
    intro d hd hrd
    have hmv := Visible.rename hrd hwf ⟨fun x hx => by
      rw [hfree] at hx
      cases hx⟩ hs hd hreach id hp.isDir hin (by rw [hfree]; simp)
    rwa [hfree] at hmv
  obtain ⟨hou, hod⟩ := h.dir _ _ _ hs
  have hol : v.Linked m.odir := (h.reach _ _ _ hs).1.linked
  have hosmall := h.small m.odir hou fun _ => hol
  obtain ⟨i, hi, hinum⟩ := h.dirs m.odir hol hod
  have hlink : v.isDir src = true ∧ m.odir ≠ m.ndir → (v.rename m src none).nlink =
      update (update v.nlink m.odir (v.nlink m.odir - 1)) m.ndir (v.nlink m.ndir + 1) :=
    fun hd => move_nlink hd (by omega) (hosmall.trans_le maxLinks_le)
      ((hroom hd.1 hd.2).trans_le maxLinks_le)
  have hplace : v.isDir src = true → src ≠ m.odir ∧ src ≠ m.ndir := by
    intro hd
    constructor
    · intro hc
      apply (h.reach _ _ _ hs).2.no_cycle hwf hd
      apply TransGen.single
      have hup := h.parent _ _ _ hs hd
      rwa [← hc] at hup
    · intro hc
      exact hin hd (hc ▸ .refl)
  have hwf' : (v.rename m src none).WellFormed := by
    have hr := hwf.rename hp hs
    rwa [hfree] at hr
  apply Consistent.of_right hwf'
  · intro d a y ha
    rcases (named_move hwf hfree).1 ha with ⟨ha, -⟩ | ⟨rfl, -, -⟩
    · exact hvis d (h.dir d a y ha).2 (h.reach d a y ha).1
    · exact hvis m.ndir hp.isDir hreach
  intro y
  by_cases hmoves : (v.isDir src = true ∧ m.odir ≠ m.ndir) ∧ (y = m.odir ∨ y = m.ndir)
  · obtain ⟨⟨hd, hne⟩, hy⟩ := hmoves
    have hright := h.right_moved_parents hp hs hfree hreach hd hne (hplace hd) (hroom hd hne)
      (hlink ⟨hd, hne⟩)
    rcases hy with rfl | rfl
    · exact hright.1
    · exact hright.2
  · have hy : v.isDir src = true → m.odir ≠ m.ndir → y ≠ m.odir ∧ y ≠ m.ndir :=
      fun hd hne => ⟨fun hc => hmoves ⟨⟨hd, hne⟩, .inl hc⟩, fun hc => hmoves ⟨⟨hd, hne⟩, .inr hc⟩⟩
    have hsame : (v.rename m src none).nlink y = v.nlink y := by
      by_cases hd : v.isDir src = true ∧ m.odir ≠ m.ndir
      · obtain ⟨ho, hn⟩ := hy hd.1 hd.2
        rw [hlink hd, update_of_ne hn, update_of_ne ho]
      · rw [move_nlink_same hd]
    by_cases hys : y = src
    · subst hys
      cases hd : v.isDir y with
      | true =>
        have hyl : v.Linked y := .inr ⟨_, _, hs⟩
        obtain ⟨k, hk, hnum⟩ := h.dirs y hyl hd
        refine Right.of_dir (.inr ⟨m.ndir, m.nname, ?_⟩) ((move_kept y).isDir.trans hd)
          (hsame.trans hk) (hnum.congr fun z => ?_) ?_
        · exact (named_move hwf hfree).2 (.inr ⟨rfl, rfl, rfl⟩)
        · exact move_subdir_congr hwf hp hs hfree hy
        · rw [hsame, (move_kept y).maxLinks]
          exact h.small y (h.used _ _ _ hs) fun _ => hyl
      | false => exact h.right_moved_file hs hfree hd
    · apply (h.right y).congr (move_kept y) hsame
      · exact fun _ _ => move_other hwf hs hfree hys
      · exact fun _ => move_subdir_congr hwf hp hs hfree hy

end Move

section Run

lemma Consistent.reachable (h : v.Consistent) (hp : v.WithParent dir name)
    (hn : v.nlink dir ≠ 0) : v.Reach dir := (h.removed dir hp.used hp.isDir hn).reach h.toTree

lemma find_eq_none (h : ∀ x, ¬ v.Named dir name x) : v.find dir name = none := by
  cases hf : v.find dir name with
  | none => rfl
  | some x => exact absurd (find_named hf) (h x)

lemma Consistent.replaced (h : v.Consistent) (hp : v.WithParent m.ndir m.nname)
    (hs : v.Named m.odir m.oname src) (hx : v.Named m.ndir m.nname x)
    (hne : ¬ (m.odir = m.ndir ∧ m.oname = m.nname)) (he : ∀ a n, ¬ v.Named x a n)
    (hreach : v.Reach m.ndir) (hin : v.isDir src = true → ¬ Reaches v.parent m.ndir src)
    (v' : Volume) (hv' : v'.Consistent) (hfields : v'.used = v.used ∧ v'.isDir = v.isDir ∧
      v'.parent = v.parent ∧ v'.root = v.root)
    (hnamed : ∀ e a y, v'.Named e a y ↔ v.Named e a y ∧ ¬ (e = m.ndir ∧ a = m.nname))
    (hroom : v.isDir src = true → v'.HasRoom m.ndir) : (v'.rename m src none).Consistent := by
  obtain ⟨hused, hdir, hparent, hroot⟩ := hfields
  apply hv'.move
  · exact ⟨hused ▸ hp.used, hdir ▸ hp.isDir, hp.name⟩
  · exact (hnamed _ _ _).2 ⟨hs, hne⟩
  · exact find_eq_none fun y hy => ((hnamed _ _ y).1 hy).2 ⟨rfl, rfl⟩
  · apply hreach.remove v' m.ndir m.nname x hroot hnamed
    · exact fun y hy => named_unique (h.nodup _) hx hy
    · exact he
    · intro hc
      exact he m.nname x (hc ▸ hx)
  · rw [hdir, hparent]
    exact hin
  · rw [hdir]
    exact fun hd _ => hroom hd

lemma Consistent.drop (h : v.Consistent) (hr : n ≠ v.root) (hn : v.nlink n = 0) :
    Consistent { v with
      used := update v.used n false
      entries := update v.entries n [] } := by
  have hno : (∀ d a, ¬ v.Named d a n) ∧ ∀ a x, ¬ v.Named n a x := by
    cases hu : v.used n with
    | false =>
      refine ⟨fun d a ha => ?_, fun a x => not_named_unused h.toWellFormed hu⟩
      rw [h.used d a n ha] at hu
      cases hu
    | true =>
      cases hd : v.isDir n with
      | false =>
        have hnum := h.files n hu hd
        rw [hn] at hnum
        exact ⟨fun d a ha => hnum.eq_zero (d, a) ha, file_empty h.toWellFormed hd⟩
      | true =>
        have hnot : ¬ v.Linked n := by
          intro hl
          obtain ⟨k, hk, -⟩ := h.dirs n hl hd
          omega
        exact ⟨fun d a ha => hnot (.inr ⟨d, a, ha⟩),
          fun a x ha => hnot (h.reach n a x ha).1.linked⟩
  have hentries : update v.entries n [] = v.entries := by
    have hnil : v.entries n = [] := by
      apply List.eq_nil_iff_forall_not_mem.2
      exact fun e he => hno.2 e.1 e.2 he
    rw [← hnil, update_eq_self]
  rw [hentries]
  have hused : ∀ y, update v.used n false y = true → v.used y = true ∧ y ≠ n := by
    intro y hy
    by_cases hyn : y = n
    · simp [hyn] at hy
    · exact ⟨by simpa [hyn] using hy, hyn⟩
  have hvis : ∀ y, v.Reach y → Reach { v with used := update v.used n false } y :=
    fun y hy => hy.mono rfl fun _ _ _ ha => ha
  refine ⟨⟨?_, ?_, h.dirs, ?_⟩, ?_, ?_⟩
  · refine h.toWellFormed.sub ?_ ?_ ?_ ?_ ?_ ?_
    · exact h.nodup
    · exact fun _ _ _ ha => ha
    · rfl
    · rfl
    · rfl
    · intro k hk hf
      obtain rfl : k = n := by
        by_contra hkn
        simp only [update_of_ne hkn, hk] at hf
        cases hf
      exact ⟨hr, hno.2, hno.1⟩
  · exact fun d a y ha => ⟨hvis d (h.reach d a y ha).1, hvis y (h.reach d a y ha).2⟩
  · exact fun y hy => h.files y (hused y hy).1
  · exact fun y hy => h.small y (hused y hy).1
  · exact fun y hy => h.removed y (hused y hy).1

lemma Consistent.reload (h : v.Consistent) (hv : v.ext2 = true) :
    (v.setLink n (v.nlink n % 2 ^ 16)).Consistent := by
  have hwf : (v.setLink n (v.nlink n % 2 ^ 16)).WellFormed :=
    ⟨h.nodup, h.once, h.parent, h.top, h.root, h.dir, h.used⟩
  have hmod : v.used n = true → (v.isDir n = true → v.Linked n) →
      v.nlink n % 2 ^ 16 = v.nlink n := by
    intro hu hd
    have hlt := h.small n hu hd
    rw [maxLinks, if_pos hv] at hlt
    exact Nat.mod_eq_of_lt hlt
  apply Consistent.of_right hwf
  · exact fun d a y ha => (h.reach d a y ha).1.mono rfl fun _ _ _ hb => hb
  intro y
  have hright := h.right y
  by_cases hsame : (v.setLink n (v.nlink n % 2 ^ 16)).nlink y = v.nlink y
  · exact hright.congr ⟨rfl, rfl, rfl, rfl⟩ hsame (fun _ _ => Iff.rfl) fun _ => Iff.rfl
  · -- only the count of an inode that is not in use, or of a removed directory, is cut
    have hyn : y = n := by
      by_contra hyn
      exact hsame (update_of_ne hyn _ _)
    subst hyn
    have hcut : ¬ (v.used y = true ∧ (v.isDir y = true → v.Linked y)) := fun hc =>
      hsame ((update_self ..).trans (hmod hc.1 hc.2))
    refine ⟨?_, ?_, ?_, ?_⟩
    · exact fun hl hd => absurd ⟨Linked.used (v := v) hl h.toWellFormed, fun _ => hl⟩ hcut
    · exact fun hu hd => absurd ⟨hu, fun hc => absurd hc (by simp [show v.isDir y = false from hd])⟩
        hcut
    · exact fun hu hd => absurd ⟨hu, hd⟩ hcut
    · intro hu hd hl
      apply hright.removed hu hd
      intro h0
      simp [setLink, h0] at hl

lemma Consistent.rename (h : v.Consistent) (hn : v.WithParent m.ndir m.nname)
    (hf : v.find m.odir m.oname = some src) (hs : ¬ v.Same m src)
    (hw : v.Walks m src → Walked v.parent src m.ndir none)
    (hd : ∀ x, v.find m.ndir m.nname = some x →
      v.isDir x = v.isDir src ∧ (v.isDir x = true → v.entries x = []))
    (hc : v.Careful (.rename m src (v.find m.ndir m.nname))) :
    (v.rename m src (v.find m.ndir m.nname)).Consistent := by
  obtain ⟨hlinks, hroom⟩ := hc
  have hreach := h.reachable hn hlinks
  have hin : v.isDir src = true → ¬ Reaches v.parent m.ndir src :=
    not_inside h.toWellFormed (find_named hf) hw hreach hn.isDir
  cases hx : v.find m.ndir m.nname with
  | none =>
    rw [hx] at hroom
    exact h.move hn (find_named hf) hx hreach hin fun hd hne => hroom hd hne rfl
  | some x =>
    have hempty := (Replaceable.of_rename h.toWellFormed hd).empty x hx
    have hne : ¬ (m.odir = m.ndir ∧ m.oname = m.nname) := by
      rintro ⟨h₁, h₂⟩
      apply hs
      unfold Same
      split_ifs
      · rw [← h₁, ← h₂]
        exact hf
      · exact ⟨h₁, h₂⟩
    cases hxd : v.isDir x with
    | false =>
      have hren : v.rename m src (some x) = (v.unlink m.ndir m.nname x).rename m src none := by
        simp [Volume.rename, replace, hxd]
      rw [hren]
      apply h.replaced hn (find_named hf) (find_named hx) hne hempty hreach hin
      · exact h.unlink (find_named hx) hxd
      · exact ⟨rfl, rfl, rfl, rfl⟩
      · exact fun e a y => named_unlink h.toWellFormed
      · intro hsd
        rw [← (hd x hx).1, hxd] at hsd
        cases hsd
    | true =>
      have hrm := h.rmdir (find_named hx) hxd ((hd x hx).2 hxd)
      have hren : v.rename m src (some x) = (v.rmdir m.ndir m.nname x).rename m src none := by
        simp [Volume.rename, replace, hxd]
      rw [hren]
      apply h.replaced hn (find_named hf) (find_named hx) hne hempty hreach hin _ hrm
      · exact ⟨rfl, rfl, rfl, rfl⟩
      · exact fun e a y => named_rmdir h.toWellFormed
      · -- the target made room
        intro _
        have hdx : m.ndir ≠ x := by
          intro hc
          have hnx := find_named hx
          rw [hc] at hnx
          exact hempty m.nname x hnx
        obtain ⟨j, hj, hjnum⟩ := h.dirs m.ndir hreach.linked hn.isDir
        have hsmall := h.small m.ndir hn.used fun _ => hreach.linked
        have hlink := rmdir_nlink m.nname hdx (by omega) (hsmall.trans_le maxLinks_le)
        have hmax : (v.rmdir m.ndir m.nname x).maxLinks = v.maxLinks := rfl
        rw [HasRoom, hlink, update_self, hmax]
        omega

lemma Consistent.step {a : VolumeAction} (h : v.Consistent) (hc : v.Careful a)
    (hs : Step v a v') : v'.Consistent := by
  cases hs with
  | create hp hf hn => exact h.create hp hf hn (h.reachable hp hc.1) hc.2
  | unlink _ hf hx => exact h.unlink (find_named hf) hx
  | rmdir _ hf hx he => exact h.rmdir (find_named hf) hx he
  | rename _ hn hf hsame hw hd => exact h.rename hn hf hsame hw hd hc
  | reload hv => exact h.reload hv
  | drop hr hn => exact h.drop hr hn

theorem careful_tree (v : Volume) (h : (system.guarded Careful).Reachable v) : v.Tree := by
  have hcons : v.Consistent := by
    apply h.invariant
    · exact fun _ hi => hi
    · exact fun _ _ _ hc hs => hc.step hs.1 hs.2
  exact hcons.toTree

end Run

section Removed

lemma newTmpfs_not_named : ¬ newTmpfs.Named d a n := by
  intro ha
  cases ha

lemma newTmpfs_consistent : newTmpfs.Consistent := by
  apply Consistent.of_right newTmpfs_wellFormed
  · exact fun d a n ha => absurd ha newTmpfs_not_named
  · intro n
    by_cases hn : n = 0
    · subst hn
      apply Right.of_dir (k := 0) (.inl rfl) rfl rfl _ (by decide)
      exact Numbered.zero fun _ ⟨_, a, ha⟩ => newTmpfs_not_named ha
    · have hu : newTmpfs.used n = false := by simpa [newTmpfs] using hn
      have hd : newTmpfs.isDir n = false := by simpa [newTmpfs] using hn
      apply Right.of_file hd
      · rw [show newTmpfs.nlink n = 0 from if_neg hn]
        exact Numbered.zero fun _ => newTmpfs_not_named
      · rw [show newTmpfs.nlink n = 0 from if_neg hn]
        decide

def withD : Volume := newTmpfs.create 0 "d" true 1

def removedD : Volume := withD.rmdir 0 "d" 1

def filledD : Volume := removedD.create 1 "x" false 2

lemma withD_reachable : (system.guarded Careful).Reachable withD := by
  apply System.Reachable.step (.create 0 "d" true 1) (.init newTmpfs_consistent)
  refine ⟨⟨by decide, fun _ => show 2 + 1 < 2 ^ 32 by decide⟩, ?_⟩
  exact .create ⟨rfl, rfl, by decide⟩ rfl rfl

theorem careful_tree_withD : withD.Tree := careful_tree withD withD_reachable

lemma filledD_reachable : system.Reachable filledD := by
  apply System.Reachable.step (.create 1 "x" false 2) _
  · exact .create ⟨rfl, rfl, by decide⟩ rfl rfl
  · apply System.Reachable.step (.rmdir 0 "d" 1) withD_reachable.of_guarded
    exact .rmdir ⟨rfl, rfl, by decide⟩ (by decide) rfl rfl

theorem not_tree_filledD : ¬ ∀ v : Volume, system.Reachable v → v.Tree := by
  intro h
  have hr := ((h filledD filledD_reachable).reach 1 "x" 2 (find_named (by decide))).1
  rcases hr.linked with hroot | ⟨d, a, ha⟩
  · cases hroot
  · by_cases hd : d = 1
    · subst hd
      rw [Named, show filledD.entries 1 = [("x", 2)] by decide] at ha
      simp at ha
    · have he : filledD.entries d = [] := by
        simp [filledD, removedD, withD, Volume.create, Volume.rmdir, newInode, addEntry, delEntry,
          incLink, decLink, setLink, newTmpfs, hd]
      rw [Named, he] at ha
      cases ha

end Removed

end Volume

end MyOS.Fs
